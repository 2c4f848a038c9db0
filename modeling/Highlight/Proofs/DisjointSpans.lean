import Highlight.Proofs.Cancellation
import Highlight.Proofs.OccurrenceClasses
import Highlight.Proofs.StructuralScopes

/-!
# Spans lie apart

Where no identifier stands above another one, the spans that are found for an element lie apart, in the order
of the live text (`spans_lie_apart`). The order is kept by each of three steps: the occurrences of a symbol in
pre-order follow each other in the parsed text (`Engine.pairwise_occurrences`), the live ranges of two ranges
that follow each other do so as well, on whichever sides of an edit they stand
(`Mapping.stop_le_start_of_rangeToLive`), and so do the characters that are cut out of the live text
(`Text.cut?_stop_le`).
-/

namespace Highlight

/-! ## Order in the parsed text -/

/-- The occurrences of a symbol follow each other. -/
theorem Engine.pairwise_occurrences {file : Snapshot} {g : Grammar} (grammar : file.grammar = some g)
    (wellFormed : file.tree.WellFormed) (unnested : g.UnnestedIdentifiers file.tree) (symbol : Symbol) :
    (occurrences g file symbol).Pairwise fun p q => p.node.range.stop ≤ q.node.range.start := by
  have identifier : ∀ p ∈ occurrences g file symbol,
      p ∈ file.tree.places ∧ g.isIdentifier p.node.kind = true := by
    intro p hp
    rw [occurrences_eq grammar, List.mem_filter, file.places_eq, decide_eq_true_iff] at hp
    exact ⟨hp.1, (Symbol.named?_eq_some (Symbol.named?_of_lexical? grammar hp.2)).1⟩
  have ordered : (occurrences g file symbol).Pairwise Tree.Precedes := by
    rw [occurrences_eq grammar, file.places_eq]
    exact (Tree.pairwise_places wellFormed).filter _
  refine ordered.imp_of_mem fun {p q} hp hq precedes => ?_
  rcases precedes with above | before
  · have nested := unnested q (identifier q hq).1 (identifier q hq).2 p.node above
    rw [(identifier p hp).2] at nested
    cases nested
  · exact before

/-! ## Order in the live text -/

/-- Ranges that follow each other in the parsed text do so in the live text. -/
theorem Mapping.stop_le_start_of_rangeToLive {parsed live : Text} (addressable : live.Addressable)
    {first second liveFirst liveSecond : ByteRange} (inhabited : first.start < first.stop)
    (inhabited' : second.start < second.stop) (inText : first.stop ≤ Text.byteLength parsed)
    (inText' : second.stop ≤ Text.byteLength parsed) (follows : first.stop ≤ second.start)
    (h : (between parsed live).rangeToLive first = some liveFirst)
    (h' : (between parsed live).rangeToLive second = some liveSecond) :
    liveFirst.stop ≤ liveSecond.start := by
  rcases rangeToLive_cases addressable inText inhabited h with ⟨same, rfl⟩ | ⟨r, hr, side⟩
  · rcases rangeToLive_cases addressable inText' inhabited' h' with ⟨-, rfl⟩ | ⟨r, hr, -⟩
    · exact follows
    · rw [same] at hr
      cases hr
  · rcases rangeToLive_cases addressable inText' inhabited' h' with ⟨same, -⟩ | ⟨r', hr', side'⟩
    · rw [same] at hr
      cases hr
    · rw [hr] at hr'
      cases hr'
      obtain ⟨oldOrder, newOrder, -, -⟩ := region_between hr
      -- of the two ranges only the second can stand behind the edit while the other stands before it
      rcases side with ⟨before, rfl⟩ | ⟨behind, rfl⟩
      · rcases side' with ⟨-, rfl⟩ | ⟨behind', rfl⟩
        · exact follows
        · dsimp only
          omega
      · rcases side' with ⟨before', rfl⟩ | ⟨-, rfl⟩
        · omega
        · dsimp only
          omega

/-- Characters cut out of a text follow each other if their bytes do. -/
theorem Text.cut?_stop_le {t : Text} {r r' : ByteRange} {cut cut' : Cut} (h : cut? t r = some cut)
    (h' : cut? t r' = some cut') (follows : r.stop ≤ r'.start) :
    cut.before.length + cut.inside.length ≤ cut'.before.length := by
  obtain ⟨-, stop, inside⟩ := cut?_offsets h
  obtain ⟨start, -, -⟩ := cut?_offsets h'
  rw [← stop, ← start] at follows
  refine Nat.le_of_not_lt fun overlaps => ?_
  exact Nat.not_le_of_lt (byteLength_take_lt t overlaps inside) follows

namespace Span

variable {file : Snapshot} {live : Text} {m : Mapping} {first second : ByteRange} {kind kind' : String}
  {s t : Span}

theorem offset_lt_stop_of_derive (h : derive file first kind live m = .ok s) : s.offset < s.stop := by
  obtain ⟨_, _, _, _, -, -, -, -, -, -, placed⟩ := derive_eq_ok_iff.1 h
  obtain ⟨-, -, -, -, fits⟩ := ofCuts_eq_ok_iff.1 placed
  simp only [Span.fits, Bool.and_eq_true, decide_eq_true_eq] at fits
  exact Nat.lt_add_of_pos_right fits.1

/-- The spans of identifiers that follow each other do so as well. -/
theorem stop_le_offset_of_derive (addressable : live.Addressable) (follows : first.stop ≤ second.start)
    (h : derive file first kind live (.between file.source live) = .ok s)
    (h' : derive file second kind' live (.between file.source live) = .ok t) : s.stop ≤ t.offset := by
  obtain ⟨inhabited, parsed, hp, liveFirst, hl, cut, hc, rfl⟩ := derive_eq_ok h
  obtain ⟨inhabited', parsed', hp', liveSecond, hl', cut', hc', rfl⟩ := derive_eq_ok h'
  exact Text.cut?_stop_le hc hc' (Mapping.stop_le_start_of_rangeToLive addressable inhabited inhabited'
    (Text.stop_le_of_cut? hp) (Text.stop_le_of_cut? hp') follows hl hl')

end Span

/-! ## What is found -/

namespace Pipeline

variable {file : Snapshot} {g : Grammar} {live : Text}

/-- Whenever the search for the symbol of an element is cancelled, what is left are the spans of all
occurrences or none. -/
theorem find_lexical (grammar : file.grammar = some g) {history : Nat → Bool} {element : Place}
    {report : Report}
    (found : lexical.find history file live (.between file.source live) element = .ok report)
    {symbol : Symbol} (resolved : Symbol.lexical? file element = some symbol) :
    report.spans = spansOf g file live symbol ∨ report.spans = [] := by
  rw [(searched_of_find found resolved).2, ← spans_occurrences]
  have part : ((Engine.lexical ⟨symbol, [file], .all⟩).exec history).PartOf
      ((Engine.lexical ⟨symbol, [file], .all⟩).exec fun _ => false) :=
    (Engine.cooperative_searching .lexical _).partOf history
  rcases part.complete with ⟨finished, all⟩ | none
  · -- a search that comes to its end uncancelled has not crashed, so the file can be read
    have survived : ((Engine.lexical ⟨symbol, [file], .all⟩).exec fun _ => false).ending ≠ .crashed := by
      simp [finished]
    have readable := Engine.readable_of_survived grammar survived
    rw [all, (Run.exec_of_delivered (Engine.delivered_all grammar readable symbol)).2]
    exact Or.inl rfl
  · rw [none]
    exact Or.inr rfl

/-- The spans of the occurrences of a symbol lie apart. -/
theorem pairwise_spansOf (grammar : file.grammar = some g) (wellFormed : file.tree.WellFormed)
    (unnested : g.UnnestedIdentifiers file.tree) (addressable : live.Addressable) (symbol : Symbol) :
    (spansOf g file live symbol).Pairwise fun s t => s.offset < t.offset ∧ s.stop ≤ t.offset := by
  refine (Engine.pairwise_occurrences grammar wellFormed unnested symbol).filterMap _ ?_
  intro p q follows s hs t ht
  rw [Span.derive?_eq_some_iff] at hs ht
  have apart := Span.stop_le_offset_of_derive addressable follows hs ht
  exact ⟨Nat.lt_of_lt_of_le (Span.offset_lt_stop_of_derive hs) apart, apart⟩

end Pipeline

/-- Highlights never overlap. Over a well-formed tree in which no identifier stands above another one, and with
any live text that machine words can address, finding the occurrences of any element of the tree by lexical
scopes ends well if the identifiers end in the source, and the spans that are found for any element lie apart and
in their order, also if the search is cancelled. -/
theorem spans_lie_apart {file : Snapshot} (wellFormed : file.tree.WellFormed)
    (unnested : ∀ g ∈ file.grammar, g.UnnestedIdentifiers file.tree) {live : Text}
    (addressable : live.Addressable) (history : Nat → Bool) (element : Place) :
    let find := Pipeline.lexical.find history file live (.between file.source live)
    (file.Readable → element ∈ file.places → ∃ report, find element = .ok report) ∧
    ∀ report, find element = .ok report →
      report.spans.Pairwise fun s t => s.offset < t.offset ∧ s.stop ≤ t.offset := by
  intro find
  constructor
  · intro readable place
    exact (Pipeline.crashFree_lexical readable).find_eq_ok history live _ place
  · intro report found
    cases resolved : Symbol.lexical? file element with
    | none =>
      rw [Pipeline.spans_of_unresolved found resolved]
      exact List.Pairwise.nil
    | some symbol =>
      cases grammar : file.grammar with
      | none => simp [Symbol.lexical?, grammar] at resolved
      | some g =>
        rcases Pipeline.find_lexical grammar found resolved with all | none
        · rw [all]
          exact Pipeline.pairwise_spansOf grammar wellFormed (unnested g grammar) addressable symbol
        · rw [none]
          exact List.Pairwise.nil

/-- The `é` and a sign beside it have been deleted between the two occurrences of `x`. -/
theorem spans_lie_apart_deleted :
    let live := ['x', '+', 'x']
    let element := (Snapshot.twoOccurrences.places[3]?).getD default
    Snapshot.twoOccurrences.Readable ∧ ∃ report, Pipeline.lexical.find (fun _ => false) .twoOccurrences live
        (.between Snapshot.twoOccurrences.source live) element = .ok report ∧
      report.spans = [⟨0, 1⟩, ⟨2, 1⟩] ∧
      report.spans.Pairwise fun s t => s.offset < t.offset ∧ s.stop ≤ t.offset := by
  intro live element
  have unnested : ∀ g ∈ Snapshot.twoOccurrences.grammar,
      g.UnnestedIdentifiers Snapshot.twoOccurrences.tree := by
    rintro g ⟨⟩
    decide
  obtain ⟨success, apart⟩ := spans_lie_apart (by decide) unnested
    (show Text.Addressable live by decide) (fun _ => false) element
  have readable : Snapshot.twoOccurrences.Readable := by decide
  obtain ⟨report, found⟩ := success readable (by decide +kernel)
  have spans : (Pipeline.lexical.find (fun _ => false) .twoOccurrences live
      (.between Snapshot.twoOccurrences.source live) element).toOption.map (·.spans) =
        some [⟨0, 1⟩, ⟨2, 1⟩] := by decide +kernel
  rw [found] at spans
  exact ⟨readable, report, found, Option.some.inj spans, apart report found⟩

end Highlight
