import Highlight.Proofs.ExactOccurrences

/-!
# Spans are sound whatever is reported

An engine comes from outside. It may report any ranges, also ones that stand the wrong way round, lie behind
the text or inside a character, of any kind of node and of files of any document, and the same one many times.
Whatever it reports, each match gives at most one span, in the order of the reports, and where the span stands
the live text reads as the match does in its own file (`spans_are_sound`).

Placing a match needs two things that are not guarded where they happen: the parts of the parsed text in front
of the match and behind it, which can only be cut off between two characters, and the shift of a range by a
signed distance, which must not lead below zero. `Span.deriveUnguarded` places a match with these operations as
they are, so that they can crash; it never does, and it gives the same spans (`Span.deriveUnguarded_eq`).
-/

namespace Highlight

/-! ## Operations that can crash -/

namespace Text

/-- The text in front of a byte offset, which must stand between two characters. -/
def frontAt (t : Text) (byte : Nat) : Except Crash Text :=
  match splitAt? t byte with
  | some (front, _) => .ok front
  | none => .error .crash

/-- The text from a byte offset on, which must stand between two characters. -/
def backAt (t : Text) (byte : Nat) : Except Crash Text :=
  match splitAt? t byte with
  | some (_, back) => .ok back
  | none => .error .crash

theorem frontAt_of_cut? {t : Text} {r : ByteRange} {cut : Cut} (h : cut? t r = some cut) :
    t.frontAt r.start = .ok cut.before := by
  obtain ⟨whole, start, -⟩ := cut?_eq_some_iff.1 h
  rw [List.append_assoc] at whole
  rw [frontAt, splitAt?_eq_some_iff.2 ⟨whole, start⟩]

theorem backAt_of_cut? {t : Text} {r : ByteRange} {cut : Cut} (h : cut? t r = some cut) :
    t.backAt r.stop = .ok cut.after := by
  obtain ⟨whole, -, stop⟩ := cut?_eq_some_iff.1 h
  rw [backAt, splitAt?_eq_some_iff.2 ⟨whole, stop⟩]

/-- The character right before a character offset. -/
def charBefore? (t : Text) (offset : Nat) : Option Char := if offset = 0 then none else t[offset - 1]?

theorem charBefore?_of_cut? {t : Text} {r : ByteRange} {cut : Cut} (h : cut? t r = some cut) :
    t.charBefore? cut.before.length = cut.before.getLast? := by
  obtain ⟨whole, -, -⟩ := cut?_eq_some_iff.1 h
  rw [charBefore?, List.getLast?_eq_getElem?]
  split
  · rename_i nothing
    rw [List.length_eq_zero_iff.1 nothing]
    rfl
  · rw [whole, List.append_assoc, List.getElem?_append_left (by omega)]

theorem getElem?_of_cut? {t : Text} {r : ByteRange} {cut : Cut} (h : cut? t r = some cut) :
    t[cut.before.length + cut.inside.length]? = cut.after.head? := by
  obtain ⟨whole, -, -⟩ := cut?_eq_some_iff.1 h
  rw [whole, ← List.length_append, List.getElem?_append_right (Nat.le_refl _), Nat.sub_self,
    List.head?_eq_getElem?]

theorem charsBefore_of_cut? {t : Text} {r : ByteRange} {cut : Cut} (h : cut? t r = some cut) :
    t.charsBefore r.start = cut.before.length := by
  obtain ⟨whole, start, -⟩ := cut?_eq_some_iff.1 h
  rw [whole, ← start, List.append_assoc, charsBefore_byteLength]

end Text

namespace Mapping

/-- An offset moved by a signed distance, which must not lead below zero. -/
def movedSigned (byte : Nat) (distance : Int) : Except Crash Nat :=
  if (byte : Int) + distance < 0 then .error .crash else .ok (moved byte distance)

/-- The live range of a parsed range, computed with signed distances. -/
def rangeToLiveSigned (m : Mapping) (range : ByteRange) : Except Crash (Option ByteRange) :=
  match m.region with
  | none => return some range
  | some r =>
    if range.stop ≤ r.start then return some range
    else if r.oldEnd ≤ range.start then do
      let distance : Int := (r.newEnd : Int) - r.oldEnd
      let start ← movedSigned range.start distance
      let stop ← movedSigned range.stop distance
      return some ⟨start, stop⟩
    else return none

/-- An offset behind the edited region stays behind it. -/
theorem movedSigned_eq {byte oldEnd : Nat} (behind : oldEnd ≤ byte) (newEnd : Nat) :
    movedSigned byte ((newEnd : Int) - oldEnd) = .ok (moved byte ((newEnd : Int) - oldEnd)) := by
  rw [movedSigned, if_neg (by omega)]

theorem rangeToLiveSigned_eq (m : Mapping) {range : ByteRange} (ordered : range.start ≤ range.stop) :
    m.rangeToLiveSigned range = .ok (m.rangeToLive range) := by
  cases hr : m.region with
  | none => simp only [rangeToLiveSigned, rangeToLive, hr, pure, Except.pure]
  | some r =>
    simp only [rangeToLiveSigned, rangeToLive, hr]
    by_cases before : range.stop ≤ r.start
    · rw [if_pos before, if_pos before]
      rfl
    · rw [if_neg before, if_neg before]
      by_cases behind : r.oldEnd ≤ range.start
      · rw [if_pos behind, if_pos behind, movedSigned_eq behind,
          movedSigned_eq (Nat.le_trans behind ordered)]
        rfl
      · rw [if_neg behind, if_neg behind]
        rfl

end Mapping

namespace Span

/-- The span of a name that stands at `range` of a text and at `liveRange` of the live one. Its neighbours in
the text are cut off without asking whether they can be, and those in the live text are found by counting
characters. -/
def besideUnguarded (source : Text) (range : ByteRange) (live : Text) (liveRange : ByteRange)
    (name : Text) : Except Crash (Option Span) := do
  let span : Span := ⟨live.charsBefore liveRange.start, name.length⟩
  let before ← source.frontAt range.start
  let after ← source.backAt range.stop
  if grewInto before.getLast? (live.charBefore? span.offset)
      || grewInto after.head? live[span.offset + span.length]? then return none
  return if span.fits live.length then some span else none

/-- The span in the live text of the identifier of kind `kind` at `range` of a snapshot, with operations that
crash where they have no result. -/
def deriveUnguarded (file : Snapshot) (range : ByteRange) (kind : String) (live : Text) (m : Mapping) :
    Except Crash (Option Span) := do
  let some g := file.grammar | return none
  if !g.isIdentifier kind || range.isEmpty then return none
  let some name := file.textOf? range | return none
  let some liveRange ← m.rangeToLiveSigned range | return none
  let some reads := Text.slice? live liveRange | return none
  if reads ≠ name then return none
  besideUnguarded file.source range live liveRange name

/-- A name that could be cut out of its text has neighbours that can be cut off. -/
theorem besideUnguarded_eq {source live : Text} {range liveRange : ByteRange} {parsed cut : Text.Cut}
    (hp : Text.cut? source range = some parsed) (hc : Text.cut? live liveRange = some cut)
    (same : cut.inside = parsed.inside) :
    besideUnguarded source range live liveRange parsed.inside =
      .ok (ofCuts parsed cut live.length).toOption := by
  have behind := Text.getElem?_of_cut? hc
  rw [same] at behind
  simp only [besideUnguarded, Text.charsBefore_of_cut? hc, Text.frontAt_of_cut? hp,
    Text.backAt_of_cut? hp, Text.charBefore?_of_cut? hc, behind, bind, Except.bind, ofCuts]
  rw [if_neg (not_not_intro same)]
  split
  · rfl
  · split <;> rfl

/-- The guards in front of the unguarded operations are enough: none of them crashes. -/
theorem deriveUnguarded_eq (file : Snapshot) (range : ByteRange) (kind : String) (live : Text)
    (m : Mapping) :
    deriveUnguarded file range kind live m = .ok (derive? file range kind live m) := by
  unfold deriveUnguarded derive? derive
  cases grammar : file.grammar with
  | none => rfl
  | some g =>
    dsimp only
    cases identifier : g.isIdentifier kind with
    | false => rfl
    | true =>
      cases inhabited : range.isEmpty with
      | true => rfl
      | false =>
        have ordered := Nat.le_of_lt (ByteRange.isEmpty_eq_false_iff.1 inhabited)
        simp only [Snapshot.textOf?, Text.slice?, m.rangeToLiveSigned_eq ordered, bind, Except.bind]
        cases hp : Text.cut? file.source range with
        | none => rfl
        | some parsed =>
          cases hl : m.rangeToLive range with
          | none => rfl
          | some liveRange =>
            cases hc : Text.cut? live liveRange with
            | none => simp [hc, pure, Except.pure, Except.toOption]
            | some cut =>
              by_cases same : cut.inside = parsed.inside
              · simp [hc, same, besideUnguarded_eq hp hc same]
              · simp [hc, same, ofCuts, pure, Except.pure, Except.toOption]

end Span

/-! ## Matches and their spans -/

/-- The syntax node of a match. -/
def Match.element? : Match → Option ElementMatch
  | .element found => some found
  | .text _ _ => none

/-- The syntax nodes that the engine reported, in its order, also those of a search that failed later. -/
def Report.reported : Report → List ElementMatch
  | unresolved _ => []
  | searched _ outcome _ => outcome.found.filterMap Match.element?

namespace ElementMatch

/-- The span shows the match: it is an identifier of the document, and the live text has it at the span, which
has some length and lies in the text. -/
structure ShownAt (found : ElementMatch) (document : DocumentId) (live : Text) (s : Span) : Prop where
  document : found.file.document = document
  identifier : ∃ g, found.file.grammar = some g ∧ g.isIdentifier found.nodeKind = true
  inhabited : 0 < s.length
  inside : s.offset + s.length ≤ live.length
  reads : found.file.textOf? found.range = some ((live.drop s.offset).take s.length)

/-- The span of a match of the document. -/
def spanIn? (found : ElementMatch) (document : DocumentId) (live : Text) (m : Mapping) : Option Span :=
  if found.file.document = document then
    Span.derive? found.file found.range found.nodeKind live m
  else none

theorem shownAt_of_spanIn? {found : ElementMatch} {document : DocumentId} {live : Text} {m : Mapping}
    {s : Span} (h : found.spanIn? document live m = some s) : found.ShownAt document live s := by
  unfold spanIn? at h
  split at h
  · rename_i same
    obtain ⟨g, parsed, liveRange, cut, grammar, identifier, -, hp, -, hc, fitting⟩ :=
      Span.derive_eq_ok_iff.1 (Span.derive?_eq_some_iff.1 h)
    obtain ⟨reads, -, -, rfl, fits⟩ := Span.ofCuts_eq_ok_iff.1 fitting
    simp only [Span.fits, Bool.and_eq_true, decide_eq_true_eq] at fits
    refine ⟨same, ⟨g, grammar, identifier⟩, fits.1, fits.2, ?_⟩
    rw [Snapshot.textOf?, Text.slice?, hp, Option.map_some, (Text.cut?_eq_some_iff.1 hc).1,
      List.append_assoc, List.drop_left, ← reads, List.take_left]
  · cases h

end ElementMatch

namespace Pipeline

theorem complete_sublist (o : Outcome) : o.complete.Sublist o.found := by
  unfold Outcome.complete
  split
  · exact List.Sublist.refl _
  · exact List.nil_sublist _

/-- A search either crashes from outside or comes to a report. -/
theorem find_cases (p : Pipeline) (cancelled : Nat → Bool) (file : Snapshot) (live : Text) (m : Mapping)
    (element : Place) :
    (p.resolver.resolve file element = .error .crash ∧
      p.find cancelled file live m element = .error .crash) ∨
    (p.resolver.resolve file element = .ok none ∧
      p.find cancelled file live m element = .ok (.unresolved element.node)) ∨
    ∃ symbol, p.resolver.resolve file element = .ok (some symbol) ∧
      let outcome := (p.engine ⟨symbol, [file], .all⟩).exec cancelled
      (outcome.ending = .crashed ∧ p.find cancelled file live m element = .error .crash ∨
        outcome.ending ≠ .crashed ∧ p.find cancelled file live m element =
          .ok (.searched symbol outcome (outcome.complete.filterMap (place? file.document live m)))) := by
  cases resolved : p.resolver.resolve file element with
  | error why =>
    cases why
    exact .inl ⟨rfl, by simp only [find, resolved, bind, Except.bind]⟩
  | ok answer =>
    cases answer with
    | none => exact .inr (.inl ⟨rfl, find_of_unresolved resolved⟩)
    | some symbol =>
      refine .inr (.inr ⟨symbol, rfl, ?_⟩)
      rw [find_of_resolved resolved]
      by_cases crashed : ((p.engine ⟨symbol, [file], .all⟩).exec cancelled).ending = .crashed
      · exact .inl ⟨crashed, if_pos crashed⟩
      · exact .inr ⟨crashed, if_neg crashed⟩

/-- The spans of a search are those of the syntax nodes it delivers, as far as they have one. -/
theorem spans_searched (symbol : Symbol) (o : Outcome) (document : DocumentId) (live : Text)
    (m : Mapping) :
    (Report.searched symbol o (o.complete.filterMap (place? document live m))).spans =
      (o.complete.filterMap Match.element?).filterMap (·.spanIn? document live m) := by
  rw [Report.spans, List.filterMap_filterMap, List.filterMap_filterMap]
  apply List.filterMap_congr
  intro found _
  cases found with
  | text => rfl
  | element found =>
    simp only [place?, Match.element?, ElementMatch.spanIn?, Option.bind_some]
    split <;> rfl

/-- What some items give, paired with the items: in their order, and from each item at most once. -/
theorem exists_pairs {α β : Type} (f : α → Option β) (items : List α) :
    ∃ pairs : List (α × β), pairs.map Prod.snd = items.filterMap f ∧
      (pairs.map Prod.fst).Sublist items ∧ ∀ e ∈ pairs, f e.1 = some e.2 := by
  refine ⟨items.filterMap fun a => (f a).map (a, ·), ?_, ?_, ?_⟩
  · simp [List.map_filterMap, Function.comp_def]
  · rw [List.map_filterMap]
    induction items with
    | nil => exact List.Sublist.refl _
    | cons a items ih =>
      cases given : f a with
      | none => simpa [given] using ih.cons a
      | some b => simpa [given] using ih.cons_cons a
  · rintro ⟨a, b⟩ he
    obtain ⟨a', -, given⟩ := List.mem_filterMap.1 he
    obtain ⟨b', given, pair⟩ := Option.map_eq_some_iff.1 given
    cases pair
    exact given

end Pipeline

/-- Spans are sound whatever is reported. Of any resolver and any engine, any parsed file and live text:

* finding occurrences crashes only if the resolver or the engine does;
* each span belongs to a syntax node that was reported, in the order of the reports and to each report at most
  once; the node is an identifier of the file's document, and the live text reads at the span, which has some
  length and lies in the text, as the node's own file does at the range reported;
* to place a reported node, no text is cut off but between two of its characters, and no offset is moved below
  zero. -/
theorem spans_are_sound (p : Pipeline) (cancelled : Nat → Bool) (file : Snapshot) (live : Text)
    (m : Mapping) (element : Place) :
    (p.find cancelled file live m element = .error .crash ↔
      p.resolver.resolve file element = .error .crash ∨
        ∃ symbol, p.resolver.resolve file element = .ok (some symbol) ∧
          ((p.engine ⟨symbol, [file], .all⟩).exec cancelled).ending = .crashed) ∧
    ∀ report, p.find cancelled file live m element = .ok report →
      (∃ placed : List (ElementMatch × Span), placed.map Prod.snd = report.spans ∧
        (placed.map Prod.fst).Sublist report.reported ∧
        ∀ e ∈ placed, e.1.ShownAt file.document live e.2) ∧
      ∀ found ∈ report.reported,
        Span.deriveUnguarded found.file found.range found.nodeKind live m =
          .ok (Span.derive? found.file found.range found.nodeKind live m) := by
  have unguarded (found : ElementMatch) :=
    Span.deriveUnguarded_eq found.file found.range found.nodeKind live m
  rcases p.find_cases cancelled file live m element with
    ⟨resolved, found⟩ | ⟨resolved, found⟩ | ⟨symbol, resolved, ⟨ending, found⟩ | ⟨ending, found⟩⟩
  · rw [found, resolved]
    exact ⟨by simp, nofun⟩
  · rw [found, resolved]
    refine ⟨by simp, ?_⟩
    rintro report ⟨⟩
    exact ⟨⟨[], rfl, List.Sublist.refl _, nofun⟩, nofun⟩
  · rw [found, resolved]
    exact ⟨by simpa using ending, nofun⟩
  · rw [found, resolved]
    refine ⟨by simpa using ending, ?_⟩
    rintro report ⟨⟩
    refine ⟨?_, fun found _ => unguarded found⟩
    rw [Pipeline.spans_searched]
    generalize (p.engine ⟨symbol, [file], .all⟩).exec cancelled = outcome
    obtain ⟨placed, spans, order, given⟩ := Pipeline.exists_pairs
      (·.spanIn? file.document live m) (outcome.complete.filterMap Match.element?)
    exact ⟨placed, spans, order.trans ((Pipeline.complete_sublist outcome).filterMap _),
      fun e he => ElementMatch.shownAt_of_spanIn? (given e he)⟩

/-- A pipeline whose engine reports over the text `x+é+x`: the last `x`, twice; the same range the wrong way
round; a part of the `é`; more than the text; plain text; and a range of another parse of the document, which is
longer. -/
def Pipeline.reportingAnything : Pipeline where
  resolver := .constant (some (.free .value ['x']))
  engine :=
    let file := Snapshot.twoOccurrences
    let longer : Snapshot :=
      { document := 0, language := .javaScript, revision := 1, source := ['x', 'x', 'x', '+', 'é', '+', 'x']
        tree := .node ⟨"program", ⟨0, 8⟩, none⟩ [] }
    .reporting
      [.element ⟨file, ⟨5, 6⟩, "identifier", .reference⟩,
        .element ⟨file, ⟨5, 6⟩, "identifier", .reference⟩,
        .element ⟨file, ⟨6, 5⟩, "identifier", .reference⟩,
        .element ⟨file, ⟨3, 4⟩, "identifier", .reference⟩,
        .element ⟨file, ⟨0, 99⟩, "identifier", .reference⟩,
        .text file ⟨5, 6⟩,
        .element ⟨longer, ⟨7, 8⟩, "identifier", .reference⟩]
      .finish

/-- In `x+éé+x` only the two reports of the last `x` are shown. -/
theorem spans_are_sound_anything :
    let live := ['x', '+', 'é', 'é', '+', 'x']
    ∃ (report : Report) (placed : List (ElementMatch × Span)),
      Pipeline.reportingAnything.find (fun _ => false) .twoOccurrences live
        (.between Snapshot.twoOccurrences.source live) default = .ok report ∧
      placed.map Prod.snd = [⟨5, 1⟩, ⟨5, 1⟩] ∧ (placed.map Prod.fst).Sublist report.reported ∧
      ∀ e ∈ placed, e.1.ShownAt 0 live e.2 := by
  intro live
  have spans : (Pipeline.reportingAnything.find (fun _ => false) .twoOccurrences live
      (.between Snapshot.twoOccurrences.source live) default).map (·.spans) =
        .ok [⟨5, 1⟩, ⟨5, 1⟩] := by decide +kernel
  have sound := (spans_are_sound .reportingAnything (fun _ => false) .twoOccurrences live
    (.between Snapshot.twoOccurrences.source live) default).2
  cases found : Pipeline.reportingAnything.find (fun _ => false) .twoOccurrences live
      (.between Snapshot.twoOccurrences.source live) default with
  | error why =>
    rw [found] at spans
    cases spans
  | ok report =>
    rw [found] at spans
    obtain ⟨⟨placed, shown, order, each⟩, -⟩ := sound report found
    exact ⟨report, placed, rfl, shown.trans (Except.ok.inj spans), order, each⟩

end Highlight
