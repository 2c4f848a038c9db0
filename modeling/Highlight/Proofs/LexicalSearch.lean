import Highlight.Occurrences

/-!
# Searching by lexical scopes

What a search and a selection come to when nothing cancels them. The lexical engine reports the places of the
files that resolve to the symbol searched for and are of a kind asked for, as long as every identifier of the
files ends in its source (`Snapshot.Readable`); otherwise it crashes over the first one that does not
(`Engine.delivered_lexical`). That it looks only at captured places, and of these at the ones that read like
the symbol, loses no occurrence. The spans of a selection are those of its symbol's occurrences
(`Pipeline.spansFor?_lexical`).
-/

namespace Highlight

/-! ## Runs -/

namespace Run

/-- The run crashes on no branch. -/
def Safe : Run → Prop
  | finish => True
  | fail _ => True
  | crash => False
  | report _ rest => rest.Safe
  | poll onCancelled onLive => onCancelled.Safe ∧ onLive.Safe
  | readScopes rest => rest.Safe

/-- The matches of a run that is never cancelled, or how it ends if it does not finish. -/
def delivered : Run → Except Ending (List Match)
  | finish => .ok []
  | fail reason => .error (.failed reason)
  | crash => .error .crashed
  | report found rest => rest.delivered.map (found :: ·)
  | poll _ onLive => onLive.delivered
  | readScopes rest => rest.delivered

theorem Safe.ending_execFrom {run : Run} (h : run.Safe) (history : Nat → Bool) (n : Nat) :
    (execFrom history n run).ending ≠ .crashed := by
  induction run generalizing n with
  | finish => simp [execFrom]
  | fail reason => simp [execFrom]
  | crash => exact h.elim
  | report found rest ih => exact ih h (n + 1)
  | poll onCancelled onLive ihCancelled ihLive =>
    rw [execFrom]
    split
    · exact ihCancelled h.1 (n + 1)
    · exact ihLive h.2 (n + 1)
  | readScopes rest ih => exact ih h (n + 1)

theorem delivered_eq (run : Run) (n : Nat) :
    run.delivered = if (execFrom (fun _ => false) n run).ending = .finished then
      .ok (execFrom (fun _ => false) n run).found
    else .error (execFrom (fun _ => false) n run).ending := by
  induction run generalizing n with
  | finish => rfl
  | fail reason => simp [delivered, execFrom]
  | crash => simp [delivered, execFrom]
  | report found rest ih =>
    show rest.delivered.map (found :: ·) =
      if (execFrom (fun _ => false) (n + 1) rest).ending = .finished then
        .ok (found :: (execFrom (fun _ => false) (n + 1) rest).found)
      else .error (execFrom (fun _ => false) (n + 1) rest).ending
    rw [ih (n + 1)]
    split <;> rfl
  | poll onCancelled onLive _ ih => exact ih (n + 1)
  | readScopes rest ih => exact ih (n + 1)

theorem exec_of_delivered {run : Run} {found : List Match} (h : run.delivered = .ok found) :
    (run.exec fun _ => false).ending = .finished ∧ (run.exec fun _ => false).found = found := by
  rw [delivered_eq run 0] at h
  split at h
  · rename_i finished
    exact ⟨finished, Except.ok.inj h⟩
  · cases h

theorem ending_of_delivered {run : Run} {ending : Ending} (h : run.delivered = .error ending) :
    (run.exec fun _ => false).ending = ending := by
  rw [delivered_eq run 0] at h
  split at h
  · cases h
  · exact Except.error.inj h

/-- A run that is never cancelled leaves its caller with what it delivers. -/
theorem complete_exec (run : Run) :
    (run.exec fun _ => false).complete = run.delivered.toOption.getD [] := by
  rw [delivered_eq run 0]
  unfold Outcome.complete exec
  split
  · rename_i finished
    rw [if_pos finished]
    rfl
  · rename_i unfinished
    rw [if_neg unfinished]
    rfl

end Run

/-! ## Files that can be read -/

/-- A node that declares a name is an identifier. -/
theorem ScopeIndex.isIdentifier_of_crashesAt {g : Grammar} {size : Nat} {parent : Option Node}
    {node : Node} (h : crashesAt g size parent node = true) :
    g.isIdentifier node.kind = true ∧ size < node.range.stop := by
  rw [crashesAt, Bool.and_eq_true, decide_eq_true_eq, Option.isSome_iff_exists] at h
  obtain ⟨outside, declared, h⟩ := h
  obtain ⟨parent, -, h⟩ := Option.bind_eq_some_iff.1 h
  obtain ⟨space, classified, -⟩ := Option.bind_eq_some_iff.1 h
  exact ⟨Grammar.isIdentifier_of_classify classified, outside⟩

namespace Snapshot

/-- Every identifier of the tree ends in the source, so that its name can be read. -/
def Readable (s : Snapshot) : Prop :=
  ∀ p ∈ s.places, s.isIdentifier p = true → p.node.range.stop ≤ Text.byteLength s.source

instance : DecidablePred Readable := fun _ => inferInstanceAs (Decidable (∀ _ ∈ _, _ → _))

variable {s : Snapshot} {g : Grammar} {p : Place}

theorem isIdentifier_eq (grammar : s.grammar = some g) (p : Place) :
    s.isIdentifier p = g.isIdentifier p.node.kind := by
  rw [isIdentifier, grammar, Option.any_some]

theorem Readable.index (h : s.Readable) : s.index = .ok s.scopes := by
  refine if_neg ?_
  rw [Option.any_eq_true]
  rintro ⟨g, grammar, crashes⟩
  obtain ⟨p, hp, crash⟩ := List.any_eq_true.1 crashes
  obtain ⟨identifier, outside⟩ := ScopeIndex.isIdentifier_of_crashesAt crash
  exact Nat.not_lt.2 (h p hp ((isIdentifier_eq grammar p).trans identifier)) outside

end Snapshot

namespace Symbol

variable {s : Snapshot} {p : Place}

/-- With its text in the source and an index where one is needed, a place is resolved. -/
theorem resolve_eq_ok (inside : readsText s p = true → p.node.range.stop ≤ Text.byteLength s.source)
    (index : needsScopes s p = true → s.index = .ok s.scopes) : resolve s p = .ok (lexical? s p) := by
  unfold resolve
  split
  · rename_i outside
    rw [Bool.and_eq_true, decide_eq_true_eq] at outside
    exact absurd outside.2 (Nat.not_lt.2 (inside outside.1))
  · split
    · rename_i needs
      rw [index needs]
      rfl
    · rfl

theorem resolve_of_readable (h : s.Readable) (hp : p ∈ s.places) : resolve s p = .ok (lexical? s p) := by
  refine resolve_eq_ok (fun reads => h p hp ?_) fun _ => h.index
  rw [readsText, Bool.and_eq_true] at reads
  exact reads.1

/-- Where resolving a place does not crash, it gives the symbol of the place. -/
theorem lexical?_of_resolve {symbol : Option Symbol} (h : resolve s p = .ok symbol) :
    lexical? s p = symbol := by
  unfold resolve at h
  split at h
  · cases h
  · split at h
    · cases built : s.index with
      | error failure =>
        rw [built] at h
        cases h
      | ok x =>
        rw [built] at h
        exact Except.ok.inj h
    · exact Except.ok.inj h

end Symbol

/-! ## The lexical engine -/

theorem Grammar.mem_identifiers {g : Grammar} {kind : String} (h : g.isIdentifier kind = true) :
    ∃ space, (kind, space) ∈ g.identifiers := by
  obtain ⟨space, found⟩ := Option.isSome_iff_exists.1 h
  obtain ⟨front, back, split, -⟩ := List.lookup_eq_some_iff.1 found
  rw [split]
  exact ⟨space, List.mem_append_right _ (List.mem_cons_self ..)⟩

/-- The search of every language looks at all its identifiers. -/
theorem Grammar.captures_of_isIdentifier {language : Language} {g : Grammar}
    (grammar : language.grammar = some g) {kind : String} (h : g.isIdentifier kind = true) :
    g.captures.contains kind = true := by
  have all : g.identifiers.all (fun entry => g.captures.contains entry.1) = true := by
    cases language <;> cases grammar <;> decide
  obtain ⟨space, entry⟩ := Grammar.mem_identifiers h
  exact List.all_eq_true.1 all _ entry

/-- And at nothing else. -/
theorem Grammar.isIdentifier_of_captures {language : Language} {g : Grammar}
    (grammar : language.grammar = some g) {kind : String} (h : g.captures.contains kind = true) :
    g.isIdentifier kind = true := by
  have all : g.captures.all g.isIdentifier = true := by
    cases language <;> cases grammar <;> decide
  exact List.all_eq_true.1 all kind (List.contains_iff_mem.1 h)

/-- The query asks for the place: it resolves to the symbol, and its kind is let through. -/
def Query.asksFor (q : Query) (file : Snapshot) (p : Place) : Bool :=
  Symbol.lexical? file p = some q.symbol && q.limit.accepts (Engine.occurrenceKind file p.node.range)

/-- The report of a place. -/
def Engine.elementMatch (file : Snapshot) (p : Place) : Match :=
  .element ⟨file, p.node.range, p.node.kind, occurrenceKind file p.node.range⟩

/-- The matches that answer a query, file by file. -/
def Query.answers (q : Query) : List Match :=
  q.files.flatMap fun file => (file.places.filter (q.asksFor file)).map (Engine.elementMatch file)

theorem Query.asksFor_all (symbol : Symbol) (files : List Snapshot) (file : Snapshot) :
    asksFor ⟨symbol, files, .all⟩ file = fun p => decide (Symbol.lexical? file p = some symbol) :=
  funext fun _ => Bool.and_true _

namespace Engine

variable {q : Query} {file : Snapshot} {g : Grammar} {p : Place}

/-- The captured places of a file that resolve to a symbol. -/
def occurrences (g : Grammar) (file : Snapshot) (symbol : Symbol) : List Place :=
  (captures g file).filter fun p => Symbol.lexical? file p = some symbol

theorem mem_captures (grammar : file.grammar = some g) :
    p ∈ captures g file ↔ p ∈ file.places ∧ file.isIdentifier p = true := by
  rw [captures, List.mem_filter, Snapshot.isIdentifier_eq grammar]
  exact and_congr_right fun _ => ⟨Grammar.isIdentifier_of_captures grammar,
    Grammar.captures_of_isIdentifier grammar⟩

/-! ### Readable files -/

section Readable

variable (readable : file.Readable)

include readable

theorem judge_of_readable (node : Node) (symbol : Option Symbol) (rest : Run) :
    judge q file node symbol rest =
      if symbol = some q.symbol then
        .readScopes
          (if q.limit.accepts (occurrenceKind file node.range) then
            .report (.element ⟨file, node.range, node.kind, occurrenceKind file node.range⟩) rest
          else rest)
      else rest := by
  rw [judge, readable.index]

theorem visit_of_readable (hp : p ∈ file.places) (identifier : file.isIdentifier p = true) (rest : Run) :
    ∃ text, Text.read file.source p.node.range = .ok text ∧
      visit .lexical q file p rest = .poll (.fail .cancelled)
        (if text = some q.symbol.name then
          if Symbol.needsScopes file p then
            .readScopes (judge q file p.node (Symbol.lexical? file p) rest)
          else judge q file p.node (Symbol.lexical? file p) rest
        else rest) := by
  obtain ⟨text, read⟩ := Text.read_eq_ok (readable p hp identifier)
  have resolved : Resolver.lexical.resolve file p = .ok (Symbol.lexical? file p) :=
    Symbol.resolve_of_readable readable hp
  refine ⟨text, read, ?_⟩
  rw [visit, read, resolved]
  rfl

theorem safe_visit (hp : p ∈ file.places) (identifier : file.isIdentifier p = true) {rest : Run}
    (h : rest.Safe) : (visit .lexical q file p rest).Safe := by
  have judged : ∀ symbol, (judge q file p.node symbol rest).Safe := by
    intro symbol
    rw [judge_of_readable readable]
    split
    · simp only [Run.Safe]
      split <;> exact h
    · exact h
  obtain ⟨text, -, visited⟩ := visit_of_readable (q := q) readable hp identifier rest
  rw [visited]
  refine ⟨trivial, ?_⟩
  split
  · split <;> exact judged _
  · exact h

theorem safe_foldr_visit {ps : List Place}
    (hps : ∀ p ∈ ps, p ∈ file.places ∧ file.isIdentifier p = true) {rest : Run} (h : rest.Safe) :
    (ps.foldr (visit .lexical q file) rest).Safe := by
  induction ps with
  | nil => exact h
  | cons p ps ih =>
    obtain ⟨hp, identifier⟩ := hps p (List.mem_cons_self ..)
    exact safe_visit readable hp identifier (ih fun q hq => hps q (List.mem_cons_of_mem _ hq))

theorem safe_searchFile {rest : Run} (h : rest.Safe) : (searchFile .lexical q file rest).Safe := by
  simp only [searchFile, Run.Safe, true_and]
  split
  · trivial
  · rename_i g grammar
    exact safe_foldr_visit readable (fun p => (mem_captures grammar).1) h

/-- The engine reports an identifier if the query asks for it. -/
theorem delivered_visit (hp : p ∈ file.places) (identifier : file.isIdentifier p = true) (rest : Run) :
    (visit .lexical q file p rest).delivered =
      if q.asksFor file p then rest.delivered.map (elementMatch file p :: ·) else rest.delivered := by
  have judged : (judge q file p.node (Symbol.lexical? file p) rest).delivered =
      if q.asksFor file p then rest.delivered.map (elementMatch file p :: ·) else rest.delivered := by
    rw [judge_of_readable readable]
    unfold Query.asksFor
    by_cases resolved : Symbol.lexical? file p = some q.symbol
    · rw [if_pos resolved, Run.delivered]
      by_cases accepted : q.limit.accepts (occurrenceKind file p.node.range) = true
      · simp only [accepted, resolved, decide_true, Bool.and_self, if_true]
        rfl
      · simp [accepted]
    · simp [resolved]
  obtain ⟨text, read, visited⟩ := visit_of_readable (q := q) readable hp identifier rest
  rw [visited, Run.delivered]
  by_cases reads : text = some q.symbol.name
  · rw [if_pos reads, ← judged]
    split <;> rfl
  · -- the name prefilter loses nothing: a place reads like the symbol that it resolves to
    have other : Symbol.lexical? file p ≠ some q.symbol := by
      intro resolved
      have read' := Symbol.read_of_lexical? resolved
      rw [read] at read'
      exact reads (Except.ok.inj read')
    simp [reads, Query.asksFor, other]

theorem delivered_foldr_visit {ps : List Place}
    (hps : ∀ p ∈ ps, p ∈ file.places ∧ file.isIdentifier p = true) (rest : Run) :
    (ps.foldr (visit .lexical q file) rest).delivered =
      rest.delivered.map ((ps.filter (q.asksFor file)).map (elementMatch file) ++ ·) := by
  induction ps with
  | nil =>
    show rest.delivered = rest.delivered.map ([] ++ ·)
    cases rest.delivered <;> rfl
  | cons p ps ih =>
    obtain ⟨hp, identifier⟩ := hps p (List.mem_cons_self ..)
    rw [List.foldr_cons, delivered_visit readable hp identifier,
      ih fun q hq => hps q (List.mem_cons_of_mem _ hq), List.filter_cons]
    by_cases h : q.asksFor file p = true
    · rw [if_pos h, if_pos h]
      cases rest.delivered <;> rfl
    · rw [if_neg h, if_neg h]

end Readable

/-! ### Files that leave their source -/

/-- A crash ahead is not averted. -/
theorem delivered_visit_of_crashed {rest : Run} (h : rest.delivered = .error .crashed) :
    (visit .lexical q file p rest).delivered = .error .crashed := by
  have judged : ∀ symbol, (judge q file p.node symbol rest).delivered = .error .crashed := by
    intro symbol
    unfold judge
    split
    · split
      · rfl
      · rw [Run.delivered]
        split
        · rw [Run.delivered, h]
          rfl
        · exact h
    · exact h
  rw [visit, Run.delivered]
  split
  · rfl
  · split
    · split
      · rfl
      · split
        · exact judged _
        · exact judged _
    · exact h

theorem delivered_foldr_visit_of_outside {ps : List Place} (hp : p ∈ ps)
    (outside : Text.byteLength file.source < p.node.range.stop) (rest : Run) :
    (ps.foldr (visit .lexical q file) rest).delivered = .error .crashed := by
  induction ps with
  | nil => cases hp
  | cons first ps ih =>
    rw [List.foldr_cons]
    rcases List.mem_cons.1 hp with rfl | hp
    · rw [visit, Text.read_eq_crash_iff.2 outside]
      rfl
    · exact delivered_visit_of_crashed (ih hp)

/-! ### Searches -/

/-- The restriction to captured places loses nothing: every identifier is captured. -/
theorem filter_captures (grammar : file.grammar = some g) (q : Query) :
    (captures g file).filter (q.asksFor file) = file.places.filter (q.asksFor file) := by
  rw [captures, List.filter_filter]
  apply List.filter_congr
  intro p _
  cases asked : q.asksFor file p with
  | false => rfl
  | true =>
    rw [Query.asksFor, Bool.and_eq_true, decide_eq_true_eq] at asked
    have identifier := (Symbol.named?_eq_some (Symbol.named?_of_lexical? grammar asked.1)).1
    rw [Grammar.captures_of_isIdentifier grammar identifier, Bool.and_true]

theorem occurrences_eq (grammar : file.grammar = some g) (symbol : Symbol) :
    occurrences g file symbol = file.places.filter fun p => Symbol.lexical? file p = some symbol := by
  have captured := filter_captures grammar ⟨symbol, [], .all⟩
  rwa [Query.asksFor_all] at captured

theorem delivered_searchFile (parsed : file.grammar.isSome = true) (rest : Run) :
    (searchFile .lexical q file rest).delivered =
      if file.Readable then
        rest.delivered.map ((file.places.filter (q.asksFor file)).map (elementMatch file) ++ ·)
      else .error .crashed := by
  obtain ⟨g, grammar⟩ := Option.isSome_iff_exists.1 parsed
  simp only [searchFile, grammar, Run.delivered]
  split
  · rename_i readable
    rw [delivered_foldr_visit readable fun p => (mem_captures grammar).1, filter_captures grammar]
  · rename_i unreadable
    simp only [Snapshot.Readable, Classical.not_forall, Nat.not_le] at unreadable
    obtain ⟨p, hp, identifier, outside⟩ := unreadable
    exact delivered_foldr_visit_of_outside ((mem_captures grammar).2 ⟨hp, identifier⟩) outside rest

/-- A search that is never cancelled delivers the answers to its query, or crashes over a file that cannot be
read. -/
theorem delivered_lexical (parsed : ∀ file ∈ q.files, file.grammar.isSome = true) :
    (lexical q).delivered =
      if ∀ file ∈ q.files, file.Readable then .ok q.answers else .error .crashed := by
  have each : ∀ files : List Snapshot, (∀ file ∈ files, file.grammar.isSome = true) →
      (files.foldr (searchFile .lexical q) .finish).delivered =
        if ∀ file ∈ files, file.Readable then
          .ok (files.flatMap fun file =>
            (file.places.filter (q.asksFor file)).map (elementMatch file))
        else .error .crashed := by
    intro files parsed
    induction files with
    | nil => rfl
    | cons file files ih =>
      rw [List.foldr_cons, delivered_searchFile (parsed file (List.mem_cons_self ..)),
        ih fun later h => parsed later (List.mem_cons_of_mem _ h), List.flatMap_cons]
      simp only [List.forall_mem_cons]
      by_cases first : file.Readable
      · by_cases others : ∀ file ∈ files, file.Readable
        · rw [if_pos first, if_pos others, if_pos ⟨first, others⟩]
          rfl
        · rw [if_pos first, if_neg others, if_neg fun both => others both.2]
          rfl
      · rw [if_neg first, if_neg fun both => first both.1]
  exact each q.files parsed

/-- In one file these are the reports of all occurrences of the symbol. -/
theorem delivered_all (grammar : file.grammar = some g) (readable : file.Readable) (symbol : Symbol) :
    (lexical ⟨symbol, [file], .all⟩).delivered =
      .ok ((occurrences g file symbol).map (elementMatch file)) := by
  rw [delivered_lexical (by simp [grammar]), if_pos (by simpa using readable), Query.answers,
    List.flatMap_singleton, Query.asksFor_all, occurrences_eq grammar]

/-- A search of one parsed file that is not cancelled shows by its end whether the file can be read. -/
theorem readable_of_survived (grammar : file.grammar = some g) {symbol : Symbol}
    (survived : ((lexical ⟨symbol, [file], .all⟩).exec fun _ => false).ending ≠ .crashed) :
    file.Readable := by
  apply Decidable.byContradiction
  intro unreadable
  refine survived (Run.ending_of_delivered ?_)
  rw [delivered_lexical (by simp [grammar]), if_neg (by simpa using unreadable)]

theorem safe_lexical (readable : ∀ file ∈ q.files, file.Readable) : (lexical q).Safe := by
  have each : ∀ files : List Snapshot, (∀ file ∈ files, file.Readable) →
      (files.foldr (searchFile .lexical q) .finish).Safe := by
    intro files readable
    induction files with
    | nil => trivial
    | cons file files ih =>
      exact safe_searchFile (readable file (List.mem_cons_self ..))
        (ih fun later h => readable later (List.mem_cons_of_mem _ h))
  exact each q.files readable

end Engine

/-! ## Selections -/

theorem Snapshot.identifierAt?_eq_some {file : Snapshot} {g : Grammar} {p : Place}
    (grammar : file.grammar = some g) {b : Nat} (h : file.identifierAt? b = some p) :
    p ∈ file.places ∧ g.isIdentifier p.node.kind = true ∧ p.node.range.contains b = true := by
  simp only [identifierAt?, grammar, Option.bind_eq_bind, Option.bind_some] at h
  split at h
  · obtain ⟨deepest, hd, h⟩ := Option.bind_eq_some_iff.1 h
    split at h
    · rename_i fits
      cases h
      rw [Bool.and_eq_true] at fits
      refine ⟨?_, fits⟩
      unfold Place.deepestAt? at hd
      rcases Option.or_eq_some_iff.1 hd with found | ⟨-, first⟩
      · rw [List.findRev?_eq_find?_reverse] at found
        exact List.mem_reverse.1 (List.mem_of_find?_eq_some found)
      · exact List.mem_of_head? first
    · cases h
  · cases h

theorem Snapshot.identifierAt?_of_no_grammar {file : Snapshot} (plain : file.grammar = none) (b : Nat) :
    file.identifierAt? b = none := by
  simp [identifierAt?, plain]

/-- What a selection picks stands at some byte of the file. -/
theorem identifierAt?_of_elementAt {file : Snapshot} {live : Text} {m : Mapping} {offset length : Nat}
    {mode : SelectionMode} {p : Place} (h : elementAt file live m offset length mode = .ok p) :
    ∃ byte, file.identifierAt? byte = some p := by
  unfold elementAt at h
  split at h
  · cases h
  · rename_i start _
    split at h
    · cases h
    · rename_i element found
      have picked : element = p := by
        split at h
        · cases h
        · split at h
          · split at h
            · cases h
            · split at h
              · cases h
              · exact Except.ok.inj h
          · exact Except.ok.inj h
      exact ⟨start, picked ▸ found⟩

/-- Only places of the file are picked. -/
theorem mem_places_of_elementAt {file : Snapshot} {live : Text} {m : Mapping} {offset length : Nat}
    {mode : SelectionMode} {p : Place} (h : elementAt file live m offset length mode = .ok p) :
    p ∈ file.places := by
  obtain ⟨byte, found⟩ := identifierAt?_of_elementAt h
  cases grammar : file.grammar with
  | none =>
    rw [Snapshot.identifierAt?_of_no_grammar grammar] at found
    cases found
  | some g => exact (Snapshot.identifierAt?_eq_some grammar found).1

/-- In a language without symbols nothing is picked. -/
theorem elementAt_of_unsupported {file : Snapshot} (h : file.language.supportsOccurrences = false)
    (live : Text) (m : Mapping) (offset length : Nat) (mode : SelectionMode) (p : Place) :
    elementAt file live m offset length mode ≠ .ok p := by
  intro picked
  have plain : file.grammar = none := by
    unfold Snapshot.grammar
    cases hl : file.language <;> simp_all [Language.supportsOccurrences, Language.grammar]
  obtain ⟨byte, found⟩ := identifierAt?_of_elementAt picked
  rw [Snapshot.identifierAt?_of_no_grammar plain] at found
  cases found

namespace Pipeline

/-- The spans for a selection with a token that is never cancelled; none where it picks no identifier. -/
def spansFor? (p : Pipeline) (file : Snapshot) (live : Text) (mode : SelectionMode)
    (offset length : Nat) : Option (List Span) :=
  match p.select (fun _ => false) file live offset length mode with
  | .ok selected => selected.spans?
  | .error .crash => none

/-- Neither the resolver nor the engine crashes over the file. -/
structure CrashFree (p : Pipeline) (file : Snapshot) : Prop where
  resolver : ∀ element ∈ file.places, p.resolver.resolve file element ≠ .error .crash
  engine : ∀ symbol history, ((p.engine ⟨symbol, [file], .all⟩).exec history).ending ≠ .crashed

variable {p : Pipeline} {file : Snapshot} {live : Text} {mode : SelectionMode} {offset length : Nat}

theorem find_of_unresolved {history : Nat → Bool} {m : Mapping} {element : Place}
    (resolved : p.resolver.resolve file element = .ok none) :
    p.find history file live m element = .ok (.unresolved element.node) := by
  simp only [find, resolved, bind, Except.bind, pure, Except.pure]

/-- The search for the symbol of an element that the resolver gives one. -/
theorem find_of_resolved {history : Nat → Bool} {m : Mapping} {element : Place} {symbol : Symbol}
    (resolved : p.resolver.resolve file element = .ok (some symbol)) :
    p.find history file live m element =
      let outcome := (p.engine ⟨symbol, [file], .all⟩).exec history
      if outcome.ending = .crashed then .error .crash
      else .ok (.searched symbol outcome (outcome.complete.filterMap (place? file.document live m))) := by
  simp only [find, resolved, bind, Except.bind, pure, Except.pure]

theorem CrashFree.find_of_resolved (h : p.CrashFree file) (history : Nat → Bool) (live : Text)
    (m : Mapping) {element : Place} {symbol : Symbol}
    (resolved : p.resolver.resolve file element = .ok (some symbol)) :
    p.find history file live m element =
      .ok (.searched symbol ((p.engine ⟨symbol, [file], .all⟩).exec history)
        (((p.engine ⟨symbol, [file], .all⟩).exec history).complete.filterMap
          (place? file.document live m))) :=
  (Pipeline.find_of_resolved resolved).trans (if_neg (h.engine symbol history))

theorem CrashFree.find_eq_ok (h : p.CrashFree file) (history : Nat → Bool) (live : Text)
    (m : Mapping) {element : Place} (place : element ∈ file.places) :
    ∃ report, p.find history file live m element = .ok report := by
  cases hr : p.resolver.resolve file element with
  | error failure => exact absurd hr (h.resolver element place)
  | ok symbol =>
    cases symbol with
    | none => exact ⟨.unresolved element.node, find_of_unresolved hr⟩
    | some symbol => exact ⟨_, h.find_of_resolved history live m hr⟩

theorem crashFree_lexical (readable : file.Readable) : lexical.CrashFree file where
  resolver element place crash := by
    have resolved : lexical.resolver.resolve file element = .ok (Symbol.lexical? file element) :=
      Symbol.resolve_of_readable readable place
    rw [resolved] at crash
    cases crash
  engine symbol history := by
    have safe : (Engine.lexical ⟨symbol, [file], .all⟩).Safe :=
      Engine.safe_lexical fun f hf => List.mem_singleton.1 hf ▸ readable
    exact safe.ending_execFrom history 0

theorem spansFor?_of_miss {why : Miss}
    (h : elementAt file live (.between file.source live) offset length mode = .error why) :
    p.spansFor? file live mode offset length = none := by
  simp only [spansFor?, select, h]
  rfl

theorem spansFor?_of_element {element : Place} {report : Report}
    (h : elementAt file live (.between file.source live) offset length mode = .ok element)
    (found : p.find (fun _ => false) file live (.between file.source live) element = .ok report) :
    p.spansFor? file live mode offset length = some report.spans := by
  simp only [spansFor?, select, h, found]
  rfl

theorem CrashFree.spansFor?_isSome (c : p.CrashFree file) {element : Place}
    (h : elementAt file live (.between file.source live) offset length mode = .ok element) :
    (p.spansFor? file live mode offset length).isSome = true := by
  obtain ⟨report, found⟩ :=
    c.find_eq_ok (fun _ => false) live (.between file.source live) (mem_places_of_elementAt h)
  rw [spansFor?_of_element h found]
  rfl

/-- Without a crash the spans for a selection are what came of it. -/
theorem CrashFree.spans?_select (c : p.CrashFree file) (live : Text) (mode : SelectionMode)
    (offset length : Nat) :
    (p.select (fun _ => false) file live offset length mode).map (·.spans?) =
      .ok (p.spansFor? file live mode offset length) := by
  cases picked : elementAt file live (.between file.source live) offset length mode with
  | error why =>
    rw [spansFor?_of_miss picked]
    simp only [select, picked]
    rfl
  | ok element =>
    obtain ⟨report, found⟩ :=
      c.find_eq_ok (fun _ => false) live (.between file.source live) (mem_places_of_elementAt picked)
    rw [spansFor?_of_element picked found]
    simp only [select, picked, found]
    rfl

/-- A selection that begins at no identifier has no spans. -/
theorem spansFor?_of_no_identifier
    (h : (parsedByte? live (.between file.source live) offset).bind file.identifierAt? = none) :
    p.spansFor? file live mode offset length = none := by
  cases hp : parsedByte? live (.between file.source live) offset with
  | none =>
    have miss : elementAt file live (.between file.source live) offset length mode =
        .error .startUnmapped := by simp only [elementAt, hp]
    exact spansFor?_of_miss miss
  | some start =>
    rw [hp, Option.bind_some] at h
    have miss : elementAt file live (.between file.source live) offset length mode =
        .error .noIdentifier := by simp only [elementAt, hp, h]
    exact spansFor?_of_miss miss

/-- The spans in the live text of the occurrences of a symbol. -/
def spansOf (g : Grammar) (file : Snapshot) (live : Text) (symbol : Symbol) : List Span :=
  (Engine.occurrences g file symbol).filterMap fun p =>
    Span.derive? file p.node.range p.node.kind live (.between file.source live)

theorem spans_occurrences (g : Grammar) (file : Snapshot) (live : Text) (symbol : Symbol) :
    (((Engine.occurrences g file symbol).map (Engine.elementMatch file)).filterMap
      (place? file.document live (.between file.source live))).filterMap (·.2.toOption) =
      spansOf g file live symbol := by
  rw [List.filterMap_map, List.filterMap_filterMap, spansOf]
  congr 2
  funext p
  simp [Function.comp, place?, Engine.elementMatch, Span.derive?]

section Found

variable {history : Nat → Bool} {m : Mapping} {element : Place} {report : Report}
  (h : lexical.find history file live m element = .ok report)

include h

theorem resolve_of_find : Symbol.resolve file element = .ok (Symbol.lexical? file element) := by
  cases answer : Symbol.resolve file element with
  | error failure =>
    have crash : lexical.resolver.resolve file element = .error failure := answer
    simp only [find, crash, bind, Except.bind, reduceCtorEq] at h
  | ok symbol => rw [Symbol.lexical?_of_resolve answer]

/-- Nothing is found for an element that names no symbol. -/
theorem spans_of_unresolved (none : Symbol.lexical? file element = none) : report.spans = [] := by
  have resolved := resolve_of_find h
  rw [none] at resolved
  rw [find_of_unresolved (p := lexical) resolved] at h
  cases h
  rfl

/-- The search for the symbol of an element has not crashed. -/
theorem searched_of_find {symbol : Symbol} (some : Symbol.lexical? file element = some symbol) :
    ((Engine.lexical ⟨symbol, [file], .all⟩).exec history).ending ≠ .crashed ∧
      report.spans = (((Engine.lexical ⟨symbol, [file], .all⟩).exec history).complete.filterMap
        (place? file.document live m)).filterMap (·.2.toOption) := by
  have resolved := resolve_of_find h
  rw [some] at resolved
  rw [find_of_resolved (p := lexical) resolved] at h
  dsimp only at h
  split at h
  · cases h
  · rename_i survived
    cases h
    exact ⟨survived, rfl⟩

end Found

/-- If the search for an element of a parsed file is neither cancelled nor crashes, all of the file can be
read. -/
theorem readable_of_find {g : Grammar} (grammar : file.grammar = some g) {m : Mapping}
    {element : Place} {report : Report}
    (h : lexical.find (fun _ => false) file live m element = .ok report) {symbol : Symbol}
    (resolved : Symbol.lexical? file element = some symbol) : file.Readable :=
  Engine.readable_of_survived grammar (searched_of_find h resolved).1

/-- A selection of an element that names a symbol has the spans of that symbol's occurrences. -/
theorem spansFor?_lexical {g : Grammar} (grammar : file.grammar = some g) (readable : file.Readable)
    {element : Place} {symbol : Symbol}
    (h : elementAt file live (.between file.source live) offset length mode = .ok element)
    (resolved : Symbol.lexical? file element = some symbol) :
    lexical.spansFor? file live mode offset length = some (spansOf g file live symbol) := by
  obtain ⟨report, found⟩ := (crashFree_lexical readable).find_eq_ok (fun _ => false) live
    (.between file.source live) (mem_places_of_elementAt h)
  rw [spansFor?_of_element h found, (searched_of_find found resolved).2, Run.complete_exec,
    Engine.delivered_all grammar readable]
  exact congrArg some (spans_occurrences g file live symbol)

/-- A selection that has spans picks an element, and the search for it did not crash. -/
theorem find_of_spansFor? {spans : List Span}
    (h : p.spansFor? file live mode offset length = some spans) :
    ∃ element report,
      elementAt file live (.between file.source live) offset length mode = .ok element ∧
      p.find (fun _ => false) file live (.between file.source live) element = .ok report ∧
      spans = report.spans := by
  cases picked : elementAt file live (.between file.source live) offset length mode with
  | error why =>
    rw [spansFor?_of_miss picked] at h
    cases h
  | ok element =>
    cases found : p.find (fun _ => false) file live (.between file.source live) element with
    | error failure =>
      simp only [spansFor?, select, picked, found] at h
      cases h
    | ok report =>
      rw [spansFor?_of_element picked found] at h
      exact ⟨element, report, rfl, found, (Option.some.inj h).symm⟩

end Pipeline

end Highlight
