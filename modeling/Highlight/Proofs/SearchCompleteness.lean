import Highlight.Proofs.LexicalSearch
import Highlight.Proofs.Renaming
import Highlight.Proofs.StructuralResolution

/-!
# What a search finds

A search by lexical scopes that is never cancelled ends well exactly if every identifier of the files ends in
its source; it crashes otherwise. Then it finds exactly the nodes that resolve to the symbol and are of a kind
asked for, file by file and each file in pre-order (`search_is_exact`). Nothing else is asked of the trees. So
declarations and references together are all occurrences, in their order, and a symbol that a document declares
is found in no other document.
-/

namespace Highlight

namespace Match

def file : Match → Snapshot
  | element found => found.file
  | text file _ => file

def declares : Match → Bool
  | element found => found.kind == .declaration
  | text _ _ => false

end Match

theorem Language.grammar_isSome {language : Language} (h : language ∈ parsed) :
    language.grammar.isSome = true := by
  revert language
  decide

namespace Engine

theorem occurrenceKind_eq_declaration_iff {file : Snapshot} {range : ByteRange} :
    occurrenceKind file range = .declaration ↔
      ∃ d, file.scopes.declarationAt? range.start = some d ∧ d.range = range := by
  unfold occurrenceKind
  split
  · rename_i d found
    rw [found]
    by_cases same : d.range = range <;> simp [same]
  · rename_i none
    simp [none]

theorem declares_elementMatch (file : Snapshot) (p : Place) :
    (elementMatch file p).declares = (occurrenceKind file p.node.range == .declaration) := rfl

end Engine

namespace Query

/-- A limit keeps those of all answers that it lets through. -/
theorem answers_eq_filter (symbol : Symbol) (files : List Snapshot) {limit : Limit}
    {keep : Match → Bool} (h : ∀ file p, keep (Engine.elementMatch file p) =
      limit.accepts (Engine.occurrenceKind file p.node.range)) :
    answers ⟨symbol, files, limit⟩ = (answers ⟨symbol, files, .all⟩).filter keep := by
  unfold answers
  rw [List.filter_flatMap]
  congr 1
  funext file
  rw [List.filter_map, List.filter_filter, asksFor_all]
  congr 2
  funext p
  rw [Function.comp_apply, h, asksFor, Bool.and_comm]

theorem mem_answers {q : Query} {m : Match} :
    m ∈ q.answers ↔ ∃ file ∈ q.files, ∃ p ∈ file.places, q.asksFor file p = true ∧
      Engine.elementMatch file p = m := by
  simp only [answers, List.mem_flatMap, List.mem_map, List.mem_filter, and_assoc]

end Query

/-- Only a file of the document that declares a symbol has places which resolve to it. -/
theorem Symbol.document_of_lexical? {file : Snapshot} {p : Place} {document : DocumentId}
    {space : Namespace} {name : Text} {declaration : ByteRange}
    (h : lexical? file p = some (bound document space name declaration)) :
    file.document = document := by
  cases grammar : file.grammar with
  | none => simp [lexical?, grammar] at h
  | some g =>
    rw [lexical?_eq grammar, resolveIn?, Option.map_eq_some_iff] at h
    obtain ⟨⟨space', name'⟩, -, resolved⟩ := h
    dsimp only at resolved
    split at resolved
    · cases resolved
    · split at resolved
      · cases resolved
        rfl
      · cases resolved

/-- A search is exact. In files of parsed languages, whatever their trees, the search for a symbol that is
never cancelled crashes if some identifier of the files ends behind its source, where its name cannot be read.
Otherwise it succeeds, and each place of the files is resolved without a crash. It finds the nodes that resolve
to the symbol and are let through by the limit, in the order of the files and in pre-order. A node declares if a
declaration stands exactly where it stands. Declarations and references divide all occurrences, and a declared
symbol is found in its own document only. -/
theorem search_is_exact (symbol : Symbol) {files : List Snapshot}
    (parsed : ∀ file ∈ files, file.language ∈ Language.parsed) :
    let search limit := (Engine.lexical ⟨symbol, files, limit⟩).exec fun _ => false
    (∀ limit, (search limit).ending =
      if ∀ file ∈ files, file.Readable then .finished else .crashed) ∧
    (∀ file range, Engine.occurrenceKind file range = .declaration ↔
      ∃ d, file.scopes.declarationAt? range.start = some d ∧ d.range = range) ∧
    ((∀ file ∈ files, file.Readable) →
      (∀ limit, (search limit).found = files.flatMap fun file =>
        (file.tree.places.filter fun p => Resolver.lexical.resolve file p = .ok (some symbol) ∧
          limit.accepts (Engine.occurrenceKind file p.node.range) = true).map
            (Engine.elementMatch file)) ∧
      (∀ file ∈ files, file.index = .ok file.scopes ∧
        ∀ p ∈ file.tree.places, Resolver.lexical.resolve file p = .ok (Symbol.lexical? file p)) ∧
      (search .declarations).found = (search .all).found.filter (·.declares) ∧
      (search .references).found = (search .all).found.filter (!·.declares) ∧
      ∀ document space name declaration, symbol = .bound document space name declaration →
        ∀ limit, ∀ m ∈ (search limit).found, m.file.document = document) := by
  intro search
  have grammars : ∀ file ∈ files, file.grammar.isSome = true :=
    fun file h => Language.grammar_isSome (parsed file h)
  have delivered : ∀ limit, (Engine.lexical ⟨symbol, files, limit⟩).delivered =
      if ∀ file ∈ files, file.Readable then .ok (Query.answers ⟨symbol, files, limit⟩)
      else .error .crashed := fun limit => Engine.delivered_lexical grammars
  refine ⟨?_, fun _ _ => Engine.occurrenceKind_eq_declaration_iff, ?_⟩
  · intro limit
    split
    · rename_i readable
      exact (Run.exec_of_delivered ((delivered limit).trans (if_pos readable))).1
    · rename_i unreadable
      exact Run.ending_of_delivered ((delivered limit).trans (if_neg unreadable))
  · intro readable
    have found : ∀ limit, (search limit).found = Query.answers ⟨symbol, files, limit⟩ :=
      fun limit => (Run.exec_of_delivered ((delivered limit).trans (if_pos readable))).2
    have resolved : ∀ file ∈ files, ∀ p ∈ file.tree.places,
        Resolver.lexical.resolve file p = .ok (Symbol.lexical? file p) := fun file hf p hp =>
      Symbol.resolve_of_readable (readable file hf) (file.places_eq ▸ hp)
    refine ⟨?_, fun file hf => ⟨(readable file hf).index, resolved file hf⟩, ?_, ?_, ?_⟩
    · intro limit
      rw [found, Query.answers]
      apply List.flatMap_congr
      intro file hf
      rw [file.places_eq]
      congr 1
      apply List.filter_congr
      intro p hp
      simp [Query.asksFor, resolved file hf p hp]
    · rw [found, found]
      exact Query.answers_eq_filter symbol files Engine.declares_elementMatch
    · rw [found, found]
      apply Query.answers_eq_filter
      intro file p
      rw [Engine.declares_elementMatch]
      cases Engine.occurrenceKind file p.node.range <;> rfl
    · rintro document space name declaration rfl limit m hm
      rw [found] at hm
      obtain ⟨file, -, p, -, asked, rfl⟩ := Query.mem_answers.1 hm
      rw [Query.asksFor, Bool.and_eq_true, decide_eq_true_eq] at asked
      exact Symbol.document_of_lexical? asked.1

/-- A parse of the text `let a;{a;let a;a}` as some document. -/
def Snapshot.hidingIn (document : DocumentId) : Snapshot := { Snapshot.hiding with document }

/-- The outer name is found where it is declared and in front of the inner one, and not in a second document
of the same text. -/
theorem search_is_exact_hiding :
    let files := [Snapshot.hidingIn 0, Snapshot.hidingIn 1]
    let search limit := (Engine.lexical ⟨.bound 0 .value ['a'] ⟨4, 5⟩, files, limit⟩).exec fun _ => false
    (∀ file ∈ files, file.language ∈ Language.parsed) ∧ (search .all).ending = .finished ∧
      (search .all).found.map (fun m => (m.file.document, m.declares)) = [(0, true), (0, false)] ∧
      (search .references).found.map (fun m => (m.file.document, m.declares)) = [(0, false)] := by
  intro files search
  have parsed : ∀ file ∈ files, file.language ∈ Language.parsed := by
    intro file h
    rcases List.mem_cons.1 h with rfl | h
    · decide
    · cases List.mem_singleton.1 h
      decide
  obtain ⟨endings, -, exact⟩ := search_is_exact (.bound 0 .value ['a'] ⟨4, 5⟩) parsed
  have readable : ∀ file ∈ files, file.Readable := by decide
  obtain ⟨found, -⟩ := exact readable
  refine ⟨parsed, (endings .all).trans (if_pos readable), ?_, ?_⟩
  · rw [found .all]
    decide +kernel
  · rw [found .references]
    decide +kernel

end Highlight
