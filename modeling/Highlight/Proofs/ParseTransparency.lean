import Highlight.Parse.Cache
import Highlight.Proofs.EditSplice

/-!
# The parse cache is transparent

A parser that starts from an older tree has the edit since then marked in it, and it is trusted only as far as
`Parser.Incremental` goes: from the tree of the older text with a correct edit in it the parser comes to the
tree of the new text, or it fails. Then no answer shows whether there is a cache (`ParseCache.parse_eq`).

The reason is that between two calls every entry holds the tree which its own text is given
(`ParseCache.Faithful`). During a call the entry of the document does not: it has its old text and a tree on
the way to the new one. Such an entry is replaced (`Table.insert_insert`) or dropped (`Table.erase_insert`)
before the call ends, and a text in another language or one that is not parsed leaves the entry untouched.
-/

namespace Highlight

/-- From the tree of an older text, with an edit in it that leads to the new text, the parser comes to the
tree that it gives the new text by itself, or it fails. -/
def Parser.Incremental (parser : Parser) (editing : TreeEditing) : Prop :=
  ∀ (language : Language) (old new : Text) (tree : Tree) (edit : Edit),
    parser language old none = some tree → edit.Splices old new →
      parser language new (some (editing tree edit)) = none ∨
        parser language new (some (editing tree edit)) = parser language new none

namespace Table

variable {κ ν : Type} [DecidableEq κ]

theorem mem_of_mem_put {k : κ} {v : ν} {es : List (κ × ν)} {e : κ × ν} (h : e ∈ put k v es) :
    e = (k, v) ∨ e ∈ es := by
  induction es with
  | nil => simpa [put] using h
  | cons d es ih =>
    rw [put] at h
    split at h
    · rcases List.mem_cons.1 h with h | h
      · exact .inl h
      · exact .inr (List.mem_cons_of_mem _ h)
    · rcases List.mem_cons.1 h with rfl | h
      · exact .inr List.mem_cons_self
      · exact (ih h).imp_right (List.mem_cons_of_mem _)

theorem mem_of_get? {t : Table κ ν} {k : κ} {v : ν} (h : t.get? k = some v) : (k, v) ∈ t.entries := by
  obtain ⟨front, back, whole, -⟩ := List.lookup_eq_some_iff.1 h
  rw [whole]
  exact List.mem_append_right _ List.mem_cons_self

theorem put_put (k : κ) (v w : ν) (es : List (κ × ν)) : put k w (put k v es) = put k w es := by
  induction es with
  | nil => simp [put]
  | cons e es ih =>
    by_cases here : e.1 = k
    · simp [put, here]
    · simp [put, here, ih]

theorem filter_put (k : κ) (v : ν) (es : List (κ × ν)) :
    (put k v es).filter (·.1 ≠ k) = es.filter (·.1 ≠ k) := by
  induction es with
  | nil => simp [put]
  | cons e es ih =>
    by_cases here : e.1 = k
    · simp [put, here]
    · rw [put, if_neg here, List.filter_cons, List.filter_cons, ih]

/-- What was put under a key is forgotten when something else is put there. -/
theorem insert_insert (t : Table κ ν) (k : κ) (v w : ν) : (t.insert k v).insert k w = t.insert k w :=
  congrArg Table.mk (put_put k v w t.entries)

/-- And when the key is erased. -/
theorem erase_insert (t : Table κ ν) (k : κ) (v : ν) : (t.insert k v).erase k = t.erase k :=
  congrArg Table.mk (filter_put k v t.entries)

end Table

namespace ParseRequest

/-- The answer of a parser that keeps nothing. -/
def plainAnswer (q : ParseRequest) (parser : Parser) : Option Snapshot :=
  if q.language = .plainText then none else (parser q.language q.source none).map q.snapshot

end ParseRequest

namespace ParseCache

/-- Every entry holds the tree that its text is given without a cache. -/
def Faithful (c : ParseCache) (parser : Parser) : Prop :=
  ∀ e ∈ c.entries.entries, parser e.2.language e.2.source none = some e.2.tree

variable {c : ParseCache} {parser : Parser} {editing : TreeEditing} {q : ParseRequest}

theorem faithful_empty (parser : Parser) : Faithful {} parser := nofun

theorem Faithful.clear (h : c.Faithful parser) (document : DocumentId) :
    (c.clear document).Faithful parser :=
  fun e he => h e (List.mem_filter.1 he).1

theorem Faithful.keep (h : c.Faithful parser) {tree : Tree}
    (parsed : parser q.language q.source none = some tree) (events : List Event) :
    (c.keep q tree events).cache.Faithful parser := by
  intro e he
  rcases Table.mem_of_mem_put he with rfl | he
  · exact parsed
  · exact h e he

/-- What is asked of the result of a request. -/
structure Transparent (parser : Parser) (q : ParseRequest) (r : ParseResult) : Prop where
  snapshot : r.snapshot = (parser q.language q.source none).map q.snapshot
  faithful : r.cache.Faithful parser

theorem Faithful.parseFull (h : c.Faithful parser) (events : List Event) (failure : Event) :
    Transparent parser q (c.parseFull parser q events failure) := by
  unfold ParseCache.parseFull
  split
  · rename_i tree parsed
    exact ⟨by rw [parsed]; rfl, h.keep parsed events⟩
  · rename_i failed
    exact ⟨by rw [failed]; rfl, h⟩

theorem Faithful.reparse (incremental : parser.Incremental editing) (h : c.Faithful parser)
    {old : CachedParse} (cached : parser q.language old.source none = some old.tree) {edit : Edit}
    (splices : edit.Splices old.source q.source) :
    Transparent parser q (c.reparse parser q old edit editing) := by
  have trusted := incremental q.language old.source q.source old.tree edit cached splices
  unfold ParseCache.reparse
  dsimp only
  split
  · rename_i tree parsed
    rw [parsed] at trusted
    have full : parser q.language q.source none = some tree := by
      rcases trusted with nothing | same
      · cases nothing
      · exact same.symm
    refine ⟨by rw [full]; rfl, ?_⟩
    -- the edited entry is replaced by the new one
    have replaced := h.keep full [Event.reparsed edit.start edit.oldEnd edit.newEnd]
    rw [ParseCache.keep, Table.insert_insert]
    exact replaced
  · -- the edited entry has gone before the text is parsed without it
    rw [Table.erase_insert]
    exact Faithful.parseFull (h.clear q.document) _ _

/-- A request is answered as without a cache, and the cache stays faithful. -/
theorem parse_eq (incremental : parser.Incremental editing) (h : c.Faithful parser) (q : ParseRequest) :
    (c.parse parser q editing).snapshot = q.plainAnswer parser ∧
      (c.parse parser q editing).cache.Faithful parser := by
  unfold ParseCache.parse ParseRequest.plainAnswer
  by_cases plain : q.language = .plainText
  · rw [if_pos plain, if_pos plain]
    exact ⟨rfl, h⟩
  · rw [if_neg plain, if_neg plain]
    suffices done : Transparent parser q _ from ⟨done.snapshot, done.faithful⟩
    split
    · exact h.parseFull _ _
    · rename_i old found
      have cached := h _ (Table.mem_of_get? found)
      dsimp only at cached
      split
      · rename_i language
        rw [language] at cached
        split
        · rename_i edit between
          exact h.reparse incremental cached (Edit.between_splices between)
        · rename_i unchanged
          rw [Edit.between_eq_none_iff] at unchanged
          rw [unchanged] at cached
          exact ⟨by rw [cached]; rfl, h⟩
      · exact h.parseFull _ _

end ParseCache

/-! ## Calls -/

/-- A call of a parser state. -/
inductive ParseCall where
  | parse (document : DocumentId) (source : Text) (language : Language) (revision : Nat)
  /-- Parse a document, which need not have a number. -/
  | parseDocument (document : Document)
  | clear (document : DocumentId)

namespace ParseCache

/-- The answer to a call, and the cache after it. -/
def call (c : ParseCache) (parser : Parser) (editing : TreeEditing) :
    ParseCall → Option Snapshot × ParseCache
  | .parse document source language revision =>
    let r := c.parse parser { document, source, language, revision } editing
    (r.snapshot, r.cache)
  | .parseDocument document =>
    let r := c.parse parser (.ofDocument document) editing
    (r.snapshot, r.cache)
  | .clear document => (none, c.clear document)

/-- The cache after some calls. -/
def run (c : ParseCache) (parser : Parser) (editing : TreeEditing) (calls : List ParseCall) :
    ParseCache :=
  calls.foldl (fun c call => (c.call parser editing call).2) c

variable {c : ParseCache} {parser : Parser} {editing : TreeEditing}

theorem Faithful.call (incremental : parser.Incremental editing) (h : c.Faithful parser)
    (call : ParseCall) : (c.call parser editing call).2.Faithful parser := by
  cases call with
  | parse => exact (parse_eq incremental h _).2
  | parseDocument => exact (parse_eq incremental h _).2
  | clear document => exact h.clear document

theorem Faithful.run (incremental : parser.Incremental editing) (h : c.Faithful parser)
    (calls : List ParseCall) : (c.run parser editing calls).Faithful parser := by
  induction calls generalizing c with
  | nil => exact h
  | cons call calls ih => exact ih (h.call incremental call)

/-- Two faithful caches answer alike. -/
theorem Faithful.call_eq (incremental : parser.Incremental editing) {c' : ParseCache}
    (h : c.Faithful parser) (h' : c'.Faithful parser) (call : ParseCall) :
    (c.call parser editing call).1 = (c'.call parser editing call).1 := by
  cases call with
  | parse => exact (parse_eq incremental h _).1.trans (parse_eq incremental h' _).1.symm
  | parseDocument => exact (parse_eq incremental h _).1.trans (parse_eq incremental h' _).1.symm
  | clear => rfl

end ParseCache

/-- The parse cache is transparent. Whatever calls came before, with any documents, languages and texts, every
call is answered as if it were the first one, and after it every entry of the cache holds the tree that a
parse of its text in its language gives. -/
theorem parse_cache_transparent {parser : Parser} {editing : TreeEditing}
    (incremental : parser.Incremental editing) (calls : List ParseCall) (call : ParseCall) :
    let c := ({} : ParseCache).run parser editing calls
    (c.call parser editing call).1 = (({} : ParseCache).call parser editing call).1 ∧
      ∀ e ∈ (c.call parser editing call).2.entries.entries,
        parser e.2.language e.2.source none = some e.2.tree := by
  intro c
  have empty := ParseCache.faithful_empty parser
  have faithful : c.Faithful parser := empty.run incremental calls
  exact ⟨faithful.call_eq incremental empty call, faithful.call incremental call⟩

/-- The tree of a text that is one name. -/
def Tree.ofName (bytes : Nat) : Tree :=
  .node ⟨"program", ⟨0, bytes⟩, none⟩
    [.node ⟨"expression_statement", ⟨0, bytes⟩, none⟩ [.node ⟨"identifier", ⟨0, bytes⟩, none⟩ []]]

/-- To mark an edit in the tree of a name is to give the name its new length. -/
def Tree.resizeName : TreeEditing := fun tree edit =>
  .ofName (tree.label.range.stop - edit.oldEnd + edit.newEnd)

/-- A parser of texts that are one of two names. To the first of them it does not come from an older tree. -/
def Parser.twoNames : Parser := fun language source older =>
  if language = .typeScript ∧ (source = ['日', '本'] ∧ older.isNone ∨ source = ['日', '木']) then
    some (.ofName (Text.byteLength source))
  else none

theorem Parser.twoNames_incremental : Parser.twoNames.Incremental Tree.resizeName := by
  intro language old new tree edit _ _
  by_cases second : new = ['日', '木']
  · exact .inr (by simp [Parser.twoNames, second])
  · refine .inl (if_neg ?_)
    rintro ⟨-, ⟨-, fresh⟩ | name⟩
    · cases fresh
    · exact second name

/-- From the first name the parser comes to the second, back to the first it must start anew, and the half of
the first it refuses altogether. By then the edit has been marked in the tree of the first name, so the last
call must not find that tree. The calls share the entry of document 0, which plain text leaves alone. -/
theorem parse_cache_transparent_shared :
    let calls : List ParseCall := [.parse 0 ['日', '本'] .typeScript 1,
      .parseDocument { text := ['日', '木'], language := .typeScript, revision := 2 },
      .parse 0 ['x'] .plainText 3, .parse 0 ['日', '本'] .typeScript 4, .parse 0 ['日'] .typeScript 5]
    let c := ({} : ParseCache).run Parser.twoNames Tree.resizeName calls
    let again := ParseCall.parse 0 ['日', '本'] .typeScript 6
    c.entries.keys = [] ∧
      (c.call Parser.twoNames Tree.resizeName again).1.map (·.tree) = some (.ofName 6) ∧
      ∀ e ∈ (c.call Parser.twoNames Tree.resizeName again).2.entries.entries,
        Parser.twoNames e.2.language e.2.source none = some e.2.tree := by
  intro calls c again
  obtain ⟨answer, faithful⟩ := parse_cache_transparent Parser.twoNames_incremental calls again
  refine ⟨rfl, ?_, faithful⟩
  rw [answer]
  rfl

end Highlight
