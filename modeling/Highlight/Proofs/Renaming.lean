import Highlight.Proofs.Replacement
import Highlight.Proofs.StructuralResolution
import Mathlib.Data.List.Basic

/-!
# Renaming a symbol

The occurrences of a symbol are all given another name that no identifier of the file has. Then they are
the occurrences of one symbol again, and every other identifier means what it meant
(`renaming_is_capture_free`).

The bindings after the renaming are those before it, some of them with the new name. So the bindings of a
name in a scope are those before it, less the renamed ones, and those of the new name are the renamed ones
(`Renaming.within_renamed`). An identifier and the binding that it means have the same symbol, so either
both are renamed or neither is (`Renaming.renames_of_meantBy?`): what an identifier meant is never among
the bindings that a lookup no longer sees (`Binding.referredTo?_kept`).
-/

namespace Highlight

/-! ## Selection among fewer bindings -/

namespace Binding

section Selection

variable {keep : Binding → Bool} {rename : Binding → Binding} {r : Rebinding} {byte : Nat}

theorem head?_kept {bs : List Binding} (kept : ∀ b ∈ bs.head?, keep b = true) :
    ((bs.filter keep).map rename).head? = bs.head?.map rename := by
  cases bs with
  | nil => rfl
  | cons b bs =>
    rw [List.filter_cons_of_pos (kept b rfl)]
    rfl

theorem getLast?_kept {bs : List Binding} (kept : ∀ b ∈ bs.getLast?, keep b = true) :
    ((bs.filter keep).map rename).getLast? = bs.getLast?.map rename := by
  rcases List.eq_nil_or_concat bs with rfl | ⟨front, b, rfl⟩
  · rfl
  · have last : keep b = true := kept b (by simp)
    simp [last]

/-- The binding in force is the same among fewer bindings if it is one of them. -/
theorem inForce?_kept (visible : ∀ b, (rename b).visibleFrom = b.visibleFrom) {bs : List Binding}
    (kept : ∀ b ∈ inForce? r bs byte, keep b = true) :
    inForce? r ((bs.filter keep).map rename) byte = (inForce? r bs byte).map rename := by
  cases r with
  | reassign => exact head?_kept kept
  | shadow =>
    have order : ((bs.filter keep).map rename).filter (·.visibleFrom ≤ byte) =
        ((bs.filter (·.visibleFrom ≤ byte)).filter keep).map rename := by
      rw [List.filter_map, List.filter_filter, List.filter_filter]
      congr 1
      apply List.filter_congr
      intro b _
      simp only [Function.comp, visible, Bool.and_comm]
    rw [inForce?, order]
    exact getLast?_kept kept

theorem findSome?_kept (keep : Binding → Bool) {f f' : Node → Option Binding} {scopes : List Node}
    (same : ∀ a, (∀ b ∈ f a, keep b = true) → f' a = (f a).map rename)
    (kept : ∀ b ∈ scopes.findSome? f, keep b = true) :
    scopes.findSome? f' = (scopes.findSome? f).map rename := by
  induction scopes with
  | nil => rfl
  | cons a scopes ih =>
    rw [List.findSome?_cons, List.findSome?_cons]
    rw [List.findSome?_cons] at kept
    cases found : f a with
    | none =>
      rw [found] at kept
      have none : f' a = none := by
        rw [same a (by rw [found]; nofun), found, Option.map_none]
      rw [none]
      exact ih kept
    | some b =>
      rw [found] at kept
      have some : f' a = some (rename b) := by
        rw [same a (by rw [found]; exact kept), found, Option.map_some]
      rw [some]
      rfl

/-- A reference means the same among fewer bindings if what it means is one of them. -/
theorem referredTo?_kept {bs bs' : List Binding} {scopes : List Node} {space : Namespace}
    {name name' : Text} (visible : ∀ b, (rename b).visibleFrom = b.visibleFrom)
    (fewer : ∀ a, within bs' space name' a = ((within bs space name a).filter keep).map rename)
    (kept : ∀ b ∈ referredTo? r bs scopes space name byte, keep b = true) :
    referredTo? r bs' scopes space name' byte =
      (referredTo? r bs scopes space name byte).map rename := by
  unfold referredTo? at kept ⊢
  have first : (scopes.findSome? fun scope => inForce? r (within bs' space name' scope) byte) =
      (scopes.findSome? fun scope => inForce? r (within bs space name scope) byte).map rename := by
    apply findSome?_kept keep
    · intro a kept
      rw [fewer]
      exact inForce?_kept visible kept
    · intro b hb
      exact kept b (by rw [hb]; rfl)
  rw [first]
  cases found : scopes.findSome? fun scope => inForce? r (within bs space name scope) byte with
  | some b => rfl
  | none =>
    rw [found, Option.none_or] at kept
    rw [Option.map_none, Option.none_or, Option.none_or]
    apply findSome?_kept keep _ kept
    intro a kept
    rw [fewer]
    exact head?_kept kept

/-- So does a binding that stands for its symbol. -/
theorem canonical_kept {bs bs' : List Binding} {b : Binding}
    (fewer : within bs' (rename b).space (rename b).name (rename b).scope =
      ((within bs b.space b.name b.scope).filter keep).map rename)
    (kept : keep (b.canonical r bs) = true) :
    (rename b).canonical r bs' = rename (b.canonical r bs) := by
  cases r with
  | shadow => rfl
  | reassign =>
    unfold canonical at kept ⊢
    rw [fewer, head?_kept]
    · cases (within bs b.space b.name b.scope).head? <;> rfl
    · intro c hc
      rw [show (within bs b.space b.name b.scope).head? = some c from hc] at kept
      exact kept

end Selection

end Binding

/-! ## Renamings -/

/-- The symbol under another name. -/
def Symbol.withName (w : Text) : Symbol → Symbol
  | .bound document space _ declaration => .bound document space w declaration
  | .free space _ => .free space w

/-- A symbol of a file and another name for it. -/
structure Renaming where
  grammar : Grammar
  document : DocumentId
  source : Text
  tree : Tree
  symbol : Symbol
  /-- The new name. -/
  name : Text

namespace Renaming

variable (R : Renaming)

/-- The symbol of a place over some text. -/
def symbolIn? (source : Text) (p : Place) : Option Symbol :=
  Symbol.resolveIn? R.grammar R.document source (ScopeIndex.ofTree R.grammar source R.tree) p

/-- The places that have the symbol. -/
def occurrences : List Place :=
  R.tree.places.filter fun p => R.symbolIn? R.source p = some R.symbol

/-- The text in which the occurrences have the new name. -/
def renamed : Text := Text.replaceAll R.source R.name (R.occurrences.map (·.node.range))

/-- A node is renamed. -/
def renames (node : Node) : Bool := R.occurrences.any (·.node = node)

/-- A binding with its new name. -/
def rename (b : Binding) : Binding := if R.renames b.node then { b with name := R.name } else b

/-- The name is new and as long as the old one, and the tree is one in which identifiers lie apart. -/
structure Valid : Prop where
  wellFormed : R.tree.WellFormed
  flat : R.grammar.FlatIdentifiers R.tree
  sameLength : Text.byteLength R.name = Text.byteLength R.symbol.name
  fresh : ∀ p ∈ R.tree.places, R.grammar.isIdentifier p.node.kind = true →
    Text.slice? R.source p.node.range ≠ some R.name

variable {R}

theorem renames_iff {p : Place} (hp : p ∈ R.tree.places) :
    R.renames p.node = true ↔ R.symbolIn? R.source p = some R.symbol := by
  simp only [renames, List.any_eq_true, decide_eq_true_eq, occurrences, List.mem_filter]
  constructor
  · rintro ⟨q, ⟨hq, symbol⟩, node⟩
    rw [Tree.eq_of_index hp hq (by rw [node])]
    exact symbol
  · intro symbol
    exact ⟨p, ⟨hp, symbol⟩, rfl⟩

/-- What is renamed has the name and the namespace of the symbol. -/
theorem named?_of_renames {p : Place} (hp : p ∈ R.tree.places) (h : R.renames p.node = true) :
    Symbol.named? R.grammar R.source p = some (R.symbol.space, R.symbol.name) :=
  Symbol.named?_of_resolveIn? ((renames_iff hp).1 h)

/-! ### Texts -/

theorem mem_occurrences {p : Place} :
    p ∈ R.occurrences ↔ p ∈ R.tree.places ∧ R.renames p.node = true := by
  rw [occurrences, List.mem_filter, decide_eq_true_eq]
  constructor
  · rintro ⟨hp, symbol⟩
    exact ⟨hp, (renames_iff hp).2 symbol⟩
  · rintro ⟨hp, renames⟩
    exact ⟨hp, (renames_iff hp).1 renames⟩

theorem isIdentifier_of_renames {p : Place} (hp : p ∈ R.tree.places) (h : R.renames p.node = true) :
    R.grammar.isIdentifier p.node.kind = true := (Symbol.named?_eq_some (named?_of_renames hp h)).1

theorem slice?_of_renames {p : Place} (hp : p ∈ R.tree.places) (h : R.renames p.node = true) :
    Text.slice? R.source p.node.range = some R.symbol.name :=
  (Symbol.named?_eq_some (named?_of_renames hp h)).2.2.1

section Valid

variable (valid : R.Valid)

include valid

theorem apart {p q : Place} (hp : p ∈ R.tree.places) (hq : q ∈ R.tree.places)
    (identifier : R.grammar.isIdentifier p.node.kind = true)
    (identifier' : R.grammar.isIdentifier q.node.kind = true) (different : p ≠ q) :
    p.node.range.Apart q.node.range :=
  (valid.flat.unnested.apart valid.wellFormed hp hq identifier identifier').resolve_left different

/-- An identifier reads as the new name if it is renamed, and as before if it is not. -/
theorem slice?_renamed {p : Place} (hp : p ∈ R.tree.places)
    (identifier : R.grammar.isIdentifier p.node.kind = true) :
    Text.slice? R.renamed p.node.range =
      if R.renames p.node then some R.name else Text.slice? R.source p.node.range := by
  have order : (R.occurrences.map (·.node.range)).Pairwise ByteRange.Apart := by
    rw [List.pairwise_map]
    refine ((Tree.nodup_places R.tree).filter _).imp_of_mem ?_
    intro a b ha hb different
    obtain ⟨pa, ra⟩ := mem_occurrences.1 ha
    obtain ⟨pb, rb⟩ := mem_occurrences.1 hb
    exact apart valid pa pb (isIdentifier_of_renames pa ra) (isIdentifier_of_renames pb rb) different
  have found : ∀ r ∈ R.occurrences.map (·.node.range),
      Text.slice? R.source r = some R.symbol.name := by
    intro r hr
    obtain ⟨q, hq, rfl⟩ := List.mem_map.1 hr
    obtain ⟨hq, renames⟩ := mem_occurrences.1 hq
    exact slice?_of_renames hq renames
  split
  · rename_i renames
    exact Text.slice?_replaceAll valid.sameLength.symm order found
      (List.mem_map_of_mem (mem_occurrences.2 ⟨hp, renames⟩))
  · rename_i kept
    apply Text.slice?_replaceAll_apart valid.sameLength.symm order found
    intro r hr
    obtain ⟨q, hq, rfl⟩ := List.mem_map.1 hr
    obtain ⟨hq, renames⟩ := mem_occurrences.1 hq
    apply apart valid hq hp (isIdentifier_of_renames hq renames) identifier
    rintro rfl
    exact kept renames

/-! ### Bindings -/

/-- A place makes the binding that it made, under its new name. -/
theorem of?_renamed {p : Place} (hp : p ∈ R.tree.places) :
    Binding.of? R.grammar R.renamed p = (Binding.of? R.grammar R.source p).map R.rename := by
  simp only [Binding.of?, Option.bind_eq_bind]
  cases made : BindingSite.of? R.grammar p with
  | none => rfl
  | some site =>
    have identifier := Grammar.isIdentifier_of_classify (BindingSite.of?_eq_some made).1
    rw [Option.bind_some, Option.bind_some, slice?_renamed valid hp identifier]
    split
    · rename_i renames
      rw [slice?_of_renames hp renames]
      simp [rename, renames]
    · rename_i kept
      cases Text.slice? R.source p.node.range with
      | none => rfl
      | some name => simp [rename, kept]

theorem all_renamed :
    Binding.all R.grammar R.renamed R.tree =
      (Binding.all R.grammar R.source R.tree).map R.rename := by
  rw [Binding.all, Binding.all, List.map_filterMap]
  exact List.filterMap_congr fun p hp => of?_renamed valid hp

/-- The name of a place after the renaming. -/
def nameAfter (R : Renaming) (p : Place) (name : Text) : Text :=
  if R.renames p.node then R.name else name

/-- The bindings of a place's name in a scope are those that are renamed if it is, and those that are not
if it is not. -/
theorem within_renamed {p : Place} (hp : p ∈ R.tree.places) {space : Namespace} {name : Text}
    (named : Symbol.named? R.grammar R.source p = some (space, name)) (a : Node) :
    Binding.within (Binding.all R.grammar R.renamed R.tree) space (R.nameAfter p name) a =
      ((Binding.within (Binding.all R.grammar R.source R.tree) space name a).filter
        fun b => R.renames b.node == R.renames p.node).map R.rename := by
  obtain ⟨identifier, -, text, -⟩ := Symbol.named?_eq_some named
  rw [all_renamed valid, Binding.within, List.filter_map, Binding.within, List.filter_filter]
  congr 1
  apply List.filter_congr
  intro b hb
  obtain ⟨q, hq, made⟩ := Binding.mem_all.1 hb
  obtain ⟨site, slice, node⟩ := Binding.of?_eq_some.1 made
  obtain ⟨classified, -, inhabited, -⟩ := BindingSite.of?_eq_some site
  have qnamed := Symbol.named?_eq classified inhabited slice
  -- a name is the new one only after the renaming
  have old : b.name ≠ R.name := fun h =>
    valid.fresh q hq (Grammar.isIdentifier_of_classify classified) (by rw [slice, h])
  have old' : name ≠ R.name := fun h => valid.fresh p hp identifier (by rw [text, h])
  rw [node]
  cases hb : R.renames q.node <;> cases hn : R.renames p.node
  · simp [rename, nameAfter, node, hb, hn]
  · simp [rename, nameAfter, node, hb, hn, old]
  · simp [rename, nameAfter, node, hb, hn, Ne.symm old']
  · have same := named?_of_renames hq hb
    have same' := named?_of_renames hp hn
    rw [qnamed, Option.some.injEq, Prod.mk.injEq] at same
    rw [named, Option.some.injEq, Prod.mk.injEq] at same'
    simp [rename, nameAfter, node, hb, hn, same, same']

/-! ### Symbols -/

/-- The binding that a place means has the symbol of the place, so both are renamed or neither is. -/
theorem renames_of_meantBy? {p : Place} (hp : p ∈ R.tree.places) {space : Namespace} {name : Text}
    (named : Symbol.named? R.grammar R.source p = some (space, name)) (lexical : space ≠ .member)
    {b : Binding} (meant : Binding.meantBy? R.grammar R.source R.tree p space name = some b) :
    R.renames b.node = R.renames p.node := by
  obtain ⟨hb, rfl, rfl, stands⟩ := Binding.meantBy?_eq_some hp named meant
  obtain ⟨q, hq, made⟩ := Binding.mem_all.1 hb
  obtain ⟨site, slice, node⟩ := Binding.of?_eq_some.1 made
  obtain ⟨classified, -, inhabited, -⟩ := BindingSite.of?_eq_some site
  have meant' : Binding.meantBy? R.grammar R.source R.tree q b.space b.name = some b := by
    rw [Binding.meantBy?, made]
    simp only [stands]
  have symbols : R.symbolIn? R.source q = R.symbolIn? R.source p := by
    rw [symbolIn?, symbolIn?,
      Symbol.resolveIn?_ofTree R.document valid.wellFormed valid.flat hp named lexical,
      Symbol.resolveIn?_ofTree R.document valid.wellFormed valid.flat hq
        (Symbol.named?_eq classified inhabited slice) lexical,
      Symbol.structural, Symbol.structural, meant, meant']
  rw [node, Bool.eq_iff_iff, renames_iff hq, renames_iff hp, symbols]

omit valid in
theorem rename_visibleFrom (b : Binding) : (R.rename b).visibleFrom = b.visibleFrom := by
  unfold rename
  split <;> rfl

omit valid in
theorem rename_node (b : Binding) : (R.rename b).node = b.node := by
  unfold rename
  split <;> rfl

/-- A place means the binding that it meant, under its new name. -/
theorem meantBy?_renamed {p : Place} (hp : p ∈ R.tree.places) {space : Namespace} {name : Text}
    (named : Symbol.named? R.grammar R.source p = some (space, name)) (lexical : space ≠ .member) :
    Binding.meantBy? R.grammar R.renamed R.tree p space (R.nameAfter p name) =
      (Binding.meantBy? R.grammar R.source R.tree p space name).map R.rename := by
  have kept : ∀ b ∈ Binding.meantBy? R.grammar R.source R.tree p space name,
      (R.renames b.node == R.renames p.node) = true := by
    intro b meant
    rw [renames_of_meantBy? valid hp named lexical meant, beq_self_eq_true]
  have fewer := within_renamed valid hp named
  unfold Binding.meantBy? at kept ⊢
  rw [of?_renamed valid hp]
  cases made : Binding.of? R.grammar R.source p with
  | none =>
    rw [made] at kept
    exact Binding.referredTo?_kept rename_visibleFrom fewer kept
  | some b =>
    rw [made] at kept
    obtain ⟨-, -, text, classified⟩ := Symbol.named?_eq_some named
    obtain ⟨site, slice, node⟩ := Binding.of?_eq_some.1 made
    have ofSpace : b.space = space := by
      rw [(BindingSite.of?_eq_some site).1] at classified
      exact Option.some.inj classified
    have ofName : b.name = name := by
      rw [slice] at text
      exact Option.some.inj text
    have renamedSpace : (R.rename b).space = b.space := by
      unfold rename
      split <;> rfl
    have renamedName : (R.rename b).name = R.nameAfter p name := by
      rw [rename, nameAfter, node, ← ofName]
      split <;> rfl
    have renamedScope : (R.rename b).scope = b.scope := by
      unfold rename
      split <;> rfl
    rw [Option.map_some]
    simp only [Option.map_some, Option.some.injEq]
    apply Binding.canonical_kept
    · rw [renamedSpace, renamedName, renamedScope, ofSpace, ofName]
      exact fewer b.scope
    · exact kept _ rfl

/-- The name and the namespace of a place after the renaming. -/
theorem named?_renamed {p : Place} (hp : p ∈ R.tree.places) :
    Symbol.named? R.grammar R.renamed p =
      (Symbol.named? R.grammar R.source p).map fun (space, name) => (space, R.nameAfter p name) := by
  unfold Symbol.named? nameAfter
  split
  · rename_i names
    have identifier := (Bool.and_eq_true_iff.1 names).1
    rw [slice?_renamed valid hp identifier]
    split
    · rename_i renames
      rw [slice?_of_renames hp renames]
      cases R.grammar.classify p.node.kind p.parentKind? p.node.field <;> rfl
    · cases Text.slice? R.source p.node.range with
      | none => rfl
      | some name => cases R.grammar.classify p.node.kind p.parentKind? p.node.field <;> rfl
  · rfl

/-- After the renaming the occurrences of the symbol have it under the new name, and every other place has
the symbol that it had. -/
theorem symbolIn?_renamed {p : Place} (hp : p ∈ R.tree.places) :
    R.symbolIn? R.renamed p =
      if R.renames p.node then some (R.symbol.withName R.name) else R.symbolIn? R.source p := by
  have after := named?_renamed valid hp
  -- what has a symbol keeps it up to its name
  have symbols : R.symbolIn? R.renamed p =
      (R.symbolIn? R.source p).map fun symbol => symbol.withName (R.nameAfter p symbol.name) := by
    cases named : Symbol.named? R.grammar R.source p with
    | none =>
      rw [named] at after
      simp [symbolIn?, Symbol.resolveIn?, after, named]
    | some entry =>
      obtain ⟨space, name⟩ := entry
      rw [named, Option.map_some] at after
      by_cases member : space = .member
      · simp [symbolIn?, Symbol.resolveIn?, after, named, member, Symbol.withName, Symbol.name]
      · rw [symbolIn?, symbolIn?,
          Symbol.resolveIn?_ofTree R.document valid.wellFormed valid.flat hp after member,
          Symbol.resolveIn?_ofTree R.document valid.wellFormed valid.flat hp named member,
          Symbol.structural, Symbol.structural, meantBy?_renamed valid hp named member]
        cases Binding.meantBy? R.grammar R.source R.tree p space name with
        | none => rfl
        | some b => simp [rename_node, Symbol.withName, Symbol.name]
  rw [symbols]
  split
  · rename_i renames
    rw [(renames_iff hp).1 renames, Option.map_some, nameAfter, if_pos renames]
  · rename_i kept
    cases R.symbolIn? R.source p with
    | none => rfl
    | some symbol =>
      rw [Option.map_some, nameAfter, if_neg kept]
      cases symbol <;> rfl

end Valid

end Renaming

/-! ## The main statement -/

/-- The text of a snapshot in which every place that resolves to a symbol has another name. -/
def Snapshot.renamedText (s : Snapshot) (symbol : Symbol) (w : Text) : Text :=
  Text.replaceAll s.source w
    ((s.places.filter fun p => Symbol.lexical? s p = some symbol).map (·.node.range))

/-- The snapshot with that text; the tree stays. -/
def Snapshot.renamed (s : Snapshot) (symbol : Symbol) (w : Text) : Snapshot where
  document := s.document
  path := s.path
  language := s.language
  revision := s.revision
  source := s.renamedText symbol w
  tree := s.tree

theorem Snapshot.scopes_eq_ofTree {s : Snapshot} {g : Grammar} (grammar : s.grammar = some g) :
    s.scopes = ScopeIndex.ofTree g s.source s.tree := by
  rw [s.scopes_eq, ScopeIndex.ofSource, show s.language.grammar = some g from grammar]

/-- Renaming a symbol captures nothing. Over a well-formed tree in which no identifier stands above an
identifier or a scope, give all places that resolve to a symbol another name, as long in bytes as the old
one and the text of no identifier. Then these places resolve to the symbol under its new name, and every
other place to what it resolved to before. -/
theorem renaming_is_capture_free {file : Snapshot} {symbol : Symbol} {w : Text}
    (wellFormed : file.tree.WellFormed) (flat : ∀ g ∈ file.grammar, g.FlatIdentifiers file.tree)
    (sameLength : Text.byteLength w = Text.byteLength symbol.name)
    (fresh : ∀ g ∈ file.grammar, ∀ p ∈ file.places, g.isIdentifier p.node.kind = true →
      Text.slice? file.source p.node.range ≠ some w) :
    ∀ p ∈ file.places,
      (Symbol.lexical? file p = some symbol →
        Symbol.lexical? (file.renamed symbol w) p = some (symbol.withName w)) ∧
      (Symbol.lexical? file p ≠ some symbol →
        Symbol.lexical? (file.renamed symbol w) p = Symbol.lexical? file p) := by
  intro p hp
  cases grammar : file.grammar with
  | none =>
    have after : (file.renamed symbol w).grammar = none := grammar
    simp [Symbol.lexical?, grammar, after]
  | some g =>
    let R : Renaming := ⟨g, file.document, file.source, file.tree, symbol, w⟩
    rw [file.places_eq] at fresh hp
    have valid : R.Valid := ⟨wellFormed, flat g grammar, sameLength, fresh g grammar⟩
    have before : Symbol.lexical? file = R.symbolIn? file.source := by
      funext p
      rw [Symbol.lexical?_eq grammar, Snapshot.scopes_eq_ofTree grammar, Renaming.symbolIn?]
    have source : file.renamedText symbol w = R.renamed := by
      rw [Snapshot.renamedText, Renaming.renamed, Renaming.occurrences, before, file.places_eq]
    have after : Symbol.lexical? (file.renamed symbol w) p = R.symbolIn? R.renamed p := by
      have grammar' : (file.renamed symbol w).grammar = some g := grammar
      rw [Symbol.lexical?_eq grammar', Snapshot.scopes_eq_ofTree grammar', Renaming.symbolIn?, ← source]
      rfl
    rw [after, before, Renaming.symbolIn?_renamed valid hp]
    constructor
    · intro symbol
      rw [if_pos ((Renaming.renames_iff hp).2 symbol)]
    · intro other
      rw [if_neg fun renames => other ((Renaming.renames_iff hp).1 renames)]

/-- A parse of the text `let a;{a;let a;a}`. -/
def Snapshot.hiding : Snapshot where
  document := 0
  language := .javaScript
  revision := 0
  source := "let a;{a;let a;a}".toList
  tree := .hiding

/-- The outer name is renamed where it is declared and where the inner one does not hide it yet; the inner
one is left alone. -/
theorem renaming_is_capture_free_hiding :
    let outer := Symbol.bound 0 .value ['a'] ⟨4, 5⟩
    Snapshot.hiding.renamedText outer ['b'] = "let b;{b;let a;a}".toList ∧
    ∀ p ∈ Snapshot.hiding.places,
      (Symbol.lexical? .hiding p = some outer →
        Symbol.lexical? (Snapshot.hiding.renamed outer ['b']) p = some (.bound 0 .value ['b'] ⟨4, 5⟩)) ∧
      (Symbol.lexical? .hiding p ≠ some outer →
        Symbol.lexical? (Snapshot.hiding.renamed outer ['b']) p = Symbol.lexical? .hiding p) := by
  intro outer
  refine ⟨by decide +kernel, ?_⟩
  apply renaming_is_capture_free (by decide)
  · rintro g ⟨⟩
    decide
  · decide
  · rintro g ⟨⟩
    decide

end Highlight
