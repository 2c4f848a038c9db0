import Highlight.Proofs.Renaming
import Highlight.Search

/-!
# Names used before a `let` ends

Where a second declaration of a name hides the first one, a reference means the declaration *in force*: of
the declarations visible at it the last one in the nearest scope (`ScopeIndex.InForce`). It is in force
regardless of what is declared but not visible yet (`ScopeIndex.lookup?_of_inForce`).

A Rust `let` hides a name from its end on if the name is the whole pattern. A name in a tuple pattern is
visible from the end of that pattern on, and one in any other pattern in its whole scope
(`Binding.visibleFrom_rust`), so these can be in force before the `let` has ended
(`names_before_let_ends`, `initializer_captured`).
-/

namespace Highlight

/-! ## Declarations in force -/

/-- A declaration of the name that references at the byte see. -/
def Declaration.VisibleAt (d : Declaration) (space : Namespace) (name : Text) (byte : Nat) : Prop :=
  d.space = space ∧ d.name = name ∧ d.visibleFrom ≤ byte

instance (d : Declaration) (space : Namespace) (name : Text) (byte : Nat) :
    Decidable (d.VisibleAt space name byte) :=
  inferInstanceAs (Decidable (_ ∧ _ ∧ _))

namespace ScopeIndex

variable {x : ScopeIndex} {space : Namespace} {name : Text} {byte : Nat} {d : Declaration}

/-- Of the declarations of a name that are visible at a byte, `d` is one of the nearest scope around the
byte that has any, and the last one there. -/
structure InForce (x : ScopeIndex) (space : Namespace) (name : Text) (byte : Nat) (d : Declaration) :
    Prop where
  visible : d.VisibleAt space name byte
  nearest : ∃ nearer further, x.chain byte = nearer ++ d.scope :: further ∧
    ∀ e ∈ x.declarations, e.VisibleAt space name byte → e.scope ∉ nearer
  last : ∃ earlier later, x.declarations = earlier ++ d :: later ∧
    ∀ e ∈ later, e.VisibleAt space name byte → e.scope ≠ d.scope

section Shadow

variable (faithful : x.Faithful) (shadow : x.rebinding = some .shadow)

include faithful shadow

/-- What a reference sees in one scope, as a search from the last declaration on. -/
theorem visibleIn?_eq_find? (scope : Nat) :
    x.visibleIn? ((x.named? space name).getD []) byte scope =
      x.declarations.reverse.find? fun d => d.VisibleAt space name byte ∧ d.scope = scope := by
  rw [visibleIn?, shadow, if_neg (by decide), faithful.named, List.filter_filter, List.filter_filter,
    List.getLast?_filter]
  congr 1
  funext d
  rw [Bool.eq_iff_iff]
  simp only [Declaration.VisibleAt, Bool.and_eq_true, beq_iff_eq, decide_eq_true_iff]
  grind

theorem visibleIn?_eq_none_iff {scope : Nat} :
    x.visibleIn? ((x.named? space name).getD []) byte scope = none ↔
      ∀ e ∈ x.declarations, e.VisibleAt space name byte → e.scope ≠ scope := by
  rw [visibleIn?_eq_find? faithful shadow, List.find?_eq_none]
  simp

theorem visibleIn?_eq_some_iff {scope : Nat} :
    x.visibleIn? ((x.named? space name).getD []) byte scope = some d ↔
      (d.VisibleAt space name byte ∧ d.scope = scope) ∧
        ∃ earlier later, x.declarations = earlier ++ d :: later ∧
          ∀ e ∈ later, e.VisibleAt space name byte → e.scope ≠ scope := by
  rw [visibleIn?_eq_find? faithful shadow, List.find?_eq_some_iff_append, decide_eq_true_iff]
  refine and_congr_right fun _ => ?_
  constructor
  · rintro ⟨later, earlier, split, others⟩
    refine ⟨earlier.reverse, later.reverse, ?_, ?_⟩
    · rw [← List.reverse_inj, split]
      simp
    · simpa [Decidable.imp_iff_not_or] using others
  · rintro ⟨earlier, later, split, others⟩
    refine ⟨later.reverse, earlier.reverse, ?_, ?_⟩
    · rw [split]
      simp
    · simpa [Decidable.imp_iff_not_or] using others

/-- The first pass of a lookup finds the declaration in force. -/
theorem findSome?_visibleIn?_iff :
    (x.chain byte).findSome? (x.visibleIn? ((x.named? space name).getD []) byte) = some d ↔
      x.InForce space name byte d := by
  rw [List.findSome?_eq_some_iff]
  constructor
  · rintro ⟨nearer, scope, further, split, found, nothing⟩
    obtain ⟨⟨visible, rfl⟩, last⟩ := (visibleIn?_eq_some_iff faithful shadow).1 found
    refine ⟨visible, ⟨nearer, further, split, ?_⟩, last⟩
    intro e he seen near
    exact (visibleIn?_eq_none_iff faithful shadow).1 (nothing _ near) e he seen rfl
  · rintro ⟨visible, ⟨nearer, further, split, others⟩, last⟩
    refine ⟨nearer, d.scope, further, split, ?_, ?_⟩
    · exact (visibleIn?_eq_some_iff faithful shadow).2 ⟨⟨visible, rfl⟩, last⟩
    · intro scope near
      rw [visibleIn?_eq_none_iff faithful shadow]
      rintro e he seen rfl
      exact others e he seen near

/-- Where a declaration of the name is visible in some scope around the byte, one is in force. -/
theorem exists_inForce {e : Declaration} (he : e ∈ x.declarations)
    (visible : e.VisibleAt space name byte) (around : e.scope ∈ x.chain byte) :
    ∃ f, x.InForce space name byte f := by
  cases found : (x.chain byte).findSome? (x.visibleIn? ((x.named? space name).getD []) byte) with
  | some f => exact ⟨f, (findSome?_visibleIn?_iff faithful shadow).1 found⟩
  | none =>
    have nothing := List.findSome?_eq_none_iff.1 found _ around
    exact absurd rfl ((visibleIn?_eq_none_iff faithful shadow).1 nothing e he visible)

/-- At most one declaration of a name is in force. -/
theorem InForce.unique {f : Declaration} (h : x.InForce space name byte d)
    (h' : x.InForce space name byte f) : d = f := by
  rw [← findSome?_visibleIn?_iff faithful shadow] at h h'
  exact Option.some.inj (h.symm.trans h')

/-- A lookup finds the declaration in force. -/
theorem lookup?_of_inForce (h : x.InForce space name byte d) : x.lookup? space name byte = some d := by
  rw [lookup?_eq, (findSome?_visibleIn?_iff faithful shadow).2 h, Option.some_or, Option.map_some,
    canonical, shadow, if_neg (by decide)]

end Shadow

end ScopeIndex

/-! ## References -/

/-- An identifier that does not declare means what a lookup from its start finds. -/
theorem Symbol.meaning?_of_reference {file : Snapshot} {range : ByteRange} (space : Namespace) (name : Text)
    (reference : Engine.occurrenceKind file range = .reference) :
    meaning? file.scopes space name range = file.scopes.lookup? space name range.start := by
  unfold Engine.occurrenceKind at reference
  unfold meaning?
  cases found : file.scopes.declarationAt? range.start with
  | none => rfl
  | some d =>
    simp only [found] at reference
    have other : ¬(d.space = space ∧ d.range = range) := by
      rintro ⟨-, same⟩
      simp [same] at reference
    exact if_neg other

/-- A reference to a value or a type means the declaration in force at its start. -/
theorem Symbol.lexical?_of_inForce {file : Snapshot} {g : Grammar} (grammar : file.grammar = some g)
    (shadow : g.rebinding = .shadow) {r : Place} {space : Namespace} {name : Text}
    (named : named? g file.source r = some (space, name)) (lexical : space ≠ .member)
    (reference : Engine.occurrenceKind file r.node.range = .reference) {f : Declaration}
    (h : file.scopes.InForce space name r.node.range.start f) :
    lexical? file r = some (.bound file.document space name f.range) := by
  have built := ScopeIndex.built_ofTree g file.source file.tree
  rw [← Snapshot.scopes_eq_ofTree grammar] at built
  rw [lexical?_eq grammar, resolveIn?, named, Option.map_some]
  simp only [if_neg lexical]
  rw [meaning?_of_reference space name reference,
    ScopeIndex.lookup?_of_inForce built.faithful (by rw [built.rebinding, shadow]) h]

theorem ScopeIndex.declaration_eq_of_range {g : Grammar} {source : Text} {t : Tree} (wellFormed : t.WellFormed)
    (flat : g.FlatIdentifiers t) {d f : Declaration} (hd : d ∈ (ofTree g source t).declarations)
    (hf : f ∈ (ofTree g source t).declarations) (same : d.range = f.range) : d = f :=
  declaration_eq_of_unnested wellFormed flat.unnested hd hf same

/-! ## Patterns -/

/-- The place stands in the pattern of the `let` that `l` is the node of. -/
def Place.InPatternOf (p : Place) (l : Node) : Prop :=
  l.kind = "let_declaration" ∧
    ∃ pattern ∈ p.path, pattern.field = some "pattern" ∧ [pattern, l] <:+: p.path

instance (p : Place) (l : Node) : Decidable (p.InPatternOf l) :=
  inferInstanceAs (Decidable (_ ∧ ∃ _ ∈ _, _))

/-- What is visible from the end of a construct on is visible from the end of the node right above. -/
theorem BindingSite.visibleFrom_of? {g : Grammar} {p : Place} {site : BindingSite}
    (h : of? g p = some site) : ∃ parent rule, p.parent? = some parent ∧
      g.declarationRule? parent.kind p.node.field = some rule ∧
      site.visibleFrom = match rule.visibility with
        | .hoisted => site.scope.range.start
        | .afterDeclaration => parent.range.stop := by
  simp only [of?, Option.bind_eq_bind, Option.bind_eq_some_iff] at h
  obtain ⟨parent, above, space, -, h⟩ := h
  split at h
  · cases h
  · obtain ⟨rule, declares, scope, -, h⟩ := by
      simpa only [Option.bind_eq_some_iff, Option.pure_def, Option.some.injEq] using h
    cases h
    exact ⟨parent, rule, above, declares, rfl⟩

/-- In Rust only the rules for a `let` and for tuple patterns bind names behind a construct. -/
theorem Grammar.visibility_rust {kind : String} {field : Option String} {rule : DeclarationRule}
    (h : Grammar.rust.declarationRule? kind field = some rule) :
    rule.visibility = .afterDeclaration ↔ kind = "let_declaration" ∨ kind = "tuple_pattern" := by
  have table : ∀ rule ∈ Grammar.rust.declarations, rule.visibility = .afterDeclaration ↔
      rule.parent = "let_declaration" ∨ rule.parent = "tuple_pattern" := by
    decide
  have parent : rule.parent = kind := by
    have fits := List.find?_some h
    simp only [Bool.and_eq_true, beq_iff_eq] at fits
    exact fits.1
  rw [table rule (List.mem_of_find?_eq_some h), parent]

/-- From where on a Rust binding is visible: behind the `let` or the tuple pattern right above its
identifier, and below any other node in its whole scope. -/
theorem Binding.visibleFrom_rust {source : Text} {p : Place} {b : Binding}
    (h : of? .rust source p = some b) : ∃ parent, p.parent? = some parent ∧
      b.visibleFrom =
        if parent.kind = "let_declaration" ∨ parent.kind = "tuple_pattern" then parent.range.stop
        else b.scope.range.start := by
  obtain ⟨parent, rule, above, declares, visibleFrom⟩ :=
    BindingSite.visibleFrom_of? (of?_eq_some.1 h).1
  refine ⟨parent, above, ?_⟩
  have behind := Grammar.visibility_rust declares
  cases visibility : rule.visibility with
  | hoisted =>
    rw [visibility] at behind visibleFrom
    rw [if_neg fun kind => nomatch behind.2 kind]
    exact visibleFrom
  | afterDeclaration =>
    rw [visibility] at behind visibleFrom
    rw [if_pos (behind.1 rfl)]
    exact visibleFrom

/-- The node right above a place in the pattern of a `let` does not end in front of the `let`. -/
theorem Place.InPatternOf.start_le {t : Tree} (wellFormed : t.WellFormed) {p : Place} {l parent : Node}
    (hp : p ∈ t.places) (h : p.InPatternOf l) (above : p.parent? = some parent) :
    l.range.start ≤ parent.range.stop := by
  obtain ⟨rest, place, above⟩ := Tree.parent?_place hp above
  have proper := (Tree.range_placesFrom [] 0 t wellFormed _ place).2.1
  have onPath : l ∈ parent :: rest := by
    obtain ⟨-, pattern, -, -, inner, outer, path⟩ := h
    rw [Place.path, above] at path
    -- the pattern is the place itself or further up, and the `let` is above it
    cases inner with
    | nil => simp [← (List.cons.inj path).2]
    | cons _ inner => simp [← (List.cons.inj path).2]
  rcases List.mem_cons.1 onPath with rfl | further
  · exact proper
  · exact Nat.le_trans (Tree.range_above wellFormed place further).1 proper

/-! ## Uses in front of the end of a `let` -/

/-- In a Rust file `q` declares `d` in the pattern of the `let` at `l`, and `r` is a reference to that name
which starts before the `let` ends and at which a declaration `e` from outside the `let` is visible. -/
structure EarlyUse (file : Snapshot) (l : Node) (q : Place) (d : Declaration) (r : Place) (e : Declaration) :
    Prop where
  rust : file.language = .rust
  wellFormed : file.tree.WellFormed
  declaring : q ∈ file.places
  inPattern : q.InPatternOf l
  declares : (Binding.of? .rust file.source q).map (ScopeIndex.declarationOf .rust file.tree) = some d
  referring : r ∈ file.places
  reference : Engine.occurrenceKind file r.node.range = .reference
  named : Symbol.named? .rust file.source r = some (d.space, d.name)
  early : r.node.range.start < l.range.stop
  recorded : e ∈ file.scopes.declarations
  outside : ¬(l.range.start ≤ e.range.start ∧ e.range.stop ≤ l.range.stop)
  visible : e.VisibleAt d.space d.name r.node.range.start
  around : e.scope ∈ file.scopes.chain r.node.range.start

/-- Such a use read off a tree in which no identifier stands above an identifier or a scope. -/
theorem EarlyUse.of_bindings {file : Snapshot} (rust : file.language = .rust)
    (wellFormed : file.tree.WellFormed) (flat : Grammar.rust.FlatIdentifiers file.tree) {l : Node}
    {q r p : Place} {b c : Binding} (hq : q ∈ file.places) (inPattern : q.InPatternOf l)
    (made : Binding.of? .rust file.source q = some b) (hr : r ∈ file.places)
    (refers : Binding.of? .rust file.source r = none)
    (named : Symbol.named? .rust file.source r = some (b.space, b.name))
    (early : r.node.range.start < l.range.stop) (hp : p ∈ file.places)
    (other : Binding.of? .rust file.source p = some c)
    (outside : ¬(l.range.start ≤ c.node.range.start ∧ c.node.range.stop ≤ l.range.stop))
    (visible : c.space = b.space ∧ c.name = b.name ∧ c.visibleFrom ≤ r.node.range.start)
    (around : c.scope ∈ Grammar.rust.scopesOn r.path) :
    EarlyUse file l q (ScopeIndex.declarationOf .rust file.tree b) r
      (ScopeIndex.declarationOf .rust file.tree c) := by
  have grammar : file.grammar = some .rust := by rw [Snapshot.grammar, rust]; rfl
  have scopes := Snapshot.scopes_eq_ofTree grammar
  obtain ⟨identifier, inhabited, -, -⟩ := Symbol.named?_eq_some named
  have place : r ∈ file.tree.places := by rwa [← file.places_eq]
  refine ⟨rust, wellFormed, hq, inPattern, by rw [made]; rfl, hr, ?_, named, early, ?_, outside,
    visible, ?_⟩
  · unfold Engine.occurrenceKind
    rw [scopes, ScopeIndex.declarationAt?_ofTree wellFormed flat place identifier inhabited, refers]
    rfl
  · rw [scopes, ScopeIndex.declarations_ofTree]
    refine List.mem_map_of_mem (Binding.mem_all.2 ⟨p, ?_, other⟩)
    rwa [← file.places_eq]
  · rw [scopes, ScopeIndex.chain_ofTree wellFormed flat place identifier inhabited]
    exact List.mem_map_of_mem around

/-! ## The main statement -/

/-- A name used before a `let` has ended means the one declaration `f` of the name in force there. Such a name
does not fall to the declaration in the pattern if the identifier is the whole pattern. If the identifier
stands right in a tuple pattern, only names behind that pattern and inside of the `let` can fall to it. Where
identifiers lie apart, `f` is known by its range. -/
theorem names_before_let_ends {file : Snapshot} {l : Node} {q r : Place} {d e : Declaration}
    (use : EarlyUse file l q d r e) :
    ∃ f, (∀ c, file.scopes.InForce d.space d.name r.node.range.start c ↔ c = f) ∧
      Symbol.lexical? file r = some (.bound file.document d.space d.name f.range) ∧
      (f = d → ∃ parent, q.parent? = some parent ∧ parent ≠ l ∧
        (parent.kind = "let_declaration" ∨ parent.kind = "tuple_pattern" →
          parent.range.stop ≤ r.node.range.start ∧ l.range.contains r.node.range.start = true)) ∧
      (Grammar.rust.FlatIdentifiers file.tree → f.range = d.range → f = d) := by
  have grammar : file.grammar = some .rust := by rw [Snapshot.grammar, use.rust]; rfl
  have scopes := Snapshot.scopes_eq_ofTree grammar
  have built := ScopeIndex.built_ofTree .rust file.source file.tree
  rw [← scopes] at built
  have shadow : file.scopes.rebinding = some .shadow := built.rebinding
  have hq : q ∈ file.tree.places := by
    rw [← file.places_eq]
    exact use.declaring
  obtain ⟨b, made, rfl⟩ := Option.map_eq_some_iff.1 use.declares
  have lexical : b.space ≠ .member := (BindingSite.of?_eq_some (Binding.of?_eq_some.1 made).1).2.1
  obtain ⟨f, inForce⟩ := ScopeIndex.exists_inForce built.faithful shadow use.recorded use.visible use.around
  refine ⟨f, ?_, ?_, ?_, ?_⟩
  · intro c
    constructor
    · intro h
      exact ScopeIndex.InForce.unique built.faithful shadow h inForce
    · rintro rfl
      exact inForce
  · exact Symbol.lexical?_of_inForce grammar rfl use.named lexical use.reference inForce
  · rintro rfl
    have seen : b.visibleFrom ≤ r.node.range.start := inForce.visible.2.2
    have early := use.early
    obtain ⟨parent, above, visibleFrom⟩ := Binding.visibleFrom_rust made
    refine ⟨parent, above, ?_, ?_⟩
    · rintro rfl
      rw [if_pos (Or.inl use.inPattern.1)] at visibleFrom
      omega
    · intro kind
      rw [if_pos kind] at visibleFrom
      have := use.inPattern.start_le use.wellFormed hq above
      rw [ByteRange.contains_iff]
      omega
  · intro flat same
    obtain ⟨earlier, later, split, -⟩ := inForce.last
    have recorded : f ∈ file.scopes.declarations := by
      rw [split]
      simp
    rw [scopes] at recorded
    apply ScopeIndex.declaration_eq_of_range use.wellFormed flat recorded _ same
    rw [ScopeIndex.declarations_ofTree]
    exact List.mem_map_of_mem (Binding.mem_all.2 ⟨q, hq, made⟩)

/-- A tree of the text `let x=1;let y=2;let x=x;let (x,mut y)=(x,y);`. -/
def Tree.redeclaring : Tree :=
  .node ⟨"source_file", ⟨0, 44⟩, none⟩ [
    .node ⟨"let_declaration", ⟨0, 8⟩, none⟩ [
      .node ⟨"identifier", ⟨4, 5⟩, some "pattern"⟩ [],
      .node ⟨"integer_literal", ⟨6, 7⟩, some "value"⟩ []],
    .node ⟨"let_declaration", ⟨8, 16⟩, none⟩ [
      .node ⟨"identifier", ⟨12, 13⟩, some "pattern"⟩ [],
      .node ⟨"integer_literal", ⟨14, 15⟩, some "value"⟩ []],
    .node ⟨"let_declaration", ⟨16, 24⟩, none⟩ [
      .node ⟨"identifier", ⟨20, 21⟩, some "pattern"⟩ [],
      .node ⟨"identifier", ⟨22, 23⟩, some "value"⟩ []],
    .node ⟨"let_declaration", ⟨24, 44⟩, none⟩ [
      .node ⟨"tuple_pattern", ⟨28, 37⟩, some "pattern"⟩ [
        .node ⟨"identifier", ⟨29, 30⟩, none⟩ [],
        .node ⟨"mut_pattern", ⟨31, 36⟩, none⟩ [
          .node ⟨"mutable_specifier", ⟨31, 34⟩, none⟩ [],
          .node ⟨"identifier", ⟨35, 36⟩, none⟩ []]],
      .node ⟨"tuple_expression", ⟨38, 43⟩, some "value"⟩ [
        .node ⟨"identifier", ⟨39, 40⟩, none⟩ [],
        .node ⟨"identifier", ⟨41, 42⟩, none⟩ []]]]

/-- The file with that text. -/
def Snapshot.redeclaring : Snapshot where
  document := 0
  language := .rust
  revision := 0
  source := "let x=1;let y=2;let x=x;let (x,mut y)=(x,y);".toList
  tree := .redeclaring

namespace Redeclaring

/-- The place of that tree with some number. -/
def place (n : Nat) : Place := (Tree.redeclaring.places[n]?).getD default

/-- A binding in the one scope of that tree. -/
def binding (name : Char) (n visibleFrom : Nat) : Binding where
  space := .value
  scope := (place 0).node
  visibleFrom := visibleFrom
  name := [name]
  node := (place n).node

/-- Its declaration. -/
def declaration (name : Char) (n visibleFrom : Nat) : Declaration :=
  ScopeIndex.declarationOf .rust .redeclaring (binding name n visibleFrom)

theorem wellFormed : Tree.redeclaring.WellFormed := by decide

theorem flat : Grammar.rust.FlatIdentifiers .redeclaring := by decide

/-- An early use in that file, by what can be computed of it. -/
theorem earlyUse {name : Char} {l q r p v w : Nat}
    (places : place q ∈ Snapshot.redeclaring.places ∧ place r ∈ Snapshot.redeclaring.places ∧
      place p ∈ Snapshot.redeclaring.places)
    (bindings : Binding.of? .rust Snapshot.redeclaring.source (place q) = some (binding name q v) ∧
      Binding.of? .rust Snapshot.redeclaring.source (place r) = none ∧
      Binding.of? .rust Snapshot.redeclaring.source (place p) = some (binding name p w))
    (inPattern : (place q).InPatternOf (place l).node)
    (named : Symbol.named? .rust Snapshot.redeclaring.source (place r) = some (.value, [name]))
    (early : w ≤ (place r).node.range.start ∧ (place r).node.range.start < (place l).node.range.stop)
    (outside : ¬((place l).node.range.start ≤ (place p).node.range.start ∧
      (place p).node.range.stop ≤ (place l).node.range.stop))
    (around : (place 0).node ∈ Grammar.rust.scopesOn (place r).path) :
    EarlyUse .redeclaring (place l).node (place q) (declaration name q v) (place r)
      (declaration name p w) :=
  .of_bindings rfl wellFormed flat places.1 inPattern bindings.1 places.2.1 bindings.2.1 named early.2
    places.2.2 bindings.2.2 outside ⟨rfl, rfl, early.1⟩ around

/-- What a name in that file means. -/
theorem lexical?_eq (name : Char) {n : Nat} (hp : place n ∈ Tree.redeclaring.places)
    (named : Symbol.named? .rust Snapshot.redeclaring.source (place n) = some (.value, [name])) :
    Symbol.lexical? .redeclaring (place n) =
      some (.structural .rust 0 Snapshot.redeclaring.source .redeclaring (place n) .value [name]) := by
  rw [Symbol.lexical?_eq rfl, Snapshot.scopes_eq_ofTree rfl]
  exact Symbol.resolveIn?_ofTree 0 wellFormed flat hp named (by decide)

end Redeclaring

/-- In `let x=x;` the `x` of the initializer does not mean the one of the pattern. -/
theorem names_before_let_ends_plain :
    let d := Redeclaring.declaration 'x' 8 24
    let r := Redeclaring.place 9
    EarlyUse .redeclaring (Redeclaring.place 7).node (Redeclaring.place 8) d r
        (Redeclaring.declaration 'x' 2 8) ∧
      Symbol.lexical? .redeclaring r ≠ some (.bound 0 .value ['x'] d.range) := by
  intro d r
  have use : EarlyUse .redeclaring (Redeclaring.place 7).node (Redeclaring.place 8) d r
      (Redeclaring.declaration 'x' 2 8) := by
    apply Redeclaring.earlyUse <;> decide
  obtain ⟨f, -, means, pattern, apart⟩ := names_before_let_ends use
  refine ⟨use, ?_⟩
  intro captured
  have same : f.range = d.range := by
    rw [means] at captured
    exact (Symbol.bound.inj (Option.some.inj captured)).2.2.2
  obtain ⟨parent, above, other, -⟩ := pattern (apart Redeclaring.flat same)
  have whole : (Redeclaring.place 8).parent? = some (Redeclaring.place 7).node := by decide
  rw [whole] at above
  exact other (Option.some.inj above).symm

/-- In `let (x,mut y)=(x,y);` both names of the initializer mean the new declarations: that of `x` is visible
from the end of the tuple pattern on, and that of `y` everywhere. -/
theorem initializer_captured :
    let node := (Redeclaring.place 10).node
    let x := Redeclaring.declaration 'x' 12 37
    let y := Redeclaring.declaration 'y' 15 0
    EarlyUse .redeclaring node (Redeclaring.place 12) x (Redeclaring.place 17)
        (Redeclaring.declaration 'x' 2 8) ∧
      Symbol.lexical? .redeclaring (Redeclaring.place 17) = some (.bound 0 .value ['x'] x.range) ∧
    EarlyUse .redeclaring node (Redeclaring.place 15) y (Redeclaring.place 18)
        (Redeclaring.declaration 'y' 5 16) ∧
      Symbol.lexical? .redeclaring (Redeclaring.place 18) = some (.bound 0 .value ['y'] y.range) := by
  intro node x y
  refine ⟨?_, ?_, ?_, ?_⟩
  · apply Redeclaring.earlyUse <;> decide
  · rw [Redeclaring.lexical?_eq 'x' (by decide) (by decide)]
    decide
  · apply Redeclaring.earlyUse <;> decide
  · rw [Redeclaring.lexical?_eq 'y' (by decide) (by decide)]
    decide

end Highlight
