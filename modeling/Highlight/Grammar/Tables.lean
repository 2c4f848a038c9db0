import Highlight.Grammar.Basic

/-!
# The grammar tables of the parsed languages

`Language.grammar` has the table of each language that is parsed; plain text has none. Where two rules of
a table speak of one place, the first one holds.
-/

namespace Highlight

namespace Grammar

/-! ## Ways to declare -/

/-- A name bound inside the parent's scope and visible in all of it. -/
def inside (parent : String) (field : Option String) : DeclarationRule :=
  ⟨parent, field, false, .hoisted⟩

/-- A name bound around the parent and visible in all of that scope. -/
def around (parent : String) (field : Option String) : DeclarationRule :=
  ⟨parent, field, true, .hoisted⟩

/-- A name bound inside the scope and visible behind the parent. -/
def later (parent : String) (field : Option String) : DeclarationRule :=
  ⟨parent, field, false, .afterDeclaration⟩

/-! ## JavaScript and TypeScript -/

/-- The scope kinds of JavaScript and TypeScript. -/
def scriptScopes : List String := [
    "program", "statement_block", "function_declaration",
    "generator_function_declaration", "function_expression", "arrow_function",
    "method_definition", "class_body", "for_statement", "for_in_statement",
    "catch_clause"]

/-- The table of JavaScript. Variables are visible behind their declarator, functions and classes in the
whole scope around them, and a pattern in shorthand names a variable. -/
def javaScript : Grammar where
  language := .javaScript
  identifiers := [
    ("identifier", .value),
    ("shorthand_property_identifier", .value),
    ("shorthand_property_identifier_pattern", .value),
    ("property_identifier", .member)]
  scopes := scriptScopes
  declarations := [
    later "variable_declarator" (some "name"),
    around "function_declaration" (some "name"),
    around "generator_function_declaration" (some "name"),
    inside "function_expression" (some "name"),
    around "class_declaration" (some "name"),
    inside "formal_parameters" none,
    inside "arrow_function" (some "parameter"),
    inside "assignment_pattern" (some "left"),
    inside "rest_pattern" none,
    inside "catch_clause" (some "parameter"),
    inside "for_in_statement" (some "left"),
    inside "import_specifier" (some "name"),
    inside "import_specifier" (some "alias"),
    inside "import_clause" none,
    inside "namespace_import" none,
    later "object_pattern" none,
    later "array_pattern" none,
    later "pair_pattern" (some "value")]
  reclassifications := []
  rebinding := .shadow
  captures := [
    "identifier", "property_identifier", "shorthand_property_identifier",
    "shorthand_property_identifier_pattern"]

/-- The table of TypeScript: that of JavaScript with types in a namespace of their own. -/
def typeScript : Grammar where
  language := .typeScript
  identifiers := [
    ("identifier", .value),
    ("shorthand_property_identifier", .value),
    ("shorthand_property_identifier_pattern", .value),
    ("property_identifier", .member),
    ("type_identifier", .type)]
  scopes := scriptScopes
  declarations := [
    later "variable_declarator" (some "name"),
    around "function_declaration" (some "name"),
    around "generator_function_declaration" (some "name"),
    inside "function_expression" (some "name"),
    around "class_declaration" (some "name"),
    around "abstract_class_declaration" (some "name"),
    around "interface_declaration" (some "name"),
    around "type_alias_declaration" (some "name"),
    around "enum_declaration" (some "name"),
    inside "type_parameter" (some "name"),
    inside "required_parameter" (some "pattern"),
    inside "optional_parameter" (some "pattern"),
    inside "arrow_function" (some "parameter"),
    inside "assignment_pattern" (some "left"),
    inside "rest_pattern" none,
    inside "catch_clause" (some "parameter"),
    inside "for_in_statement" (some "left"),
    inside "import_specifier" (some "name"),
    inside "import_specifier" (some "alias"),
    inside "import_clause" none,
    inside "namespace_import" none,
    later "object_pattern" none,
    later "array_pattern" none,
    later "pair_pattern" (some "value")]
  reclassifications := []
  rebinding := .shadow
  captures := [
    "identifier", "property_identifier", "shorthand_property_identifier",
    "shorthand_property_identifier_pattern", "type_identifier"]

/-! ## Rust -/

/-- The table of Rust. A binding of `let` is visible behind its statement and items are visible in the
whole scope around them. The front of a path names a type, the name at its end is a member, and so is the
name of a macro. -/
def rust : Grammar where
  language := .rust
  identifiers := [
    ("identifier", .value),
    ("shorthand_field_identifier", .value),
    ("type_identifier", .type),
    ("field_identifier", .member)]
  scopes := [
    "source_file", "block", "function_item", "closure_expression", "for_expression",
    "match_arm", "impl_item", "trait_item", "mod_item"]
  declarations := [
    later "let_declaration" (some "pattern"),
    inside "parameter" (some "pattern"),
    inside "mut_pattern" none,
    inside "closure_parameters" none,
    later "tuple_pattern" none,
    inside "for_expression" (some "pattern"),
    around "function_item" (some "name"),
    around "function_signature_item" (some "name"),
    around "struct_item" (some "name"),
    around "enum_item" (some "name"),
    around "union_item" (some "name"),
    around "trait_item" (some "name"),
    around "type_item" (some "name"),
    around "const_item" (some "name"),
    around "static_item" (some "name"),
    around "mod_item" (some "name"),
    inside "type_parameters" none,
    inside "type_parameter" (some "name"),
    inside "constrained_type_parameter" (some "left")]
  reclassifications := [
    ⟨"scoped_identifier", "path", .type⟩,
    ⟨"scoped_identifier", "name", .member⟩,
    ⟨"scoped_type_identifier", "name", .member⟩,
    ⟨"macro_invocation", "macro", .member⟩]
  rebinding := .shadow
  captures := [
    "identifier", "type_identifier", "field_identifier", "shorthand_field_identifier"]

/-! ## Python -/

/-- The table of Python, where assigning to a name again rebinds it. Attributes and the names of keyword
arguments are members. -/
def python : Grammar where
  language := .python
  identifiers := [("identifier", .value)]
  scopes := [
    "module", "function_definition", "class_definition", "lambda"]
  declarations := [
    later "assignment" (some "left"),
    later "augmented_assignment" (some "left"),
    later "pattern_list" none,
    later "tuple_pattern" none,
    around "function_definition" (some "name"),
    around "class_definition" (some "name"),
    inside "parameters" none,
    inside "lambda_parameters" none,
    inside "default_parameter" (some "name"),
    inside "typed_parameter" none,
    inside "typed_default_parameter" (some "name"),
    inside "list_splat_pattern" none,
    inside "dictionary_splat_pattern" none,
    inside "for_statement" (some "left"),
    inside "aliased_import" (some "alias")]
  reclassifications := [
    ⟨"keyword_argument", "name", .member⟩,
    ⟨"attribute", "attribute", .member⟩]
  rebinding := .reassign
  captures := [
    "identifier"]

end Grammar

/-- The grammar table of a parsed language. -/
def Language.grammar : Language → Option Grammar
  | .plainText => none
  | .javaScript => some Grammar.javaScript
  | .typeScript => some Grammar.typeScript
  | .rust => some Grammar.rust
  | .python => some Grammar.python

end Highlight
