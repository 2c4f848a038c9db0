import Highlight.Storage.Path

/-!
# Languages

The languages whose symbols can be highlighted, plain text, and how a file's extension picks one.
-/

namespace Highlight

/-- A language of a document. -/
inductive Language where
  | plainText
  | javaScript
  | typeScript
  | rust
  | python
  deriving DecidableEq, Repr, Inhabited

namespace Language

/-- The languages that are parsed. -/
def parsed : List Language := [javaScript, typeScript, rust, python]

/-- The name shown to a reader. -/
def title : Language → String
  | plainText => "Plain Text"
  | javaScript => "JavaScript"
  | typeScript => "TypeScript"
  | rust => "Rust"
  | python => "Python"

/-- Whether occurrences of a symbol can be found in the language. -/
def supportsOccurrences : Language → Bool
  | plainText => false
  | _ => true

/-- The languages by their extensions, in lower case. -/
def extensions : List (String × Language) :=
  [("js", javaScript), ("mjs", javaScript), ("cjs", javaScript), ("jsx", javaScript),
    ("ts", typeScript), ("mts", typeScript), ("cts", typeScript),
    ("rs", rust), ("py", python), ("pyi", python)]

/-- The language of an extension in any case. All listed extensions are ASCII, and no other character has
one of their letters as its lower case, so ASCII lower case decides. -/
def ofExtension (extension : Text) : Language :=
  (extensions.lookup (String.ofList (extension.map Char.toLower))).getD plainText

/-- The language of a file by its path. -/
def ofPath (path : Path) : Language :=
  match path.extension? with
  | some extension => ofExtension extension
  | none => plainText

end Language

end Highlight
