import Highlight.Text.Basic

/-!
# Quoted texts

A name in a message stands between double quotes, with quotes, backslashes and control characters
escaped. Only the controls of ASCII are known here: names in messages are ASCII.
-/

namespace Highlight.Quoted

/-- One character as it is written between quotes. -/
def escape (c : Char) : List Char :=
  if c = '"' then ['\\', '"']
  else if c = '\\' then ['\\', '\\']
  else if c = '\n' then ['\\', 'n']
  else if c = '\r' then ['\\', 'r']
  else if c = '\t' then ['\\', 't']
  else if c = '\x00' then ['\\', '0']
  else if c.toNat < 0x20 || c.toNat = 0x7f then
    ['\\', 'u', '\x7b'] ++ Nat.toDigits 16 c.toNat ++ ['\x7d']
  else [c]

/-- The text between quotes. -/
def quote (t : Text) : String := String.ofList (['"'] ++ t.flatMap escape ++ ['"'])

end Highlight.Quoted
