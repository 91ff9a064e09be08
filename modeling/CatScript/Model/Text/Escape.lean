/-!
# Characters in messages

A message shows a character in printable ASCII: a tab, a line end, a quote and a backslash with a
backslash in front, and everything beyond as `\u` and its code point in braces.
-/

set_option autoImplicit false

namespace CatScript.Text

/-- A character as a message shows it. -/
def escaped (c : Char) : List Char :=
  if c = '\t' then ['\\', 't']
  else if c = '\r' then ['\\', 'r']
  else if c = '\n' then ['\\', 'n']
  else if c = '\'' ∨ c = '"' ∨ c = '\\' then ['\\', c]
  else if 0x20 ≤ c.toNat ∧ c.toNat ≤ 0x7E then [c]
  else ['\\', 'u', '{'] ++ Nat.toDigits 16 c.toNat ++ ['}']

end CatScript.Text
