/-!
# Blanks

The characters that separate tokens and that are trimmed from the ends of a line: the
`White_Space` property of Unicode, which is a fixed list of twenty-five characters.
-/

set_option autoImplicit false

namespace CatScript.Text

/-- Whether a character has the `White_Space` property. -/
def isBlank (c : Char) : Bool :=
  let n := c.toNat
  (0x09 ≤ n && n ≤ 0x0D) || n == 0x20 || n == 0x85 || n == 0xA0 || n == 0x1680 ||
    (0x2000 ≤ n && n ≤ 0x200A) || n == 0x2028 || n == 0x2029 || n == 0x202F || n == 0x205F ||
    n == 0x3000

/-- A text without the blanks at its two ends. -/
def trim (text : List Char) : List Char :=
  ((text.dropWhile isBlank).reverse.dropWhile isBlank).reverse

/-- Nothing is left of nothing. -/
@[simp] theorem trim_nil : trim [] = [] := rfl

end CatScript.Text
