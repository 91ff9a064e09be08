/-!
# Lines of a text

Where a diagnostic says that a character stands. In this the lines are those of ariadne, which draws
the diagnostics, and not those of the tokens: a line ends behind a line feed, a carriage return,
both of them together, a vertical tab, a form feed, or one of the three line ends of Unicode beyond
ASCII (U+0085, U+2028, U+2029). The end of the text lies on the last line that has characters, even
if that line is ended.
-/

set_option autoImplicit false

namespace CatScript.Text

/-- Whether a line ends behind a character that stands before another one. -/
def endsLine (c next : Char) : Bool :=
  if c = '\r' then next != '\n'
  else
    let n := c.toNat
    n == 0x0A || n == 0x0B || n == 0x0C || n == 0x85 || n == 0x2028 || n == 0x2029

/-- The line and column, from one, of the character at an offset, in a text that begins at the
given line and column. -/
def locateFrom (line column : Nat) : List Char → Nat → Nat × Nat
  | c :: next :: rest, offset + 1 =>
    if endsLine c next then locateFrom (line + 1) 1 (next :: rest) offset
    else locateFrom line (column + 1) (next :: rest) offset
  | [_], _ + 1 => (line, column + 1)
  | _, _ => (line, column)

/-- The line and column of the character at an offset, which is counted in characters. As ariadne
has it, what ends a line stands on that line, and an offset at the end of the text is the place
behind its last character, on the line of that character. -/
def locate (text : List Char) (offset : Nat) : Nat × Nat := locateFrom 1 1 text offset

/-- The pieces of a list between the places where an element stands. -/
def split {α : Type} [DecidableEq α] (mark : α) : List α → List (List α)
  | [] => [[]]
  | a :: rest =>
    if a = mark then [] :: split mark rest
    else
      match split mark rest with
      | [] => [[a]]
      | piece :: others => (a :: piece) :: others

/-- The pieces of a list that end with an element, without it, and behind them what is left over
unless that is nothing. -/
def lines {α : Type} [DecidableEq α] (mark : α) : List α → List (List α)
  | [] => []
  | a :: rest =>
    if a = mark then [] :: lines mark rest
    else
      match lines mark rest with
      | [] => [[a]]
      | line :: others => (a :: line) :: others

end CatScript.Text
