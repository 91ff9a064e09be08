/-!
# Positions and spans

A position is a place in a text: how many characters stand before it, and its line and column,
both counted from one. `Position.after` carries a position over a piece of text one character at
a time, and the `after_` lemmas say what that does to each of its three numbers. A span is the
range of characters that something covers, together with the line and column of its first one.
-/

set_option autoImplicit false

namespace CatScript

/-- A place in a text. -/
structure Position where
  /-- The number of characters before the place. -/
  offset : Nat
  /-- The line, from one. -/
  line : Nat
  /-- The column, from one. -/
  column : Nat
deriving DecidableEq, Repr

namespace Position

/-- The place before the first character of a text. -/
def start : Position := ⟨0, 1, 1⟩

/-- The place behind one more character. Only a line feed begins a new line. -/
def next (p : Position) (c : Char) : Position :=
  if c = '\n' then ⟨p.offset + 1, p.line + 1, 1⟩ else ⟨p.offset + 1, p.line, p.column + 1⟩

/-- The place behind a piece of text that begins at `p`. -/
def after (p : Position) (text : List Char) : Position :=
  text.foldl next p

/-- The position behind nothing. -/
@[simp] theorem after_nil (p : Position) : p.after [] = p := rfl

/-- The position behind a text is found one character at a time. -/
@[simp] theorem after_cons (p : Position) (c : Char) (text : List Char) :
    p.after (c :: text) = (p.next c).after text := rfl

/-- The position behind two texts is that behind the second one, counted from behind the first. -/
theorem after_append (p : Position) (a b : List Char) :
    p.after (a ++ b) = (p.after a).after b := by
  simp [after]

/-- Every character counts for one in the offset. -/
theorem next_offset (p : Position) (c : Char) : (p.next c).offset = p.offset + 1 := by
  unfold next; split <;> rfl

/-- Only a line feed begins another line. -/
theorem next_line (p : Position) (c : Char) :
    (p.next c).line = p.line + if c = '\n' then 1 else 0 := by
  unfold next; split <;> rfl

/-- The offset behind a text counts its characters. -/
theorem after_offset (p : Position) (text : List Char) :
    (p.after text).offset = p.offset + text.length := by
  induction text generalizing p with
  | nil => rfl
  | cons c text ih => rw [after_cons, ih, next_offset, List.length_cons]; omega

/-- The line behind a text counts its line feeds. -/
theorem after_line (p : Position) (text : List Char) :
    (p.after text).line = p.line + text.count '\n' := by
  induction text generalizing p with
  | nil => rfl
  | cons c text ih =>
    rw [after_cons, ih, next_line, List.count_cons]
    by_cases h : c = '\n'
    · simp only [h, if_true, beq_self_eq_true]
      omega
    · simp [h]

end Position

/-- The characters from `start` up to but not including `stop`, with the line and column of the
first of them. -/
structure Span where
  start : Nat
  stop : Nat
  line : Nat
  column : Nat
deriving DecidableEq, Repr

namespace Span

/-- The one character at a position. -/
def point (p : Position) : Span := ⟨p.offset, p.offset + 1, p.line, p.column⟩

/-- From the beginning of `a` through the end of `b`. -/
def through (a b : Span) : Span := ⟨a.start, b.stop, a.line, a.column⟩

/-- The span of a piece of text that begins at one position and ends at another. -/
def between (first last : Position) : Span := ⟨first.offset, last.offset, first.line, first.column⟩

/-- From one span through another one begins where the first one does. -/
@[simp] theorem through_start (a b : Span) : (a.through b).start = a.start := rfl

/-- From one span through another one ends where the second one does. -/
@[simp] theorem through_stop (a b : Span) : (a.through b).stop = b.stop := rfl

end Span

end CatScript
