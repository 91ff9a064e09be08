import CatScript.Model.Error

/-!
# Readings and rejections

A function that reads something from tokens answers with what it read and the tokens behind it, of
which there are fewer than before (`Reading.shorter`), or with the `Rejection` of the token at which
no program can go on. Since a reading is shorter than what it was read from, reading on always ends.
-/

set_option autoImplicit false

namespace CatScript

/-- The point at which reading stops: what should have stood there, the rejected token and those
behind it (none at the end of the input), and a help. -/
structure Rejection where
  expected : Expected
  rest : List Token
  help : Option String

namespace Rejection

/-- A rejection with a help for the case that it has none. -/
def orHelp (r : Rejection) (help : String) : Rejection :=
  { r with help := r.help.or (some help) }

/-- The error that a rejection stands for, in a script that ends at `finish`. -/
def error (r : Rejection) (finish : Span) : Error :=
  match r.rest with
  | [] => ⟨.unexpectedToken r.expected .endOfInput, finish, r.help⟩
  | t :: _ => ⟨.unexpectedToken r.expected t.kind, t.span, r.help⟩

end Rejection

/-- Something that was read, and the tokens behind it, fewer than `bound`. -/
structure Reading (α : Type) (bound : Nat) where
  value : α
  rest : List Token
  shorter : rest.length < bound

namespace Token

/-- Whether the tokens behind a name begin with the parenthesis that makes it a call. -/
def opensCall (ts : List Token) : Bool := ts.head?.any (·.kind = .leftParen)

/-- The tokens behind a comma, if one stands here. -/
def skipComma : List Token → List Token
  | [] => []
  | t :: ts => if t.kind = .comma then ts else t :: ts

/-- Skipping a comma never adds tokens. -/
theorem length_skipComma_le (ts : List Token) : (skipComma ts).length ≤ ts.length := by
  unfold skipComma
  split
  · simp
  · split <;> simp

end Token

namespace Reading

variable {α β : Type} {n : Nat}

/-- A value with the given tokens behind it. -/
def leaving (rest : List Token) (value : α) : Reading α (rest.length + 1) :=
  ⟨value, rest, Nat.lt_succ_self rest.length⟩

/-- Another value with the same tokens behind it. -/
def withValue (r : Reading α n) (value : β) : Reading β n := ⟨value, r.rest, r.shorter⟩

/-- A reading behind one more token. -/
def lift (r : Reading α n) : Reading α (n + 1) := ⟨r.value, r.rest, Nat.lt_succ_of_lt r.shorter⟩

/-- A reading that goes on, or stays, where a first one ends. -/
def behind (first : Reading α n) (second : Reading β (first.rest.length + 1)) : Reading β n :=
  ⟨second.value, second.rest, Nat.lt_of_lt_of_le second.shorter first.shorter⟩

/-- A reading behind a comma, if one stands there. -/
def pastComma {ts : List Token} (r : Reading α (Token.skipComma ts).length) :
    Reading α ts.length :=
  ⟨r.value, r.rest, Nat.lt_of_lt_of_le r.shorter (Token.length_skipComma_le ts)⟩

/-- A reading behind the first token. -/
def pastFirst {ts : List Token} (r : Reading α ts.tail.length) : Reading α ts.length :=
  ⟨r.value, r.rest, Nat.lt_of_lt_of_le r.shorter (ts.length_tail ▸ Nat.sub_le ts.length 1)⟩

/-- What was read is the value. -/
@[simp] theorem leaving_value (rest : List Token) (value : α) :
    (leaving rest value).value = value := rfl

/-- What is left are the given tokens. -/
@[simp] theorem leaving_rest (rest : List Token) (value : α) :
    (leaving rest value).rest = rest := rfl

/-- What was read is exchanged. -/
@[simp] theorem withValue_value (r : Reading α n) (value : β) :
    (r.withValue value).value = value := rfl

/-- Exchanging what was read leaves the same tokens. -/
@[simp] theorem withValue_rest (r : Reading α n) (value : β) :
    (r.withValue value).rest = r.rest := rfl

/-- A reading behind one more token reads the same. -/
@[simp] theorem lift_value (r : Reading α n) : r.lift.value = r.value := rfl

/-- A reading behind one more token leaves the same. -/
@[simp] theorem lift_rest (r : Reading α n) : r.lift.rest = r.rest := rfl

/-- Of two readings one behind the other, the value is that of the second. -/
@[simp] theorem behind_value (first : Reading α n) (second : Reading β (first.rest.length + 1)) :
    (first.behind second).value = second.value := rfl

/-- Of two readings one behind the other, the second says what is left. -/
@[simp] theorem behind_rest (first : Reading α n) (second : Reading β (first.rest.length + 1)) :
    (first.behind second).rest = second.rest := rfl

/-- A comma in front does not change what is read. -/
@[simp] theorem pastComma_value {ts : List Token} (r : Reading α (Token.skipComma ts).length) :
    r.pastComma.value = r.value := rfl

/-- A comma in front does not change what is left. -/
@[simp] theorem pastComma_rest {ts : List Token} (r : Reading α (Token.skipComma ts).length) :
    r.pastComma.rest = r.rest := rfl

/-- A first token in front does not change what is read. -/
@[simp] theorem pastFirst_value {ts : List Token} (r : Reading α ts.tail.length) :
    r.pastFirst.value = r.value := rfl

/-- A first token in front does not change what is left. -/
@[simp] theorem pastFirst_rest {ts : List Token} (r : Reading α ts.tail.length) :
    r.pastFirst.rest = r.rest := rfl

end Reading

/-- One token of a kind that has to stand here. -/
def Token.expect (kind : TokenKind) (help : String) :
    (ts : List Token) → Except Rejection (Reading Token ts.length)
  | [] => .error ⟨.token kind, [], some help⟩
  | t :: ts =>
    if t.kind = kind then .ok (.leaving ts t) else .error ⟨.token kind, t :: ts, some help⟩

end CatScript
