/-!
# Binary operators

The four arithmetic operators, their symbols, and how tightly they bind.
-/

set_option autoImplicit false

namespace CatScript

/-- An operator between two expressions. -/
inductive BinaryOp
  | add
  | subtract
  | multiply
  | divide
deriving DecidableEq, Repr

namespace BinaryOp

/-- How the operator is written. -/
def symbol : BinaryOp → Char
  | .add => '+'
  | .subtract => '-'
  | .multiply => '*'
  | .divide => '/'

/-- How tightly the operator binds: a product more than a sum. -/
def precedence : BinaryOp → Nat
  | .add | .subtract => 1
  | .multiply | .divide => 2

/-- Every operator binds more tightly than nothing at all. -/
theorem precedence_pos (op : BinaryOp) : 0 < op.precedence := by cases op <;> decide

/-- No operator binds more tightly than a product. -/
theorem precedence_le_two (op : BinaryOp) : op.precedence ≤ 2 := by cases op <;> decide

end BinaryOp

end CatScript
