import CatScript.Model.Error
import CatScript.Model.Value

/-!
# Arithmetic

What the operators do with values. Two integers give the exact integer whenever there is one within
64 bits, and otherwise the same operation on the two floats nearest to them; an integer beside a
float counts as the float nearest to it. Only a division by zero and operands of the wrong types
fail. A sum also joins two strings.
-/

set_option autoImplicit false

namespace CatScript

/-- The float nearest to an integer. -/
def Integer64.toFloat (i : Int64) : Float := Float.ofInt i.toInt

namespace Value

/-- The value behind a minus. The least integer has no integer opposite. -/
def negate : Value → Except Cause Value
  | .integer i =>
    match Integer64.ofInt? (-i.toInt) with
    | some n => .ok (.integer n)
    | none => .ok (.float (-Integer64.toFloat i))
  | .float x => .ok (.float (-x))
  | v => .error (.unsupportedOperator s!"-{v.typeName}")

end Value

namespace BinaryOp

/-- The whole number that an operation on whole numbers gives, if it gives one. -/
def onInts? (op : BinaryOp) (l r : Int) : Option Int :=
  match op with
  | .add => some (l + r)
  | .subtract => some (l - r)
  | .multiply => some (l * r)
  | .divide => if r ≠ 0 ∧ l % r = 0 then some (l / r) else none

/-- The operation on floats. -/
def onFloats (op : BinaryOp) (l r : Float) : Float :=
  match op with
  | .add => l + r
  | .subtract => l - r
  | .multiply => l * r
  | .divide => l / r

/-- The operation on two floats. A zero of either sign divides nothing. -/
def applyFloats (op : BinaryOp) (l r : Float) : Except Cause Value :=
  if op = .divide ∧ (r == 0.0) = true then .error .divisionByZero
  else .ok (.float (op.onFloats l r))

/-- The operation on two integers, which goes on with floats where it leaves the integers. -/
def applyIntegers (op : BinaryOp) (l r : Int64) : Except Cause Value :=
  if op = .divide ∧ r.toInt = 0 then .error .divisionByZero
  else
    match (op.onInts? l.toInt r.toInt).bind Integer64.ofInt? with
    | some n => .ok (.integer n)
    | none => op.applyFloats (Integer64.toFloat l) (Integer64.toFloat r)

/-- The cause of operands that an operation does not take. -/
def unsupported (op : BinaryOp) (l r : Value) : Cause :=
  .unsupportedOperator s!"{l.typeName} {op.symbol} {r.typeName}"

/-- The operation on two values. -/
def apply (op : BinaryOp) (l r : Value) : Except Cause Value :=
  match l, r with
  | .integer l, .integer r => op.applyIntegers l r
  | .integer l, .float r => op.applyFloats (Integer64.toFloat l) r
  | .float l, .integer r => op.applyFloats l (Integer64.toFloat r)
  | .float l, .float r => op.applyFloats l r
  | .string a, .string b =>
    if op = .add then .ok (.string (a ++ b)) else .error (op.unsupported l r)
  | _, _ => .error (op.unsupported l r)

end BinaryOp

end CatScript
