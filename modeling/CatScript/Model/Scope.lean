import CatScript.Model.Arithmetic
import CatScript.Model.Bindings
import CatScript.Model.Program

/-!
# Scopes and the evaluation of expressions

A scope says which value every variable has and which functions are declared; these are two separate
sets of names. An expression is evaluated in a scope and changes nothing. Its operands are evaluated
from left to right before its operator is applied, and the first failure is the result. No function
is ever called, so the arguments of a call are not looked at.
-/

set_option autoImplicit false

namespace CatScript

/-- What the names in a script mean. -/
structure Scope where
  /-- The values of the variables. -/
  bindings : Bindings Value
  /-- The declared functions with the number of their parameters. No function is ever called, so
  the number is kept and never asked for. -/
  functions : Bindings Nat

namespace Scope

/-- The scope in which no name means anything. -/
def empty : Scope := ⟨Bindings.empty, Bindings.empty⟩

/-- The scope in which a variable has a value. -/
def define (scope : Scope) (name : String) (value : Value) : Scope :=
  { scope with bindings := scope.bindings.bind name value }

/-- The scope in which a function of so many parameters is declared. -/
def declare (scope : Scope) (name : String) (arity : Nat) : Scope :=
  { scope with functions := scope.functions.bind name arity }

/-- The value of a variable, asked for at a span. -/
def lookup (scope : Scope) (name : String) (span : Span) : Except Error Value :=
  match scope.bindings.get? name with
  | some value => .ok value
  | none => .error (.of (.undefinedVariable name) span)

/-- Why a call fails: the name is undeclared, or declared to no avail. -/
def callCause (scope : Scope) (name : String) : Cause :=
  if scope.functions.contains name then .unsupportedCall name else .undefinedFunction name

end Scope

/-- The value of an expression in a scope, or the first failure from left to right. -/
def Expr.eval (scope : Scope) : Expr → Except Error Value
  | .string s _ => .ok (.string s)
  | .integer i _ => .ok (.integer i)
  | .float x _ => .ok (.float x)
  | .identifier name span => scope.lookup name span
  | .call name _ span => .error (.of (scope.callCause name) span)
  | .negate operand span =>
    match operand.eval scope with
    | .error e => .error e
    | .ok v => v.negate.mapError (Error.of · span)
  | .binary op left right span =>
    match left.eval scope with
    | .error e => .error e
    | .ok l =>
      match right.eval scope with
      | .error e => .error e
      | .ok r => (op.apply l r).mapError (Error.of · span)

end CatScript
