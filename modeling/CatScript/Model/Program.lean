import CatScript.Model.Position
import CatScript.Model.Operator

/-!
# Programs

The tree that a script stands for. Every node keeps the span of the text it was read from;
parentheses around an expression leave no node, so the span of an expression leaves them out too.
-/

set_option autoImplicit false

namespace CatScript

/-- An expression. -/
inductive Expr
  | string (value : String) (span : Span)
  | integer (value : Int64) (span : Span)
  | float (value : Float) (span : Span)
  | identifier (name : String) (span : Span)
  | call (function : String) (arguments : List Expr) (span : Span)
  | negate (operand : Expr) (span : Span)
  | binary (op : BinaryOp) (left right : Expr) (span : Span)

/-- The text that an expression was read from. -/
def Expr.span : Expr → Span
  | .string _ span | .integer _ span | .float _ span | .identifier _ span => span
  | .call _ _ span | .negate _ span | .binary _ _ _ span => span

/-- A name in the parameter list of a function. -/
structure Parameter where
  name : String
  span : Span
deriving DecidableEq, Repr

/-- A statement: `purr` prints a value, `meow` declares a variable, a bare name or one behind
`woof` asks for a variable, `trick` declares a function, and an expression is evaluated. -/
inductive Stmt
  | print (argument : Expr) (span : Span)
  | declare (name : String) (value : Expr) (span : Span)
  | access (name : String) (span : Span)
  | trick (name : String) (parameters : List Parameter) (body : List Stmt) (span : Span)
  | expression (value : Expr) (span : Span)

/-- The text that a statement was read from. -/
def Stmt.span : Stmt → Span
  | .print _ span | .declare _ _ span | .access _ span | .trick _ _ _ span
  | .expression _ span => span

/-- The statements of a script, in order. -/
structure Program where
  statements : List Stmt

/-- The span of the last statement, or of the place where a text begins if there is none. -/
def Program.lastSpan (program : Program) : Span :=
  (program.statements.getLast?.map Stmt.span).getD (Span.point Position.start)

end CatScript
