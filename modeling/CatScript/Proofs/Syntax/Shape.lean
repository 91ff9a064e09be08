import CatScript.Model.Program

/-!
# The shape of a program

Two scripts that differ only in where their tokens stand have the same meaning, and most of what
can be said about the reading of a script is said up to those places.  A shape is a program
without its spans: `Expr.shape`, `Stmt.shape` and `Program.shape` take the spans away and keep
everything else, so that equality of shapes is equality of programs up to spans.
-/

set_option autoImplicit false

namespace CatScript

/-- An expression without spans. -/
inductive Expr.Shape
  | string (value : String)
  | integer (value : Int64)
  | float (value : Float)
  | identifier (name : String)
  | call (function : String) (arguments : List Expr.Shape)
  | negate (operand : Expr.Shape)
  | binary (op : BinaryOp) (left right : Expr.Shape)

/-- A statement without spans. -/
inductive Stmt.Shape
  | print (argument : Expr.Shape)
  | declare (name : String) (value : Expr.Shape)
  | access (name : String)
  | trick (name : String) (parameters : List String) (body : List Stmt.Shape)
  | expression (value : Expr.Shape)

mutual

/-- What is left of an expression without its spans. -/
def Expr.shape : Expr → Expr.Shape
  | .string value _ => .string value
  | .integer value _ => .integer value
  | .float value _ => .float value
  | .identifier name _ => .identifier name
  | .call function arguments _ => .call function (Expr.shapes arguments)
  | .negate operand _ => .negate operand.shape
  | .binary op left right _ => .binary op left.shape right.shape

/-- What is left of expressions without their spans. -/
def Expr.shapes : List Expr → List Expr.Shape
  | [] => []
  | e :: es => e.shape :: Expr.shapes es

end

mutual

/-- What is left of a statement without its spans. -/
def Stmt.shape : Stmt → Stmt.Shape
  | .print argument _ => .print argument.shape
  | .declare name value _ => .declare name value.shape
  | .access name _ => .access name
  | .trick name parameters body _ =>
    .trick name (parameters.map Parameter.name) (Stmt.shapes body)
  | .expression value _ => .expression value.shape

/-- What is left of statements without their spans. -/
def Stmt.shapes : List Stmt → List Stmt.Shape
  | [] => []
  | s :: ss => s.shape :: Stmt.shapes ss

end

/-- What is left of a program without its spans. -/
def Program.shape (program : Program) : List Stmt.Shape := Stmt.shapes program.statements

end CatScript
