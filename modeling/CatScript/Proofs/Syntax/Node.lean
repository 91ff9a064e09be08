import CatScript.Model.Program

/-!
# The nodes of a program

Statements, expressions and parameters are the nodes of the tree that a program is.  `Node.children`
lists the nodes right below a node in the order in which they are written: the operands of an
operator, the arguments of a call, and the parameters of a function in front of its body.  What a
node contains is the node itself and everything below it.
-/

set_option autoImplicit false

namespace CatScript

/-- A node of the tree that a program is. -/
inductive Node
  | statement (s : Stmt)
  | expression (e : Expr)
  | parameter (p : Parameter)

namespace Node

/-- The text that a node was read from. -/
def span : Node → Span
  | .statement s => s.span
  | .expression e => e.span
  | .parameter p => p.span

/-- The nodes right below a node, in the order in which they are written. -/
def children : Node → List Node
  | .statement (.print argument _) => [.expression argument]
  | .statement (.declare _ value _) => [.expression value]
  | .statement (.access _ _) => []
  | .statement (.trick _ parameters body _) => parameters.map .parameter ++ body.map .statement
  | .statement (.expression value _) => [.expression value]
  | .expression (.call _ arguments _) => arguments.map .expression
  | .expression (.negate operand _) => [.expression operand]
  | .expression (.binary _ left right _) => [.expression left, .expression right]
  | .expression _ => []
  | .parameter _ => []

/-- A node contains itself and whatever its children contain. -/
inductive Contains : Node → Node → Prop
  | here (n : Node) : Contains n n
  | deeper {n child m : Node} (hchild : child ∈ n.children) (h : Contains child m) : Contains n m

/-- What a node contains is the node itself or is contained in one of its children. -/
theorem contains_iff (n m : Node) :
    n.Contains m ↔ m = n ∨ ∃ child ∈ n.children, child.Contains m := by
  constructor
  · intro h
    cases h with
    | here => exact .inl rfl
    | deeper hchild h => exact .inr ⟨_, hchild, h⟩
  · rintro (rfl | ⟨child, hchild, h⟩)
    · exact .here m
    · exact .deeper hchild h

end Node

/-- The topmost nodes of a program. -/
def Program.children (program : Program) : List Node := program.statements.map .statement

/-- A program contains whatever its topmost nodes contain. -/
def Program.Contains (program : Program) (n : Node) : Prop :=
  ∃ top ∈ program.children, top.Contains n

end CatScript
