import CatScript.Model.Program
import CatScript.Proofs.Token.Joined

/-!
# Programs with other spans

The tree of a program in which every span is changed, and nothing else.  The spans of nodes are put
together with `Span.through`, so a change that goes along with it (`Span.Lifts`) turns the spans of
the parts of a node into the span of the node.
-/

set_option autoImplicit false

namespace CatScript

mutual

/-- An expression with other spans. -/
def Expr.respan (f : Span → Span) : Expr → Expr
  | .string value span => .string value (f span)
  | .integer value span => .integer value (f span)
  | .float value span => .float value (f span)
  | .identifier name span => .identifier name (f span)
  | .call function arguments span => .call function (Expr.respans f arguments) (f span)
  | .negate operand span => .negate (operand.respan f) (f span)
  | .binary op left right span => .binary op (left.respan f) (right.respan f) (f span)

/-- Expressions with other spans. -/
def Expr.respans (f : Span → Span) : List Expr → List Expr
  | [] => []
  | e :: es => e.respan f :: Expr.respans f es

end

/-- A parameter with another span. -/
def Parameter.respan (f : Span → Span) (p : Parameter) : Parameter := ⟨p.name, f p.span⟩

mutual

/-- A statement with other spans. -/
def Stmt.respan (f : Span → Span) : Stmt → Stmt
  | .print argument span => .print (argument.respan f) (f span)
  | .declare name value span => .declare name (value.respan f) (f span)
  | .access name span => .access name (f span)
  | .trick name parameters body span =>
    .trick name (parameters.map (Parameter.respan f)) (Stmt.respans f body) (f span)
  | .expression value span => .expression (value.respan f) (f span)

/-- Statements with other spans. -/
def Stmt.respans (f : Span → Span) : List Stmt → List Stmt
  | [] => []
  | s :: ss => s.respan f :: Stmt.respans f ss

end

/-- A program with other spans. -/
def Program.respan (f : Span → Span) (p : Program) : Program := ⟨Stmt.respans f p.statements⟩

/-- A change of spans that goes along with taking a span through another one. -/
def Span.Lifts (f : Span → Span) : Prop := ∀ a b : Span, f (a.through b) = (f a).through (f b)

/-- Leaving spans as they are goes along with it. -/
theorem Span.lifts_id : Span.Lifts id := fun _ _ => rfl

variable {f : Span → Span}

/-- The span of an expression is changed with those of its parts. -/
@[simp] theorem Expr.span_respan (e : Expr) : (e.respan f).span = f e.span := by
  cases e <;> rfl

/-- The span of a statement is changed with those of its parts. -/
@[simp] theorem Stmt.span_respan (s : Stmt) : (s.respan f).span = f s.span := by
  cases s <;> rfl

mutual

/-- With the spans that it has an expression is itself. -/
theorem Expr.respan_id : (e : Expr) → e.respan id = e
  | .string _ _ | .integer _ _ | .float _ _ | .identifier _ _ => rfl
  | .call _ arguments _ => by rw [Expr.respan, Expr.respans_id arguments]; rfl
  | .negate operand _ => by rw [Expr.respan, operand.respan_id]; rfl
  | .binary _ left right _ => by rw [Expr.respan, left.respan_id, right.respan_id]; rfl

/-- With the spans that they have expressions are themselves. -/
theorem Expr.respans_id : (es : List Expr) → Expr.respans id es = es
  | [] => rfl
  | e :: es => by rw [Expr.respans, e.respan_id, Expr.respans_id es]

end

mutual

/-- With the spans that it has a statement is itself. -/
theorem Stmt.respan_id : (s : Stmt) → s.respan id = s
  | .print argument _ => by rw [Stmt.respan, argument.respan_id]; rfl
  | .declare _ value _ => by rw [Stmt.respan, value.respan_id]; rfl
  | .access _ _ => rfl
  | .trick _ parameters body _ => by
    have hparameters : parameters.map (Parameter.respan id) = parameters := List.map_id parameters
    rw [Stmt.respan, hparameters, Stmt.respans_id body]
    rfl
  | .expression value _ => by rw [Stmt.respan, value.respan_id]; rfl

/-- With the spans that they have statements are themselves. -/
theorem Stmt.respans_id : (ss : List Stmt) → Stmt.respans id ss = ss
  | [] => rfl
  | s :: ss => by rw [Stmt.respans, s.respan_id, Stmt.respans_id ss]

end

end CatScript
