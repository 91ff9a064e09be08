import CatScript.Proofs.Syntax.Grammar

/-!
# The spans of a derivation

A derivation holds the tokens that it was made from, and so it also stands for a program with
spans.  A call, a print statement and a function reach through their closing token, everything else
through the end of its last part; parentheses around an expression lend it no span.
`Script.shape_program` says that without the spans this is the tree of the derivation.
-/

set_option autoImplicit false

namespace CatScript.Grammar

mutual

/-- The expression that a primary stands for. -/
def Primary.expr {ts rest : List Token} : Primary ts rest → Expr
  | .integer t value _ _ => .integer value t.span
  | .float t value _ _ => .float value t.span
  | .string t _ => .string t.lexeme t.span
  | .name t _ _ => .identifier t.lexeme t.span
  | .call name _ closing _ arguments =>
    .call name.lexeme arguments.exprs (name.span.through closing.span)
  | .group _ _ _ inner => inner.expr
  | .negate minus _ operand => .negate operand.expr (minus.span.through operand.expr.span)

/-- The expression that a product which goes on behind `left` stands for. -/
def Factors.expr {ts rest : List Token} : Factors ts rest → Expr → Expr
  | .done _, left => left
  | .more _ op _ factor others, left =>
    others.expr (.binary op left factor.expr (left.span.through factor.expr.span))

/-- The expression that a product stands for. -/
def Product.expr {ts rest : List Token} : Product ts rest → Expr
  | .mk first others => others.expr first.expr

/-- The expression that a sum which goes on behind `left` stands for. -/
def Summands.expr {ts rest : List Token} : Summands ts rest → Expr → Expr
  | .done _, left => left
  | .more _ op _ summand others, left =>
    others.expr (.binary op left summand.expr (left.span.through summand.expr.span))

/-- The expression that a derivation of one stands for. -/
def Expression.expr {ts rest : List Token} : Expression ts rest → Expr
  | .mk first others => others.expr first.expr

/-- The expressions that arguments stand for. -/
def Arguments.exprs {ts rest : List Token} : Arguments ts rest → List Expr
  | .none => []
  | .bare first others => first.expr :: others.exprs
  | .comma _ _ first others => first.expr :: others.exprs

end

/-- The parameters that a derivation of them stands for. -/
def Parameters.parameters {ts rest : List Token} : Parameters ts rest → List Parameter
  | .none => []
  | .bare name _ others => ⟨name.lexeme, name.span⟩ :: others.parameters
  | .comma name _ _ others => ⟨name.lexeme, name.span⟩ :: others.parameters

mutual

/-- The statement that a derivation of one stands for. -/
def Statement.stmt {ts rest : List Token} : Statement ts rest → Stmt
  | .print purr _ closing _ argument => .print argument.expr (purr.span.through closing.span)
  | .declare meow name _ _ value =>
    .declare name.lexeme value.expr (meow.span.through value.expr.span)
  | .ask woof name _ => .access name.lexeme (woof.span.through name.span)
  | .trick trick name _ _ _ right _ parameters _ body =>
    .trick name.lexeme parameters.parameters body.stmts (trick.span.through right.span)
  | .call name _ closing _ arguments =>
    .expression (.call name.lexeme arguments.exprs (name.span.through closing.span))
      (name.span.through closing.span)
  | .name t _ _ => .access t.lexeme t.span
  | .expression _ value => .expression value.expr value.expr.span

/-- The statements that a derivation of them stands for. -/
def Statements.stmts {ts rest : List Token} : Statements ts rest → List Stmt
  | .none => []
  | .more first others => first.stmt :: others.stmts

end

/-- The program that a derivation of a script stands for. -/
def Script.program {ts : List Token} (script : Script ts) : Program := ⟨script.statements.stmts⟩

mutual

/-- Without spans, the expression of a primary is its tree. -/
theorem Primary.shape_expr {ts rest : List Token} : (d : Primary ts rest) → d.expr.shape = d.tree
  | .integer .. | .float .. | .string .. | .name .. => rfl
  | .call _ _ _ _ arguments => by
    simp only [Primary.expr, Primary.tree, Expr.shape, arguments.shapes_exprs]
  | .group _ _ _ inner => by
    simp only [Primary.expr, Primary.tree, inner.shape_expr]
  | .negate _ _ operand => by
    simp only [Primary.expr, Primary.tree, Expr.shape, operand.shape_expr]

/-- The shape of further factors behind an expression is their tree behind its shape. -/
theorem Factors.shape_expr {ts rest : List Token} : (d : Factors ts rest) → ∀ left : Expr,
    (d.expr left).shape = d.tree left.shape
  | .done _, _ => rfl
  | .more _ _ _ factor others, _ => by
    simp only [Factors.expr, Factors.tree, others.shape_expr, Expr.shape, factor.shape_expr]

/-- The shape of a product is its tree. -/
theorem Product.shape_expr {ts rest : List Token} : (d : Product ts rest) → d.expr.shape = d.tree
  | .mk first others => by
    simp only [Product.expr, Product.tree, others.shape_expr, first.shape_expr]

/-- The shape of further products behind an expression is their tree behind its shape. -/
theorem Summands.shape_expr {ts rest : List Token} : (d : Summands ts rest) → ∀ left : Expr,
    (d.expr left).shape = d.tree left.shape
  | .done _, _ => rfl
  | .more _ _ _ summand others, _ => by
    simp only [Summands.expr, Summands.tree, others.shape_expr, Expr.shape, summand.shape_expr]

/-- The shape of an expression is its tree. -/
theorem Expression.shape_expr {ts rest : List Token} : (d : Expression ts rest) →
    d.expr.shape = d.tree
  | .mk first others => by
    simp only [Expression.expr, Expression.tree, others.shape_expr, first.shape_expr]

/-- The shapes of arguments are their trees. -/
theorem Arguments.shapes_exprs {ts rest : List Token} : (d : Arguments ts rest) →
    Expr.shapes d.exprs = d.trees
  | .none => rfl
  | .bare first others => by
    simp only [Arguments.exprs, Arguments.trees, Expr.shapes, first.shape_expr,
      others.shapes_exprs]
  | .comma _ _ first others => by
    simp only [Arguments.exprs, Arguments.trees, Expr.shapes, first.shape_expr,
      others.shapes_exprs]

end

/-- The names of parameters are those of their derivation. -/
theorem Parameters.map_name_parameters {ts rest : List Token} (d : Parameters ts rest) :
    d.parameters.map Parameter.name = d.names := by
  induction d with
  | none => rfl
  | bare _ _ _ ih => simp only [Parameters.parameters, Parameters.names, List.map_cons, ih]
  | comma _ _ _ _ ih => simp only [Parameters.parameters, Parameters.names, List.map_cons, ih]

mutual

/-- Without spans, a statement is its tree. -/
theorem Statement.shape_stmt {ts rest : List Token} : (d : Statement ts rest) →
    d.stmt.shape = d.tree
  | .print _ _ _ _ argument => by
    simp only [Statement.stmt, Statement.tree, Stmt.shape, argument.shape_expr]
  | .declare _ _ _ _ value => by
    simp only [Statement.stmt, Statement.tree, Stmt.shape, value.shape_expr]
  | .ask .. | .name .. => rfl
  | .trick _ _ _ _ _ _ _ parameters _ body => by
    simp only [Statement.stmt, Statement.tree, Stmt.shape, parameters.map_name_parameters,
      body.shapes_stmts]
  | .call _ _ _ _ arguments => by
    simp only [Statement.stmt, Statement.tree, Stmt.shape, Expr.shape, arguments.shapes_exprs]
  | .expression _ value => by
    simp only [Statement.stmt, Statement.tree, Stmt.shape, value.shape_expr]

/-- The shapes of statements are their trees. -/
theorem Statements.shapes_stmts {ts rest : List Token} : (d : Statements ts rest) →
    Stmt.shapes d.stmts = d.trees
  | .none => rfl
  | .more first others => by
    simp only [Statements.stmts, Statements.trees, Stmt.shapes, first.shape_stmt,
      others.shapes_stmts]

end

/-- Without spans, a program is the tree of its derivation. -/
theorem Script.shape_program {ts : List Token} (d : Script ts) : d.program.shape = d.tree :=
  d.statements.shapes_stmts

end CatScript.Grammar
