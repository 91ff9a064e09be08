import CatScript.Model.Number.Decimal
import CatScript.Model.Number.Integer64
import CatScript.Model.Token
import CatScript.Proofs.Syntax.Shape

/-!
# The grammar of scripts

The grammar is layered: a sum is made of products and a product of primaries, so that precedence
is a matter of productions, and nothing here knows how a script is actually read.  A derivation
is a piece of data.  `Primary ts rest` holds the ways to derive a primary from the tokens `ts`
with `rest` left over, and the other nonterminals are families of the same kind; a production that
looks ahead at the next token looks at the head of what is left over.  `tree` is the tree that a
derivation stands for: operators group to the left, and parentheses leave no node.
-/

set_option autoImplicit false

namespace CatScript.Grammar

/-- The kind of the next token.  Behind the last token the input is at its end. -/
def ahead (ts : List Token) : TokenKind := (ts.head?.map Token.kind).getD .endOfInput

/-- The operator between two products that a kind of token stands for. -/
def sumOp? : TokenKind → Option BinaryOp
  | .plus => some .add
  | .minus => some .subtract
  | _ => none

/-- The operator between two primaries that a kind of token stands for. -/
def productOp? : TokenKind → Option BinaryOp
  | .star => some .multiply
  | .slash => some .divide
  | _ => none

mutual

/-- A literal, a name that no parenthesis follows, a call, an expression in parentheses, or a
primary behind a minus. -/
inductive Primary : List Token → List Token → Type
  | integer (t : Token) (value : Int64) {rest : List Token} (kind : t.kind = .integer)
      (reads : Integer64.ofText? t.lexeme.toList = some value) : Primary (t :: rest) rest
  | float (t : Token) (value : Float) {rest : List Token} (kind : t.kind = .float)
      (reads : Decimal.ofText? t.lexeme.toList = some value) : Primary (t :: rest) rest
  | string (t : Token) {rest : List Token} (kind : t.kind = .string) : Primary (t :: rest) rest
  | name (t : Token) {rest : List Token} (kind : t.kind = .identifier)
      (next : ahead rest ≠ .leftParen) : Primary (t :: rest) rest
  | call (name opening closing : Token) {ts rest : List Token}
      (kinds : name.kind = .identifier ∧ opening.kind = .leftParen ∧ closing.kind = .rightParen)
      (arguments : Arguments ts (closing :: rest)) : Primary (name :: opening :: ts) rest
  | group (opening closing : Token) {ts rest : List Token}
      (kinds : opening.kind = .leftParen ∧ closing.kind = .rightParen)
      (inner : Expression ts (closing :: rest)) : Primary (opening :: ts) rest
  | negate (minus : Token) {ts rest : List Token} (kind : minus.kind = .minus)
      (operand : Primary ts rest) : Primary (minus :: ts) rest

/-- The operators and further primaries of a product.  No operator of a product follows. -/
inductive Factors : List Token → List Token → Type
  | done {ts : List Token} (next : productOp? (ahead ts) = none) : Factors ts ts
  | more (t : Token) (op : BinaryOp) {ts mid rest : List Token} (kind : productOp? t.kind = some op)
      (factor : Primary ts mid) (others : Factors mid rest) : Factors (t :: ts) rest

/-- A product: a primary and further ones behind operators. -/
inductive Product : List Token → List Token → Type
  | mk {ts mid rest : List Token} (first : Primary ts mid) (others : Factors mid rest) :
      Product ts rest

/-- The operators and further products of a sum.  No operator at all follows. -/
inductive Summands : List Token → List Token → Type
  | done {ts : List Token} (next : sumOp? (ahead ts) = none ∧ productOp? (ahead ts) = none) :
      Summands ts ts
  | more (t : Token) (op : BinaryOp) {ts mid rest : List Token} (kind : sumOp? t.kind = some op)
      (summand : Product ts mid) (others : Summands mid rest) : Summands (t :: ts) rest

/-- An expression: a product and further ones behind operators. -/
inductive Expression : List Token → List Token → Type
  | mk {ts mid rest : List Token} (first : Product ts mid) (others : Summands mid rest) :
      Expression ts rest

/-- The arguments of a call, each with a comma behind it or not. -/
inductive Arguments : List Token → List Token → Type
  | none {ts : List Token} : Arguments ts ts
  | bare {ts mid rest : List Token} (first : Expression ts mid) (others : Arguments mid rest) :
      Arguments ts rest
  | comma (comma : Token) {ts mid rest : List Token} (kind : comma.kind = .comma)
      (first : Expression ts (comma :: mid)) (others : Arguments mid rest) : Arguments ts rest

end

/-- The parameters of a function, each with a comma behind it or not. -/
inductive Parameters : List Token → List Token → Type
  | none {ts : List Token} : Parameters ts ts
  | bare (name : Token) {ts rest : List Token} (kind : name.kind = .identifier)
      (others : Parameters ts rest) : Parameters (name :: ts) rest
  | comma (name comma : Token) {ts rest : List Token}
      (kinds : name.kind = .identifier ∧ comma.kind = .comma) (others : Parameters ts rest) :
      Parameters (name :: comma :: ts) rest

mutual

/-- A statement.  One that begins with a name is a call if a parenthesis follows the name, and asks
for a variable otherwise. -/
inductive Statement : List Token → List Token → Type
  | print (purr opening closing : Token) {ts rest : List Token}
      (kinds : purr.kind = .purr ∧ opening.kind = .leftParen ∧ closing.kind = .rightParen)
      (argument : Expression ts (closing :: rest)) : Statement (purr :: opening :: ts) rest
  | declare (meow name equal : Token) {ts rest : List Token}
      (kinds : meow.kind = .meow ∧ name.kind = .identifier ∧ equal.kind = .equal)
      (value : Expression ts rest) : Statement (meow :: name :: equal :: ts) rest
  | ask (woof name : Token) {rest : List Token}
      (kinds : woof.kind = .woof ∧ name.kind = .identifier) : Statement (woof :: name :: rest) rest
  | trick (trick name opening closing left right : Token) {ts mid rest : List Token}
      (head : trick.kind = .trick ∧ name.kind = .identifier ∧ opening.kind = .leftParen)
      (parameters : Parameters ts (closing :: left :: mid))
      (kinds : closing.kind = .rightParen ∧ left.kind = .leftBrace ∧ right.kind = .rightBrace)
      (body : Statements mid (right :: rest)) : Statement (trick :: name :: opening :: ts) rest
  | call (name opening closing : Token) {ts rest : List Token}
      (kinds : name.kind = .identifier ∧ opening.kind = .leftParen ∧ closing.kind = .rightParen)
      (arguments : Arguments ts (closing :: rest)) : Statement (name :: opening :: ts) rest
  | name (t : Token) {rest : List Token} (kind : t.kind = .identifier)
      (next : ahead rest ≠ .leftParen) : Statement (t :: rest) rest
  | expression {ts rest : List Token} (first : ahead ts ≠ .identifier)
      (value : Expression ts rest) : Statement ts rest

/-- Statements, one behind the other. -/
inductive Statements : List Token → List Token → Type
  | none {ts : List Token} : Statements ts ts
  | more {ts mid rest : List Token} (first : Statement ts mid) (others : Statements mid rest) :
      Statements ts rest

end

/-- A script: statements up to the first end of the input. -/
structure Script (ts : List Token) where
  rest : List Token
  statements : Statements ts rest
  next : ahead rest = .endOfInput

mutual

/-- The tree of a primary. -/
def Primary.tree {ts rest : List Token} : Primary ts rest → Expr.Shape
  | .integer _ value _ _ => .integer value
  | .float _ value _ _ => .float value
  | .string t _ => .string t.lexeme
  | .name t _ _ => .identifier t.lexeme
  | .call name _ _ _ arguments => .call name.lexeme arguments.trees
  | .group _ _ _ inner => inner.tree
  | .negate _ _ operand => .negate operand.tree

/-- The tree of a product that goes on behind `left`. -/
def Factors.tree {ts rest : List Token} : Factors ts rest → Expr.Shape → Expr.Shape
  | .done _, left => left
  | .more _ op _ factor others, left => others.tree (.binary op left factor.tree)

/-- The tree of a product. -/
def Product.tree {ts rest : List Token} : Product ts rest → Expr.Shape
  | .mk first others => others.tree first.tree

/-- The tree of a sum that goes on behind `left`. -/
def Summands.tree {ts rest : List Token} : Summands ts rest → Expr.Shape → Expr.Shape
  | .done _, left => left
  | .more _ op _ summand others, left => others.tree (.binary op left summand.tree)

/-- The tree of an expression. -/
def Expression.tree {ts rest : List Token} : Expression ts rest → Expr.Shape
  | .mk first others => others.tree first.tree

/-- The trees of arguments. -/
def Arguments.trees {ts rest : List Token} : Arguments ts rest → List Expr.Shape
  | .none => []
  | .bare first others => first.tree :: others.trees
  | .comma _ _ first others => first.tree :: others.trees

end

/-- The names of parameters. -/
def Parameters.names {ts rest : List Token} : Parameters ts rest → List String
  | .none => []
  | .bare name _ others => name.lexeme :: others.names
  | .comma name _ _ others => name.lexeme :: others.names

mutual

/-- The tree of a statement. -/
def Statement.tree {ts rest : List Token} : Statement ts rest → Stmt.Shape
  | .print _ _ _ _ argument => .print argument.tree
  | .declare _ name _ _ value => .declare name.lexeme value.tree
  | .ask _ name _ => .access name.lexeme
  | .trick _ name _ _ _ _ _ parameters _ body => .trick name.lexeme parameters.names body.trees
  | .call name _ _ _ arguments => .expression (.call name.lexeme arguments.trees)
  | .name t _ _ => .access t.lexeme
  | .expression _ value => .expression value.tree

/-- The trees of statements. -/
def Statements.trees {ts rest : List Token} : Statements ts rest → List Stmt.Shape
  | .none => []
  | .more first others => first.tree :: others.trees

end

/-- The tree of a script. -/
def Script.tree {ts : List Token} (script : Script ts) : List Stmt.Shape :=
  script.statements.trees

end CatScript.Grammar
