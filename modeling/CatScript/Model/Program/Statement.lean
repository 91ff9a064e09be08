import CatScript.Model.Program.Expression

/-!
# Reading statements

The first token of a statement says what it is: one of the four keywords, a name, or the first token
of an expression. Nothing stands between two statements, so a statement ends where its last
expression or name does.
-/

set_option autoImplicit false

namespace CatScript

open Token (skipComma length_skipComma_le)

namespace Stmt

/-- The parameters of a function up to the closing parenthesis. A comma behind one is skipped. -/
def parameters : (ts : List Token) → Except Rejection (Reading (List Parameter) ts.length)
  | [] => .error ⟨.token .rightParen, [], some "Close the parameter list with ')'."⟩
  | t :: ts =>
    if t.kind = .rightParen then .ok (.leaving ts [])
    else if t.kind = .identifier then do
      let others ← parameters (skipComma ts)
      return (others.pastComma.withValue (⟨t.lexeme, t.span⟩ :: others.value)).lift
    else
      .error ⟨.token .identifier, t :: ts,
        some "Parameters are plain names separated by commas or spaces."⟩
termination_by ts => ts.length
decreasing_by exact Nat.lt_succ_of_le (length_skipComma_le ts)

/-- The rest of a print statement, behind `purr`. -/
def printOf (purr : Token) (ts : List Token) : Except Rejection (Reading Stmt ts.length) := do
  let opening ← Token.expect .leftParen
    "'purr' takes its argument in parentheses: purr(\"hello\")" ts
  let argument ← Expr.ofTokens opening.rest
  let close ← Token.expect .rightParen "Close the argument of 'purr' with ')'." argument.rest
  let statement := .print argument.value (purr.span.through close.value.span)
  return opening.behind (argument.behind (close.withValue statement).lift).lift

/-- The rest of a variable declaration, behind `meow`. -/
def declareOf (meow : Token) (ts : List Token) : Except Rejection (Reading Stmt ts.length) := do
  let name ← Token.expect .identifier "Variables are declared as: meow name = value" ts
  let equal ← Token.expect .equal
    "A declaration needs '=' followed by a value: meow name = value" name.rest
  let value ← Expr.ofTokens equal.rest
  let statement := .declare name.value.lexeme value.value (meow.span.through value.value.span)
  return name.behind (equal.behind (value.withValue statement).lift).lift

/-- The rest of a variable access, behind `woof`. -/
def accessOf (woof : Token) (ts : List Token) : Except Rejection (Reading Stmt ts.length) := do
  let name ← Token.expect .identifier
    "'woof' is followed by the name of a variable: woof name" ts
  return name.withValue (.access name.value.lexeme (woof.span.through name.value.span))

/-- The head of a function declaration, behind `trick`: a name and parameters, up to the brace that
opens the body. -/
def trickHead (ts : List Token) :
    Except Rejection (Reading (String × List Parameter) ts.length) := do
  let name ← Token.expect .identifier
    "Functions are declared as: trick name(a, b) \x7b ... \x7d" ts
  let opening ← Token.expect .leftParen
    "The parameter list of a function starts with '('." name.rest
  let params ← parameters opening.rest
  let brace ← Token.expect .leftBrace
    "A function body is enclosed in braces: \x7b ... \x7d" params.rest
  let head := (name.value.lexeme, params.value)
  return name.behind (opening.behind (params.behind (brace.withValue head).lift).lift).lift

/-- An expression as a statement of its own. -/
def expressionOf (ts : List Token) : Except Rejection (Reading Stmt ts.length) := do
  let e ← Expr.ofTokens ts
  return e.withValue (.expression e.value e.value.span)

mutual

/-- One statement. A name begins a call if a parenthesis follows it and is an access otherwise. -/
def ofTokens : (ts : List Token) → Except Rejection (Reading Stmt ts.length)
  | [] => expressionOf []
  | t :: ts =>
    match t.kind with
    | .purr => do
      let statement ← printOf t ts
      return statement.lift
    | .meow => do
      let statement ← declareOf t ts
      return statement.lift
    | .woof => do
      let statement ← accessOf t ts
      return statement.lift
    | .trick => do
      let head ← trickHead ts
      let block ← body head.rest
      let statement := .trick head.value.1 head.value.2 block.value.1
        (t.span.through block.value.2)
      return (head.behind (block.withValue statement).lift).lift
    | .identifier =>
      if Token.opensCall ts then do
        let args ← Expr.arguments ts.tail
        let span := t.span.through args.value.2
        let statement := .expression (.call t.lexeme args.value.1 span) span
        return (args.pastFirst.withValue statement).lift
      else .ok (.leaving ts (.access t.lexeme t.span))
    | _ => expressionOf (t :: ts)
termination_by ts => (ts.length, 0)
decreasing_by exact Prod.Lex.left _ _ (Nat.lt_succ_of_lt head.shorter)

/-- The statements of a function body up to the closing brace, and the span of the latter. -/
def body : (ts : List Token) → Except Rejection (Reading (List Stmt × Span) ts.length)
  | [] => .error ⟨.token .rightBrace, [], some "Close the function body with '\x7d'."⟩
  | t :: ts =>
    if t.kind = .rightBrace then .ok (.leaving ts ([], t.span))
    else do
      let first ← ofTokens (t :: ts)
      let others ← body first.rest
      let block := (first.value :: others.value.1, others.value.2)
      return first.behind (others.withValue block).lift
termination_by ts => (ts.length, 1)
decreasing_by
  · exact Prod.Lex.right _ (by decide)
  · exact Prod.Lex.left _ _ first.shorter

end

/-- Statements up to the end of the tokens. -/
def all : (ts : List Token) → Except Rejection (List Stmt)
  | [] => .ok []
  | t :: ts => do
    let first ← ofTokens (t :: ts)
    let others ← all first.rest
    return first.value :: others
termination_by ts => ts.length
decreasing_by exact first.shorter

end Stmt

end CatScript
