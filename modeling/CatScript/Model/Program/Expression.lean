import CatScript.Model.Number.Decimal
import CatScript.Model.Number.Integer64
import CatScript.Model.Program
import CatScript.Model.Program.Reading

/-!
# Reading expressions

An operator expression is read by precedence climbing: `operand` reads what stands between two
operators, and `chain floor` keeps folding operators that bind tighter than `floor` onto what it
has read, so that operators of equal precedence group to the left.
-/

set_option autoImplicit false

namespace CatScript

open Token (skipComma length_skipComma_le)

namespace Expr

/-- The help for a token that begins no expression. -/
def helpFor : TokenKind → String
  | .rightParen => "Found ')' without matching '('. Check for unbalanced parentheses."
  | .rightBrace => "Found '\x7d' without matching '\x7b'. Check for unbalanced braces."
  | .endOfInput => "Reached end of input while expecting an expression."
  | _ => "Expected a literal value, variable, or parenthesized expression here."

/-- The help for an integer that is too large. -/
def rangeHelp : String :=
  "Integer literals must lie between -9223372036854775808 and 9223372036854775807."

/-- The help for a call that is not closed. -/
def callHelp : String :=
  "Function calls must be closed with ')' after the arguments. Example: func(arg1, arg2)"

/-- The help for a parenthesis that is not closed. -/
def groupHelp : String :=
  "Every opening parenthesis '(' must have a matching closing parenthesis ')'."

/-- The help for an operator without a right operand. -/
def operandHelp (lexeme : String) : String :=
  s!"Arithmetic operators like '{lexeme}' require expressions on both sides."

mutual

/-- A literal, a name, a call, an expression in parentheses, or one of these behind a minus. -/
def operand : (ts : List Token) → Except Rejection (Reading Expr ts.length)
  | [] => .error ⟨.expression, [], some (helpFor .endOfInput)⟩
  | t :: ts =>
    match t.kind with
    | .minus => do
      let e ← operand ts
      return (e.withValue (.negate e.value (t.span.through e.value.span))).lift
    | .integer =>
      match Integer64.ofText? t.lexeme.toList with
      | some i => .ok (.leaving ts (.integer i t.span))
      | none => .error ⟨.integerInRange, t :: ts, some rangeHelp⟩
    | .float =>
      match Decimal.ofText? t.lexeme.toList with
      | some x => .ok (.leaving ts (.float x t.span))
      | none => .error ⟨.expression, t :: ts, none⟩
    | .string => .ok (.leaving ts (.string t.lexeme t.span))
    | .identifier =>
      if Token.opensCall ts then do
        let args ← arguments ts.tail
        let call := .call t.lexeme args.value.1 (t.span.through args.value.2)
        return (args.pastFirst.withValue call).lift
      else .ok (.leaving ts (.identifier t.lexeme t.span))
    | .leftParen => do
      let e ← climb 0 ts
      let close ← Token.expect .rightParen groupHelp e.rest
      return (e.behind (close.withValue e.value).lift).lift
    | kind => .error ⟨.expression, t :: ts, some (helpFor kind)⟩
termination_by ts => (ts.length, 0)
decreasing_by
  · exact Prod.Lex.left _ _ (Nat.lt_succ_self _)
  · exact Prod.Lex.left _ _ (by rw [List.length_tail, List.length_cons]; omega)
  · exact Prod.Lex.left _ _ (Nat.lt_succ_self _)

/-- The arguments of a call up to its closing parenthesis, and the span of the latter. A comma
behind an argument is skipped. -/
def arguments : (ts : List Token) → Except Rejection (Reading (List Expr × Span) ts.length)
  | [] => .error ⟨.token .rightParen, [], some callHelp⟩
  | t :: ts =>
    if t.kind = .rightParen then .ok (.leaving ts ([], t.span))
    else do
      let e ← climb 0 (t :: ts)
      let others ← arguments (skipComma e.rest)
      let all := (e.value :: others.value.1, others.value.2)
      return e.behind (others.pastComma.withValue all).lift
termination_by ts => (ts.length, 2)
decreasing_by
  · exact Prod.Lex.right _ (by decide)
  · exact Prod.Lex.left _ _ (Nat.lt_of_le_of_lt (length_skipComma_le e.rest) e.shorter)

/-- Operands with operators between them that bind tighter than `floor`. -/
def climb (floor : Nat) (ts : List Token) : Except Rejection (Reading Expr ts.length) := do
  let first ← operand ts
  let all ← chain floor first.value first.rest
  return first.behind all
termination_by (ts.length, 1)
decreasing_by
  · exact Prod.Lex.right _ (by decide)
  · exact Prod.Lex.left _ _ first.shorter

/-- An expression continued by every operator that binds tighter than `floor`. -/
def chain (floor : Nat) (left : Expr) :
    (ts : List Token) → Except Rejection (Reading Expr (ts.length + 1))
  | [] => .ok (.leaving [] left)
  | t :: ts =>
    match t.kind.operator? with
    | none => .ok (.leaving (t :: ts) left)
    | some op =>
      if floor < op.precedence then do
        let right ← (climb op.precedence ts).mapError (·.orHelp (operandHelp t.lexeme))
        let folded := .binary op left right.value (left.span.through right.value.span)
        let all ← chain floor folded right.rest
        return (right.behind all).lift.lift
      else .ok (.leaving (t :: ts) left)
termination_by ts => (ts.length, 0)
decreasing_by
  · exact Prod.Lex.left _ _ (Nat.lt_succ_self _)
  · exact Prod.Lex.left _ _ (Nat.lt_succ_of_lt right.shorter)

end

/-- A whole expression. -/
def ofTokens (ts : List Token) : Except Rejection (Reading Expr ts.length) := climb 0 ts

end Expr

end CatScript
