import CatScript.Model.Program.OfTokens

/-!
# Reading with a cursor

The functions that read a program can be run on a list of tokens that stays as it is, with a cursor
that says how many of them are behind.  Then nothing keeps the cursor among the tokens but the way
in which it is moved.  So every step is watched here.  To look at a place where no token stands is
a fault (`Fault.offTokens`); so is a cursor behind the first end of the input (`Fault.strayed`);
and so is a statement, an expression, a primary, or a round of one of the four loops, that is done
without having moved the cursor (`Fault.stuck`).  All of this is checked where the cursor arrives
(`arrive`), and what was checked is kept in `Moved`: the recursion needs nothing else in order to
end.
-/

set_option autoImplicit false

open CatScript.Expr (helpFor rangeHelp callHelp groupHelp operandHelp)

namespace CatScript.Cursor

/-- What must never happen to a cursor. -/
inductive Fault
  | offTokens
  | strayed
  | stuck
deriving DecidableEq, Repr

/-- Why reading stops: something that must never happen, or a token that cannot stand there. -/
inductive Halt
  | fault (fault : Fault)
  | rejected (error : Error)

/-- A help for the case that a rejection has none. -/
def Halt.orHelp (help : String) : Halt → Halt
  | .fault f => .fault f
  | .rejected e => .rejected { e with help := e.help.or (some help) }

/-- The tokens with an end of the input behind them, if the last one is none: just behind the last
token, or where a text begins. -/
def closed (tokens : List Token) : List Token :=
  match tokens.getLast? with
  | none => [⟨.endOfInput, "", Span.point Position.start⟩]
  | some last =>
    if last.kind = .endOfInput then tokens
    else tokens ++ [⟨.endOfInput, "", Span.point ⟨last.span.stop, last.line, last.column⟩⟩]

/-- The tokens up to and including the first end of the input, where there is one. -/
def heard (tokens : List Token) : List Token :=
  tokens.take (tokens.findIdx (·.kind = .endOfInput) + 1)

section

variable (tokens : List Token)

/-- The place of the first end of the input. -/
def finish : Nat := tokens.findIdx (·.kind = .endOfInput)

/-- Something that was read, and the cursor behind it: no less than `low`, and not behind the first
end of the input. -/
structure Moved (low : Nat) (α : Type) where
  value : α
  stop : Nat
  further : low ≤ stop
  inside : stop ≤ finish tokens

variable {α β : Type}

/-- The cursor arrives at a place, where it has to have moved to `low` at least. -/
def arrive (low stop : Nat) (value : α) : Except Halt (Moved tokens low α) :=
  if further : low ≤ stop then
    if inside : stop ≤ finish tokens then .ok ⟨value, stop, further, inside⟩
    else .error (.fault .strayed)
  else .error (.fault .stuck)

/-- The token at a place. -/
def look (i : Nat) : Except Halt Token :=
  match tokens[i]? with
  | some t => .ok t
  | none => .error (.fault .offTokens)

/-- Whether a token of a kind stands behind the cursor. -/
def nextIs (kind : TokenKind) (i : Nat) : Bool := tokens[i + 1]?.any (·.kind = kind)

/-- Over one token, which is not the end of the input. -/
def advance (i : Nat) : Except Halt (Moved tokens (i + 1) Token) := do
  let t ← look tokens i
  let stop := if t.kind = .endOfInput then i else i + 1
  let previous ← look tokens (stop - 1)
  arrive tokens (i + 1) stop previous

/-- A token is rejected.  The end of the input is rejected just behind the token before it. -/
def reject (i : Nat) (expected : Expected) (t : Token) (help : Option String) :
    Except Halt α := do
  if t.kind = .endOfInput ∧ 0 < i then
    let last ← look tokens (i - 1)
    let span := Span.point ⟨last.span.stop, t.line, t.column⟩
    .error (.rejected ⟨.unexpectedToken expected t.kind, span, help⟩)
  else .error (.rejected ⟨.unexpectedToken expected t.kind, t.span, help⟩)

/-- Over one token of a kind that has to stand here. -/
def consume (kind : TokenKind) (help : String) (i : Nat) :
    Except Halt (Moved tokens (i + 1) Token) := do
  let t ← look tokens i
  if t.kind = kind then advance tokens i else reject tokens i (.token kind) t (some help)

/-- Over a comma, if one stands here. -/
def skipComma (i : Nat) : Except Halt Nat := do
  let t ← look tokens i
  if t.kind = .comma then
    let comma ← advance tokens i
    return comma.stop
  else return i

/-- What the rounds of a loop read, and behind it the token at which the loop has to end. -/
def upTo {i : Nat} (kind : TokenKind) (help : String) (f : α → Token → β)
    (rounds : Except Halt (Moved tokens i α)) : Except Halt (Moved tokens (i + 1) β) := do
  let all ← rounds
  let close ← consume tokens kind help all.stop
  arrive tokens (i + 1) close.stop (f all.value close.value)

mutual

/-- A literal, a name, a call, an expression in parentheses, or one of these behind a minus. -/
def primary (i : Nat) : Except Halt (Moved tokens (i + 1) Expr) := do
  let t ← look tokens i
  match t.kind with
  | .minus =>
    let first ← advance tokens i
    let e ← primary first.stop
    arrive tokens (i + 1) e.stop (.negate e.value (t.span.through e.value.span))
  | .integer =>
    let first ← advance tokens i
    match Integer64.ofText? t.lexeme.toList with
    | some n => arrive tokens (i + 1) first.stop (.integer n t.span)
    | none => reject tokens first.stop .integerInRange t (some rangeHelp)
  | .float =>
    let first ← advance tokens i
    match Decimal.ofText? t.lexeme.toList with
    | some x => arrive tokens (i + 1) first.stop (.float x t.span)
    | none => reject tokens first.stop .expression t none
  | .string =>
    let first ← advance tokens i
    arrive tokens (i + 1) first.stop (.string t.lexeme t.span)
  | .identifier =>
    let first ← advance tokens i
    let next ← look tokens first.stop
    if next.kind = .leftParen then
      let call ← finishCall t first.stop
      arrive tokens (i + 1) call.stop call.value
    else arrive tokens (i + 1) first.stop (.identifier t.lexeme t.span)
  | .leftParen =>
    let first ← advance tokens i
    let e ← expression first.stop
    let close ← consume tokens .rightParen groupHelp e.stop
    arrive tokens (i + 1) close.stop e.value
  | kind => reject tokens i .expression t (some (helpFor kind))
termination_by (finish tokens - i, 0)
decreasing_by
  all_goals
    have := first.further
    have := first.inside
    exact Prod.Lex.left _ _ (by omega)

/-- The rest of a call, behind its name. -/
def finishCall (name : Token) (i : Nat) : Except Halt (Moved tokens (i + 1) Expr) := do
  let opening ← consume tokens .leftParen "A call needs '(' after the name." i
  let args ← upTo tokens .rightParen callHelp (fun args close => (args, close.span))
    (arguments opening.stop)
  arrive tokens (i + 1) args.stop
    (.call name.lexeme args.value.1 (name.span.through args.value.2))
termination_by (finish tokens - i, 0)
decreasing_by
  have := opening.further
  have := opening.inside
  exact Prod.Lex.left _ _ (by omega)

/-- The arguments of a call up to a closing parenthesis or the end of the input. -/
def arguments (i : Nat) : Except Halt (Moved tokens i (List Expr)) := do
  let t ← look tokens i
  if t.kind = .rightParen ∨ t.kind = .endOfInput then arrive tokens i i []
  else
    let e ← expression i
    let stop ← skipComma tokens e.stop
    let round ← arrive tokens (i + 1) stop e.value
    let others ← arguments round.stop
    arrive tokens i others.stop (round.value :: others.value)
termination_by (finish tokens - i, 3)
decreasing_by
  · exact Prod.Lex.right _ (by decide)
  · have := round.further
    have := round.inside
    exact Prod.Lex.left _ _ (by omega)

/-- A whole expression. -/
def expression (i : Nat) : Except Halt (Moved tokens (i + 1) Expr) := binary 0 i
termination_by (finish tokens - i, 2)
decreasing_by exact Prod.Lex.right _ (by decide)

/-- Operands with operators between them that bind tighter than `floor`. -/
def binary (floor : Nat) (i : Nat) : Except Halt (Moved tokens (i + 1) Expr) := do
  let first ← primary i
  let all ← operators floor first.value first.stop
  arrive tokens (i + 1) all.stop all.value
termination_by (finish tokens - i, 1)
decreasing_by
  · exact Prod.Lex.right _ (by decide)
  · have := first.further
    have := first.inside
    exact Prod.Lex.left _ _ (by omega)

/-- An expression continued by every operator that binds tighter than `floor`. -/
def operators (floor : Nat) (left : Expr) (i : Nat) : Except Halt (Moved tokens i Expr) := do
  let t ← look tokens i
  match t.kind.operator? with
  | none => arrive tokens i i left
  | some op =>
    if floor < op.precedence then
      let first ← advance tokens i
      let right ← (binary op.precedence first.stop).mapError (Halt.orHelp (operandHelp t.lexeme))
      let folded := .binary op left right.value (left.span.through right.value.span)
      let round ← arrive tokens (i + 1) right.stop folded
      let all ← operators floor round.value round.stop
      arrive tokens i all.stop all.value
    else arrive tokens i i left
termination_by (finish tokens - i, 0)
decreasing_by
  · have := first.further
    have := first.inside
    exact Prod.Lex.left _ _ (by omega)
  · have := round.further
    have := round.inside
    exact Prod.Lex.left _ _ (by omega)

end

/-- The parameters of a function up to a closing parenthesis or the end of the input. -/
def parameters (i : Nat) : Except Halt (Moved tokens i (List Parameter)) := do
  let t ← look tokens i
  if t.kind = .rightParen ∨ t.kind = .endOfInput then arrive tokens i i []
  else
    let name ← consume tokens .identifier
      "Parameters are plain names separated by commas or spaces." i
    let stop ← skipComma tokens name.stop
    let round ← arrive tokens (i + 1) stop (⟨name.value.lexeme, name.value.span⟩ : Parameter)
    let others ← parameters round.stop
    arrive tokens i others.stop (round.value :: others.value)
termination_by finish tokens - i
decreasing_by
  have := round.further
  have := round.inside
  omega

/-- The head of a function, up to the brace that opens its body. -/
def functionHead (i : Nat) : Except Halt (Moved tokens (i + 1) (String × List Parameter)) := do
  let name ← consume tokens .identifier
    "Functions are declared as: trick name(a, b) \x7b ... \x7d" i
  let opening ← consume tokens .leftParen
    "The parameter list of a function starts with '('." name.stop
  let params ← upTo tokens .rightParen "Close the parameter list with ')'."
    (fun params _ => params) (parameters tokens opening.stop)
  let brace ← consume tokens .leftBrace
    "A function body is enclosed in braces: \x7b ... \x7d" params.stop
  arrive tokens (i + 1) brace.stop (name.value.lexeme, params.value)

mutual

/-- One statement. -/
def statement (i : Nat) : Except Halt (Moved tokens (i + 1) Stmt) := do
  let t ← look tokens i
  match t.kind with
  | .purr =>
    let purr ← advance tokens i
    let opening ← consume tokens .leftParen
      "'purr' takes its argument in parentheses: purr(\"hello\")" purr.stop
    let e ← expression tokens opening.stop
    let close ← consume tokens .rightParen "Close the argument of 'purr' with ')'." e.stop
    arrive tokens (i + 1) close.stop
      (.print e.value (purr.value.span.through close.value.span))
  | .meow =>
    let meow ← advance tokens i
    let name ← consume tokens .identifier "Variables are declared as: meow name = value" meow.stop
    let equal ← consume tokens .equal
      "A declaration needs '=' followed by a value: meow name = value" name.stop
    let e ← expression tokens equal.stop
    arrive tokens (i + 1) e.stop
      (.declare name.value.lexeme e.value (meow.value.span.through e.value.span))
  | .trick =>
    let trick ← advance tokens i
    let head ← functionHead tokens trick.stop
    let block ← upTo tokens .rightBrace "Close the function body with '\x7d'."
      (fun block close => (block, close.span)) (body head.stop)
    arrive tokens (i + 1) block.stop
      (.trick head.value.1 head.value.2 block.value.1 (trick.value.span.through block.value.2))
  | .woof =>
    let woof ← advance tokens i
    let name ← consume tokens .identifier
      "'woof' is followed by the name of a variable: woof name" woof.stop
    arrive tokens (i + 1) name.stop
      (.access name.value.lexeme (woof.value.span.through name.value.span))
  | .identifier =>
    if nextIs tokens .leftParen i then
      let name ← advance tokens i
      let call ← finishCall tokens name.value name.stop
      arrive tokens (i + 1) call.stop (.expression call.value call.value.span)
    else
      let name ← advance tokens i
      arrive tokens (i + 1) name.stop (.access name.value.lexeme name.value.span)
  | _ =>
    let e ← expression tokens i
    arrive tokens (i + 1) e.stop (.expression e.value e.value.span)
termination_by (finish tokens - i, 0)
decreasing_by
  have := trick.further
  have := head.further
  have := head.inside
  exact Prod.Lex.left _ _ (by omega)

/-- The statements of a function body up to a closing brace or the end of the input. -/
def body (i : Nat) : Except Halt (Moved tokens i (List Stmt)) := do
  let t ← look tokens i
  if t.kind = .rightBrace ∨ t.kind = .endOfInput then arrive tokens i i []
  else
    let round ← statement i
    let others ← body round.stop
    arrive tokens i others.stop (round.value :: others.value)
termination_by (finish tokens - i, 1)
decreasing_by
  · exact Prod.Lex.right _ (by decide)
  · have := round.further
    have := round.inside
    exact Prod.Lex.left _ _ (by omega)

end

/-- Statements up to the end of the input. -/
def statements (i : Nat) : Except Halt (List Stmt) := do
  let t ← look tokens i
  if t.kind = .endOfInput then return []
  else
    let round ← statement tokens i
    let others ← statements round.stop
    return round.value :: others
termination_by finish tokens - i
decreasing_by
  have := round.further
  have := round.inside
  omega

end

/-- The program that tokens make up, read with a cursor from the first one on. -/
def parse (tokens : List Token) : Except Halt Program := do
  let ss ← statements (closed tokens) 0
  return ⟨ss⟩

end CatScript.Cursor
