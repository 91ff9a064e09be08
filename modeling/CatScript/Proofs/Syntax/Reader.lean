import Mathlib
import CatScript.Model.Program.OfTokens
import CatScript.Proofs.Syntax.Grammar.Unique

/-!
# Readers

What reads tokens comes to something read and the tokens behind it, or to a rejection.  The bound
that a reading carries for the sake of termination is forgotten here (`Reader.of`), so that one
reader can be put behind another (`Reader.andThen`).  For every function that reads there is one
equation for each way in which its tokens can begin; an equation holds for all tokens that follow.
-/

set_option autoImplicit false

namespace CatScript

open Grammar (ahead)

/-- What becomes of tokens: something read and the tokens behind it, or a rejection. -/
abbrev Reader (α : Type) := List Token → Except Rejection (α × List Token)

namespace Reader

variable {α β : Type}

/-- A reader that reads nothing. -/
def pure (value : α) : Reader α := fun ts => .ok (value, ts)

/-- One reader, and behind what it reads another one. -/
def andThen (F : Reader α) (G : α → Reader β) : Reader β := fun ts =>
  (F ts).bind fun result => G result.1 result.2

/-- A reader of which something else is made. -/
def map (f : α → β) (F : Reader α) : Reader β := F.andThen fun value => pure (f value)

/-- A reader with a help for the case that its rejections have none. -/
def orHelp (F : Reader α) (help : String) : Reader α := fun ts => (F ts).mapError (·.orHelp help)

/-- A reader behind a comma, if one stands there. -/
def pastComma (F : Reader α) : Reader α := fun ts => F (Token.skipComma ts)

/-- A reading without its bound. -/
def outcome {n : Nat} (x : Except Rejection (Reading α n)) : Except Rejection (α × List Token) :=
  x.map fun r => (r.value, r.rest)

/-- A function that reads, without bounds. -/
def of {n : List Token → Nat} (f : (ts : List Token) → Except Rejection (Reading α (n ts))) :
    Reader α := fun ts => outcome (f ts)

variable {γ : Type} {F F' : Reader α} {ts rest : List Token} {value : α} {r : Rejection}

/-- Two readers one behind the other succeed where the first does, and the second behind it. -/
theorem andThen_eq_ok_iff {G : α → Reader β} {other : β} :
    F.andThen G ts = .ok (other, rest) ↔
      ∃ value mid, F ts = .ok (value, mid) ∧ G value mid = .ok (other, rest) := by
  unfold andThen
  cases hF : F ts with
  | error r => simp [Except.bind]
  | ok result =>
    constructor
    · exact fun h => ⟨result.1, result.2, rfl, h⟩
    · rintro ⟨value, mid, hresult, h⟩
      obtain rfl := Except.ok.inj hresult
      exact h

/-- A reader of which something else is made succeeds where it did. -/
theorem map_eq_ok_iff {f : α → β} {other : β} :
    F.map f ts = .ok (other, rest) ↔
      ∃ value mid, F ts = .ok (value, mid) ∧ other = f value ∧ rest = mid := by
  rw [map, andThen_eq_ok_iff]
  simp [pure, eq_comm]

/-- What was read is made into something else. -/
theorem map_of_ok (h : F ts = .ok (value, rest)) (f : α → β) :
    F.map f ts = .ok (f value, rest) := by
  rw [map, andThen, h]
  rfl

/-- A rejection stays as it is. -/
theorem map_of_error (h : F ts = .error r) (f : α → β) : F.map f ts = .error r := by
  rw [map, andThen, h]
  rfl

/-- Two readers that do the same are made into the same. -/
theorem map_of_eq {us : List Token} (h : F ts = F' us) (f : α → β) : F.map f ts = F'.map f us := by
  unfold map andThen
  rw [h]

/-- A reader is left as it is where nothing else is made of it. -/
theorem map_self (F : Reader α) : F.map (fun value => value) = F := by
  funext ts
  unfold map andThen
  cases F ts <;> rfl

/-- Of a reader two things can be made one after the other. -/
theorem map_map (F : Reader α) (f : α → β) (g : β → γ) :
    (F.map f).map g = F.map fun value => g (f value) := by
  funext ts
  unfold map andThen
  cases F ts <;> rfl

/-- What is made of two readers is made of the second one. -/
theorem map_andThen (F : Reader α) (G : α → Reader β) (f : β → γ) :
    (F.andThen G).map f = F.andThen fun value => (G value).map f := by
  funext ts
  unfold map andThen
  cases F ts <;> rfl

/-- A help for rejections does not touch what succeeds. -/
theorem orHelp_eq_ok_iff {help : String} :
    F.orHelp help ts = .ok (value, rest) ↔ F ts = .ok (value, rest) := by
  unfold orHelp
  cases F ts <;> simp [Except.mapError]

variable {n : List Token → Nat} {m k : Nat}
variable {f : (ts : List Token) → Except Rejection (Reading α (n ts))}

/-- A function behind another one reads what a reader behind the other's reader does. -/
theorem outcome_bind {g : Reading α (n ts) → Except Rejection (Reading β m)} {G : α → Reader β}
    (hg : ∀ r, outcome (g r) = G r.value r.rest) :
    outcome (f ts >>= g) = (of f).andThen G ts := by
  unfold andThen of
  cases f ts with
  | error r => rfl
  | ok r => exact hg r

/-- The same where the first function reads behind a comma. -/
theorem outcome_bind_pastComma
    {g : Reading α (n (Token.skipComma ts)) → Except Rejection (Reading β m)} {G : α → Reader β}
    (hg : ∀ r, outcome (g r) = G r.value r.rest) :
    outcome (f (Token.skipComma ts) >>= g) = (of f).pastComma.andThen G ts :=
  outcome_bind hg

/-- The same where the rejections of the first function are given a help. -/
theorem outcome_bind_orHelp {help : String}
    {g : Reading α (n ts) → Except Rejection (Reading β m)} {G : α → Reader β}
    (hg : ∀ r, outcome (g r) = G r.value r.rest) :
    outcome ((f ts).mapError (·.orHelp help) >>= g) = ((of f).orHelp help).andThen G ts := by
  unfold andThen orHelp of
  cases f ts with
  | error r => rfl
  | ok r => exact hg r

/-- A reading whose value and rest are handed on as they are. -/
theorem outcome_bind_pure {x : Except Rejection (Reading α m)} (g : Reading α m → Reading α k)
    (hg : ∀ r, (g r).value = r.value ∧ (g r).rest = r.rest) :
    outcome (x >>= fun r => Pure.pure (g r)) = outcome x := by
  cases x with
  | error r => rfl
  | ok r => exact congrArg Except.ok (Prod.ext (hg r).1 (hg r).2)

/-- What a reader without bounds reads is what the function reads. -/
theorem exists_reading {x : Except Rejection (Reading α m)} {value : α} {rest : List Token}
    (h : outcome x = .ok (value, rest)) : ∃ r : Reading α m, r.value = value ∧ r.rest = rest := by
  cases x with
  | error r => simp [outcome, Except.map] at h
  | ok r =>
    obtain ⟨hvalue, hrest⟩ := Prod.mk.inj (Except.ok.inj h)
    exact ⟨r, hvalue, hrest⟩

end Reader

open Reader (of outcome_bind outcome_bind_pastComma outcome_bind_orHelp outcome_bind_pure)

variable {t : Token} {ts : List Token}

namespace Token

/-- At the end of the input every kind is missing. -/
theorem of_expect_nil (kind : TokenKind) (help : String) :
    of (expect kind help) [] = .error ⟨.token kind, [], some help⟩ := rfl

/-- A token of the kind that has to stand here is read. -/
theorem of_expect {kind : TokenKind} (h : t.kind = kind) (help : String) (ts : List Token) :
    of (expect kind help) (t :: ts) = .ok (t, ts) := by
  simp only [of, expect, if_pos h]
  rfl

/-- A token of another kind is rejected. -/
theorem of_expect_ne {kind : TokenKind} (h : t.kind ≠ kind) (help : String) (ts : List Token) :
    of (expect kind help) (t :: ts) = .error ⟨.token kind, t :: ts, some help⟩ := by
  simp only [of, expect, if_neg h]
  rfl

/-- A token is read if it stands here and is of the kind. -/
theorem of_expect_eq_ok_iff {kind : TokenKind} {help : String} {rest : List Token} :
    of (expect kind help) ts = .ok (t, rest) ↔ ts = t :: rest ∧ t.kind = kind := by
  cases ts with
  | nil => simp [of_expect_nil]
  | cons u us =>
    by_cases h : u.kind = kind
    · rw [of_expect h]
      constructor
      · rintro ⟨⟩
        exact ⟨rfl, h⟩
      · rintro ⟨⟨⟩, -⟩
        rfl
    · rw [of_expect_ne h]
      simp only [reduceCtorEq, List.cons.injEq, false_iff]
      rintro ⟨⟨rfl, -⟩, h'⟩
      exact h h'

/-- A call is opened by a parenthesis right behind the name. -/
theorem opensCall_iff (ts : List Token) : opensCall ts = true ↔ ahead ts = .leftParen := by
  cases ts <;> simp [opensCall]

/-- A name with no parenthesis behind it is no call. -/
theorem not_opensCall {ts : List Token} (h : ahead ts ≠ .leftParen) : ¬ opensCall ts = true :=
  fun hopens => h ((opensCall_iff ts).1 hopens)

end Token

/-! ## Expressions -/

namespace Expr

/-- At the end of the input an operand is missing. -/
theorem of_operand_nil :
    of operand [] = .error ⟨.expression, [], some (helpFor .endOfInput)⟩ := by
  simp only [of, operand]
  rfl

/-- A minus is read with the operand behind it. -/
theorem of_operand_minus (kind : t.kind = .minus) (ts : List Token) :
    of operand (t :: ts) =
      (of operand).map (fun e => .negate e (t.span.through e.span)) ts := by
  simp only [of, operand, kind]
  exact outcome_bind fun r => rfl

/-- Digits within the range are read as an integer. -/
theorem of_operand_integer (kind : t.kind = .integer) {i : Int64}
    (reads : Integer64.ofText? t.lexeme.toList = some i) (ts : List Token) :
    of operand (t :: ts) = .ok (.integer i t.span, ts) := by
  simp only [of, operand, kind, reads]
  rfl

/-- Digits beyond the range are rejected. -/
theorem of_operand_integer_none (kind : t.kind = .integer)
    (reads : Integer64.ofText? t.lexeme.toList = none) (ts : List Token) :
    of operand (t :: ts) = .error ⟨.integerInRange, t :: ts, some rangeHelp⟩ := by
  simp only [of, operand, kind, reads]
  rfl

/-- The text of a float is read as the float. -/
theorem of_operand_float (kind : t.kind = .float) {x : Float}
    (reads : Decimal.ofText? t.lexeme.toList = some x) (ts : List Token) :
    of operand (t :: ts) = .ok (.float x t.span, ts) := by
  simp only [of, operand, kind, reads]
  rfl

/-- A float token that is no text of a float is rejected, without a help. -/
theorem of_operand_float_none (kind : t.kind = .float)
    (reads : Decimal.ofText? t.lexeme.toList = none) (ts : List Token) :
    of operand (t :: ts) = .error ⟨.expression, t :: ts, none⟩ := by
  simp only [of, operand, kind, reads]
  rfl

/-- A string token is read as its lexeme. -/
theorem of_operand_string (kind : t.kind = .string) (ts : List Token) :
    of operand (t :: ts) = .ok (.string t.lexeme t.span, ts) := by
  simp only [of, operand, kind]
  rfl

/-- A name that is no call is read as a variable. -/
theorem of_operand_name (kind : t.kind = .identifier) (next : ahead ts ≠ .leftParen) :
    of operand (t :: ts) = .ok (.identifier t.lexeme t.span, ts) := by
  simp only [of, operand, kind, if_neg (Token.not_opensCall next)]
  rfl

/-- A name that is a call is read with its arguments. -/
theorem of_operand_call (kind : t.kind = .identifier) {opening : Token}
    (next : opening.kind = .leftParen) (ts : List Token) :
    of operand (t :: opening :: ts) =
      (of arguments).map (fun args => .call t.lexeme args.1 (t.span.through args.2)) ts := by
  have hopens : Token.opensCall (opening :: ts) = true := (Token.opensCall_iff _).2 next
  simp only [of, operand, kind, if_pos hopens, List.tail_cons]
  exact outcome_bind fun r => rfl

/-- An expression in parentheses is read as the expression. -/
theorem of_operand_group (kind : t.kind = .leftParen) (ts : List Token) :
    of operand (t :: ts) =
      (of (climb 0)).andThen
        (fun e => (of (Token.expect .rightParen groupHelp)).map fun _ => e) ts := by
  simp only [of, operand, kind]
  exact outcome_bind fun r => outcome_bind fun close => rfl

/-- No operand begins with a token of another kind. -/
theorem of_operand_other (kind : Grammar.beginsExpression t.kind = false) (ts : List Token) :
    of operand (t :: ts) = .error ⟨.expression, t :: ts, some (helpFor t.kind)⟩ := by
  simp only [of, operand]
  revert kind
  cases t.kind <;> simp [Grammar.beginsExpression] <;> rfl

/-- An expression is an operand and the chain behind it. -/
theorem of_climb (floor : Nat) :
    of (climb floor) = (of operand).andThen fun first => of (chain floor first) := by
  funext ts
  simp only [of, climb]
  exact outcome_bind fun first => outcome_bind_pure first.behind fun all => ⟨rfl, rfl⟩

/-- At the end of the input an expression is missing. -/
theorem of_climb_nil (floor : Nat) :
    of (climb floor) [] = .error ⟨.expression, [], some (helpFor .endOfInput)⟩ := by
  rw [of_climb, Reader.andThen, of_operand_nil]
  rfl

/-- At the end of the input a call is not closed. -/
theorem of_arguments_nil :
    of arguments [] = .error ⟨.token .rightParen, [], some callHelp⟩ := by
  simp only [of, arguments]
  rfl

/-- At the parenthesis a call ends. -/
theorem of_arguments_close (kind : t.kind = .rightParen) (ts : List Token) :
    of arguments (t :: ts) = .ok (([], t.span), ts) := by
  simp only [of, arguments, if_pos kind]
  rfl

/-- Without a further argument a call ends at its parenthesis. -/
theorem of_arguments_done (h : ∀ t ∈ ts.head?, t.kind = .rightParen) :
    of arguments ts =
      (of (Token.expect .rightParen callHelp)).map (fun close => ([], close.span)) ts := by
  cases ts with
  | nil => rw [of_arguments_nil, Reader.map_of_error (Token.of_expect_nil _ _)]
  | cons t ts =>
    rw [of_arguments_close (h t rfl), Reader.map_of_ok (Token.of_expect (h t rfl) _ _)]

/-- Anywhere else a call goes on with an argument, and the others behind a comma. -/
theorem of_arguments_cons (kind : t.kind ≠ .rightParen) (ts : List Token) :
    of arguments (t :: ts) =
      (of (climb 0)).andThen
        (fun e => (of arguments).pastComma.map fun others => (e :: others.1, others.2))
        (t :: ts) := by
  simp only [of, arguments, if_neg kind]
  exact outcome_bind fun r => outcome_bind_pastComma fun others => rfl

/-- A chain ends in front of whatever binds no tighter than its floor. -/
theorem of_chain_done {floor : Nat} {left : Expr}
    (next : ∀ op, (ahead ts).operator? = some op → op.precedence ≤ floor) :
    of (chain floor left) ts = .ok (left, ts) := by
  cases ts with
  | nil =>
    simp only [of, chain]
    rfl
  | cons t ts =>
    simp only [of, chain]
    cases h : t.kind.operator? with
    | none => rfl
    | some op =>
      dsimp only
      rw [if_neg (Nat.not_lt.2 (next op h))]
      rfl

/-- A chain goes on with an operator that binds tighter than its floor, and with an operand of it,
which is rejected with a help of its own. -/
theorem of_chain_more {floor : Nat} {left : Expr} {op : BinaryOp}
    (kind : t.kind.operator? = some op) (tight : floor < op.precedence) (ts : List Token) :
    of (chain floor left) (t :: ts) =
      ((of (climb op.precedence)).orHelp (operandHelp t.lexeme)).andThen
        (fun right => of (chain floor (.binary op left right (left.span.through right.span))))
        ts := by
  simp only [of, chain, kind, if_pos tight]
  exact outcome_bind_orHelp fun right =>
    outcome_bind_pure (fun all => (right.behind all).lift.lift) fun all => ⟨rfl, rfl⟩

end Expr

/-! ## Statements -/

namespace Stmt

/-- At the end of the input a list of parameters is not closed. -/
theorem of_parameters_nil : of parameters [] =
    .error ⟨.token .rightParen, [], some "Close the parameter list with ')'."⟩ := by
  simp only [of, parameters]
  rfl

/-- At the parenthesis a list of parameters ends. -/
theorem of_parameters_close (kind : t.kind = .rightParen) (ts : List Token) :
    of parameters (t :: ts) = .ok ([], ts) := by
  simp only [of, parameters, if_pos kind]
  rfl

/-- Without a further parameter a list of them ends at its parenthesis. -/
theorem of_parameters_done (h : ∀ t ∈ ts.head?, t.kind = .rightParen) :
    of parameters ts =
      (of (Token.expect .rightParen "Close the parameter list with ')'.")).map
        (fun _ => []) ts := by
  cases ts with
  | nil => rw [of_parameters_nil, Reader.map_of_error (Token.of_expect_nil _ _)]
  | cons t ts =>
    rw [of_parameters_close (h t rfl), Reader.map_of_ok (Token.of_expect (h t rfl) _ _)]

/-- A name is read as a parameter, with the others behind a comma. -/
theorem of_parameters_cons (kind : t.kind = .identifier) (ts : List Token) :
    of parameters (t :: ts) =
      (of parameters).pastComma.map (fun others => ⟨t.lexeme, t.span⟩ :: others) ts := by
  have close : ¬ t.kind = .rightParen := by simp [kind]
  simp only [of, parameters, if_neg close, if_pos kind]
  exact outcome_bind_pastComma fun others => rfl

/-- What is neither a name nor the parenthesis is no parameter. -/
theorem of_parameters_other (close : t.kind ≠ .rightParen) (kind : t.kind ≠ .identifier)
    (ts : List Token) :
    of parameters (t :: ts) = .error ⟨.token .identifier, t :: ts,
      some "Parameters are plain names separated by commas or spaces."⟩ := by
  simp only [of, parameters, if_neg close, if_neg kind]
  rfl

/-- The head of a function is a name, parameters in parentheses and a brace. -/
theorem of_trickHead :
    of trickHead =
      (of (Token.expect .identifier
        "Functions are declared as: trick name(a, b) \x7b ... \x7d")).andThen fun name =>
      (of (Token.expect .leftParen
        "The parameter list of a function starts with '('.")).andThen fun _ =>
      (of parameters).andThen fun params =>
      (of (Token.expect .leftBrace
        "A function body is enclosed in braces: \x7b ... \x7d")).map fun _ =>
      (name.lexeme, params) := by
  funext ts
  simp only [of, trickHead]
  exact outcome_bind fun name => outcome_bind fun opening => outcome_bind fun params =>
    outcome_bind fun brace => rfl

/-- An expression as a statement is where the expression is. -/
theorem of_expressionOf :
    of expressionOf = (of (Expr.climb 0)).map fun e => .expression e e.span := by
  funext ts
  simp only [of, expressionOf, Expr.ofTokens]
  exact outcome_bind fun e => rfl

/-- A print statement is its argument in parentheses, behind the keyword. -/
theorem of_print (kind : t.kind = .purr) (ts : List Token) :
    of ofTokens (t :: ts) =
      ((of (Token.expect .leftParen
        "'purr' takes its argument in parentheses: purr(\"hello\")")).andThen fun _ =>
      (of (Expr.climb 0)).andThen fun e =>
      (of (Token.expect .rightParen "Close the argument of 'purr' with ')'.")).map fun close =>
        .print e (t.span.through close.span)) ts := by
  simp only [of, ofTokens, kind]
  refine (outcome_bind_pure Reading.lift fun r => ⟨rfl, rfl⟩).trans ?_
  unfold printOf Expr.ofTokens
  exact outcome_bind fun opening => outcome_bind fun e => outcome_bind fun close => rfl

/-- A declaration is a name, an equals sign and a value, behind the keyword. -/
theorem of_declare (kind : t.kind = .meow) (ts : List Token) :
    of ofTokens (t :: ts) =
      ((of (Token.expect .identifier
        "Variables are declared as: meow name = value")).andThen fun name =>
      (of (Token.expect .equal
        "A declaration needs '=' followed by a value: meow name = value")).andThen fun _ =>
      (of (Expr.climb 0)).map fun e =>
        .declare name.lexeme e (t.span.through e.span)) ts := by
  simp only [of, ofTokens, kind]
  refine (outcome_bind_pure Reading.lift fun r => ⟨rfl, rfl⟩).trans ?_
  unfold declareOf Expr.ofTokens
  exact outcome_bind fun name => outcome_bind fun equal => outcome_bind fun e => rfl

/-- An access is a name behind the keyword. -/
theorem of_ask (kind : t.kind = .woof) (ts : List Token) :
    of ofTokens (t :: ts) =
      (of (Token.expect .identifier
        "'woof' is followed by the name of a variable: woof name")).map
      (fun name => .access name.lexeme (t.span.through name.span)) ts := by
  simp only [of, ofTokens, kind]
  refine (outcome_bind_pure Reading.lift fun r => ⟨rfl, rfl⟩).trans ?_
  unfold accessOf
  exact outcome_bind fun name => rfl

/-- A function is its head and its body, behind the keyword. -/
theorem of_trick (kind : t.kind = .trick) (ts : List Token) :
    of ofTokens (t :: ts) =
      (of trickHead).andThen (fun head =>
        (of body).map fun block =>
          .trick head.1 head.2 block.1 (t.span.through block.2)) ts := by
  simp only [of, ofTokens, kind]
  exact outcome_bind fun head => outcome_bind fun block => rfl

/-- A name that is a call is a whole statement, and no operator is read behind it. -/
theorem of_call (kind : t.kind = .identifier) {opening : Token}
    (next : opening.kind = .leftParen) (ts : List Token) :
    of ofTokens (t :: opening :: ts) =
      (of Expr.arguments).map (fun args =>
        .expression (.call t.lexeme args.1 (t.span.through args.2)) (t.span.through args.2))
        ts := by
  have hopens : Token.opensCall (opening :: ts) = true := (Token.opensCall_iff _).2 next
  simp only [of, ofTokens, kind, if_pos hopens, List.tail_cons]
  exact outcome_bind fun r => rfl

/-- A name that is no call is a whole statement, and no operator is read behind it. -/
theorem of_name (kind : t.kind = .identifier) (next : ahead ts ≠ .leftParen) :
    of ofTokens (t :: ts) = .ok (.access t.lexeme t.span, ts) := by
  simp only [of, ofTokens, kind, if_neg (Token.not_opensCall next)]
  rfl

/-- At the end of the input a statement is rejected as a missing expression. -/
theorem of_ofTokens_nil :
    of ofTokens [] = .error ⟨.expression, [], some (Expr.helpFor .endOfInput)⟩ := by
  simp only [of, ofTokens]
  rw [← of, of_expressionOf]
  exact Reader.map_of_error (Expr.of_climb_nil 0) _

/-- What begins with neither a keyword nor a name is read as an expression. -/
theorem of_expression (keyword : Grammar.beginsStatement t.kind = true →
      Grammar.beginsExpression t.kind = true) (name : t.kind ≠ .identifier) (ts : List Token) :
    of ofTokens (t :: ts) = of expressionOf (t :: ts) := by
  simp only [of, ofTokens]
  revert keyword name
  cases t.kind <;> simp [Grammar.beginsStatement, Grammar.beginsExpression]

/-- At the end of the input a body is not closed. -/
theorem of_body_nil : of body [] =
    .error ⟨.token .rightBrace, [], some "Close the function body with '\x7d'."⟩ := by
  simp only [of, body]
  rfl

/-- At the brace a body ends. -/
theorem of_body_close (kind : t.kind = .rightBrace) (ts : List Token) :
    of body (t :: ts) = .ok (([], t.span), ts) := by
  simp only [of, body, if_pos kind]
  rfl

/-- Without a further statement a body ends at its brace. -/
theorem of_body_done (h : ∀ t ∈ ts.head?, t.kind = .rightBrace) :
    of body ts =
      (of (Token.expect .rightBrace "Close the function body with '\x7d'.")).map
        (fun close => ([], close.span)) ts := by
  cases ts with
  | nil => rw [of_body_nil, Reader.map_of_error (Token.of_expect_nil _ _)]
  | cons t ts => rw [of_body_close (h t rfl), Reader.map_of_ok (Token.of_expect (h t rfl) _ _)]

/-- Anywhere else a body goes on with a statement and the others. -/
theorem of_body_cons (kind : t.kind ≠ .rightBrace) (ts : List Token) :
    of body (t :: ts) =
      (of ofTokens).andThen
        (fun first => (of body).map fun others => (first :: others.1, others.2)) (t :: ts) := by
  simp only [of, body, if_neg kind]
  exact outcome_bind fun first => outcome_bind fun others => rfl

/-- Statements up to the end of the tokens are a first one and those behind it. -/
theorem all_cons (t : Token) (ts : List Token) :
    all (t :: ts) = (of ofTokens (t :: ts)).bind fun result =>
      (all result.2).map fun others => result.1 :: others := by
  rw [all, of]
  cases ofTokens (t :: ts) with
  | error r => rfl
  | ok first =>
    change (all first.rest >>= fun others => Pure.pure (first.value :: others)) = _
    cases h : all first.rest <;> simp [Reader.outcome, Except.map, Except.bind, h]

end Stmt

end CatScript
