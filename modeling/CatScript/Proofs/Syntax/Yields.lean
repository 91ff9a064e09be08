import CatScript.Proofs.Syntax.Reader

/-!
# What a successful reading says

`Reading.Yields x value rest` says that a reading succeeds with a value and leaves the tokens
`rest`; the bound that a reading carries for the sake of termination is forgotten.  For every
function that reads there is one lemma for each way in which it can succeed.  Each of them is an
equivalence, and comes from the equation of the function as a reader.
-/

set_option autoImplicit false

namespace CatScript

open Grammar (ahead)
open Reader (of)

/-- A reading succeeds with a value and leaves the given tokens. -/
def Reading.Yields {α : Type} {n : Nat} (x : Except Rejection (Reading α n)) (value : α)
    (rest : List Token) : Prop :=
  ∃ shorter : rest.length < n, x = .ok ⟨value, rest, shorter⟩

namespace Reading

variable {α β γ : Type} {m n : List Token → Nat}
variable {f : (ts : List Token) → Except Rejection (Reading α (n ts))}
variable {g : (ts : List Token) → Except Rejection (Reading β (m ts))}
variable {ts us rest : List Token} {value : α}

/-- A reading succeeds where its reader does. -/
theorem yields_iff : Yields (f ts) value rest ↔ of f ts = .ok (value, rest) := by
  unfold Yields of Reader.outcome
  cases f ts with
  | error r => simp [Except.map]
  | ok r =>
    constructor
    · rintro ⟨shorter, h⟩
      rw [h]
      rfl
    · intro h
      obtain ⟨rfl, rfl⟩ := Prod.mk.inj (Except.ok.inj h)
      exact ⟨r.shorter, rfl⟩

/-- Where the reader succeeds, the reading succeeds with just that. -/
theorem yields_of_ok {result : α} (h : of f ts = .ok (result, us)) :
    Yields (f ts) value rest ↔ value = result ∧ rest = us := by
  rw [yields_iff, h]
  simp [eq_comm]

/-- Where the reader rejects, no reading succeeds. -/
theorem not_yields_of_error {r : Rejection} (h : of f ts = .error r) :
    ¬ Yields (f ts) value rest := by
  rw [yields_iff, h]
  simp

/-- Where the reader makes something of another one, the reading succeeds where the other does. -/
theorem yields_of_map {k : β → α} (h : of f ts = (of g).map k us) :
    Yields (f ts) value rest ↔
      ∃ first mid, Yields (g us) first mid ∧ value = k first ∧ rest = mid := by
  simp only [yields_iff, h, Reader.map_eq_ok_iff]

/-- One reading and then another, where it is known what the second succeeds with. -/
theorem yields_of_andThen {G : β → Reader α} {P : β → List Token → Prop}
    (h : of f ts = (of g).andThen G us)
    (hG : ∀ first mid, G first mid = .ok (value, rest) ↔ P first mid) :
    Yields (f ts) value rest ↔ ∃ first mid, Yields (g us) first mid ∧ P first mid := by
  simp only [yields_iff, h, Reader.andThen_eq_ok_iff, hG]

/-- What is left is shorter than the bound. -/
theorem Yields.length_lt {n : Nat} {x : Except Rejection (Reading α n)} (h : Yields x value rest) :
    rest.length < n :=
  h.1

end Reading

open Reading

/-- A comma is skipped. -/
theorem Token.skipComma_cons_of_comma {t : Token} {ts : List Token} (kind : t.kind = .comma) :
    Token.skipComma (t :: ts) = ts :=
  if_pos kind

/-- Nothing but a comma is skipped. -/
theorem Token.skipComma_of_ahead_ne {ts : List Token} (next : ahead ts ≠ .comma) :
    Token.skipComma ts = ts := by
  cases ts with
  | nil => rfl
  | cons t ts => exact if_neg next

/-! ## Expressions -/

namespace Expr

variable {t : Token} {ts rest : List Token} {e : Expr}

/-- An integer token succeeds with the integer that its digits write within the range. -/
theorem yields_operand_integer (kind : t.kind = .integer) :
    Yields (operand (t :: ts)) e rest ↔
      ∃ i, Integer64.ofText? t.lexeme.toList = some i ∧ e = .integer i t.span ∧ rest = ts := by
  cases reads : Integer64.ofText? t.lexeme.toList with
  | none => simp [not_yields_of_error (of_operand_integer_none kind reads ts)]
  | some i => simp [yields_of_ok (of_operand_integer kind reads ts)]

/-- A float token succeeds with the float that its text writes. -/
theorem yields_operand_float (kind : t.kind = .float) :
    Yields (operand (t :: ts)) e rest ↔
      ∃ x, Decimal.ofText? t.lexeme.toList = some x ∧ e = .float x t.span ∧ rest = ts := by
  cases reads : Decimal.ofText? t.lexeme.toList with
  | none => simp [not_yields_of_error (of_operand_float_none kind reads ts)]
  | some x => simp [yields_of_ok (of_operand_float kind reads ts)]

/-- A string token succeeds with its lexeme. -/
theorem yields_operand_string (kind : t.kind = .string) :
    Yields (operand (t :: ts)) e rest ↔ e = .string t.lexeme t.span ∧ rest = ts :=
  yields_of_ok (of_operand_string kind ts)

/-- A name that is no call succeeds as a variable. -/
theorem yields_operand_name (kind : t.kind = .identifier) (next : ahead ts ≠ .leftParen) :
    Yields (operand (t :: ts)) e rest ↔ e = .identifier t.lexeme t.span ∧ rest = ts :=
  yields_of_ok (of_operand_name kind next)

/-- A name that is a call succeeds with its arguments. -/
theorem yields_operand_call (kind : t.kind = .identifier) (next : ahead ts = .leftParen) :
    Yields (operand (t :: ts)) e rest ↔
      ∃ args mid, Yields (arguments ts.tail) args mid ∧
        e = .call t.lexeme args.1 (t.span.through args.2) ∧ rest = mid := by
  obtain ⟨opening, us, rfl, hopening⟩ := Grammar.exists_cons_of_ahead_eq next (by decide)
  exact yields_of_map (of_operand_call kind hopening us)

/-- A group succeeds with the expression in front of its closing parenthesis. -/
theorem yields_operand_group (kind : t.kind = .leftParen) :
    Yields (operand (t :: ts)) e rest ↔
      ∃ x mid, Yields (climb 0 ts) x mid ∧
        ∃ c mid', (mid = c :: mid' ∧ c.kind = .rightParen) ∧ e = x ∧ rest = mid' :=
  yields_of_andThen (of_operand_group kind ts) fun x mid => by
    simp only [Reader.map_eq_ok_iff, Token.of_expect_eq_ok_iff]

/-- A minus succeeds with the operand behind it. -/
theorem yields_operand_minus (kind : t.kind = .minus) :
    Yields (operand (t :: ts)) e rest ↔
      ∃ x mid, Yields (operand ts) x mid ∧
        e = .negate x (t.span.through x.span) ∧ rest = mid :=
  yields_of_map (of_operand_minus kind ts)

/-- No operand begins with a token of another kind. -/
theorem not_yields_operand (kind : Grammar.beginsExpression t.kind = false) :
    ¬ Yields (operand (t :: ts)) e rest :=
  not_yields_of_error (of_operand_other kind ts)

/-- An expression succeeds with an operand and with the chain behind it. -/
theorem yields_climb (floor : Nat) :
    Yields (climb floor ts) e rest ↔
      ∃ first mid, Yields (operand ts) first mid ∧ Yields (chain floor first mid) e rest :=
  yields_of_andThen (congrFun (of_climb floor) ts) fun _ _ => yields_iff.symm

/-- No expression is read of nothing. -/
theorem not_yields_climb_nil {floor : Nat} : ¬ Yields (climb floor []) e rest :=
  not_yields_of_error (of_climb_nil floor)

/-- At the parenthesis a call succeeds with no further argument. -/
theorem yields_arguments_close (kind : t.kind = .rightParen) (args : List Expr × Span) :
    Yields (arguments (t :: ts)) args rest ↔ args = ([], t.span) ∧ rest = ts :=
  yields_of_ok (of_arguments_close kind ts)

/-- Anywhere else a call succeeds with an argument and with the others behind a comma. -/
theorem yields_arguments_cons (next : ahead ts ≠ .rightParen) (args : List Expr × Span) :
    Yields (arguments ts) args rest ↔
      ∃ x mid₁, Yields (climb 0 ts) x mid₁ ∧
        ∃ others mid₂, Yields (arguments (Token.skipComma mid₁)) others mid₂ ∧
          args = (x :: others.1, others.2) ∧ rest = mid₂ := by
  cases ts with
  | nil => simp [not_yields_of_error of_arguments_nil, not_yields_climb_nil]
  | cons t ts =>
    exact yields_of_andThen (of_arguments_cons next ts) fun x mid => by
      simp only [Reader.map_eq_ok_iff, Reader.pastComma, yields_iff]

/-- A chain ends in front of whatever binds no tighter than its floor. -/
theorem yields_chain_done {floor : Nat} {left : Expr}
    (next : ∀ op, (ahead ts).operator? = some op → op.precedence ≤ floor) :
    Yields (chain floor left ts) e rest ↔ e = left ∧ rest = ts :=
  yields_of_ok (of_chain_done next)

/-- A chain goes on with an operator that binds tighter than its floor, and with its operand. -/
theorem yields_chain_more {floor : Nat} {left : Expr} {op : BinaryOp}
    (kind : t.kind.operator? = some op) (tight : floor < op.precedence) :
    Yields (chain floor left (t :: ts)) e rest ↔
      ∃ right mid, Yields (climb op.precedence ts) right mid ∧
        Yields (chain floor (.binary op left right (left.span.through right.span)) mid) e rest := by
  simp only [yields_iff, of_chain_more kind tight, Reader.andThen_eq_ok_iff,
    Reader.orHelp_eq_ok_iff]

end Expr

/-! ## Statements -/

namespace Stmt

variable {t : Token} {ts rest : List Token} {s : Stmt}

/-- At the parenthesis a list of parameters succeeds with no further one. -/
theorem yields_parameters_close (kind : t.kind = .rightParen) (params : List Parameter) :
    Yields (parameters (t :: ts)) params rest ↔ params = [] ∧ rest = ts :=
  yields_of_ok (of_parameters_close kind ts)

/-- A list of parameters goes on with a name, and with the others behind a comma. -/
theorem yields_parameters_cons (kind : t.kind = .identifier) (params : List Parameter) :
    Yields (parameters (t :: ts)) params rest ↔
      ∃ others mid, Yields (parameters (Token.skipComma ts)) others mid ∧
        params = ⟨t.lexeme, t.span⟩ :: others ∧ rest = mid := by
  simp only [yields_iff, of_parameters_cons kind, Reader.map_eq_ok_iff, Reader.pastComma]

/-- Parameters go on with a name or end with a parenthesis. -/
theorem not_yields_parameters (close : t.kind ≠ .rightParen) (kind : t.kind ≠ .identifier)
    (params : List Parameter) : ¬ Yields (parameters (t :: ts)) params rest :=
  not_yields_of_error (of_parameters_other close kind ts)

/-- The head of a function succeeds with a name, parameters in parentheses and a brace. -/
theorem yields_trickHead (head : String × List Parameter) :
    Yields (trickHead ts) head rest ↔
      ∃ name mid₁, (ts = name :: mid₁ ∧ name.kind = .identifier) ∧
        ∃ opening mid₂, (mid₁ = opening :: mid₂ ∧ opening.kind = .leftParen) ∧
          ∃ params mid₃, Yields (parameters mid₂) params mid₃ ∧
            ∃ brace mid₄, (mid₃ = brace :: mid₄ ∧ brace.kind = .leftBrace) ∧
              head = (name.lexeme, params) ∧ rest = mid₄ := by
  simp only [yields_iff, of_trickHead, Reader.andThen_eq_ok_iff, Reader.map_eq_ok_iff,
    Token.of_expect_eq_ok_iff]

/-- An expression as a statement succeeds where the expression does. -/
theorem yields_expressionOf :
    Yields (expressionOf ts) s rest ↔
      ∃ e mid, Yields (Expr.climb 0 ts) e mid ∧ s = .expression e e.span ∧ rest = mid :=
  yields_of_map (congrFun of_expressionOf ts)

/-- A print statement succeeds with an argument in parentheses. -/
theorem yields_print (kind : t.kind = .purr) :
    Yields (ofTokens (t :: ts)) s rest ↔
      ∃ opening mid₁, (ts = opening :: mid₁ ∧ opening.kind = .leftParen) ∧
        ∃ e mid₂, Yields (Expr.climb 0 mid₁) e mid₂ ∧
          ∃ close mid₃, (mid₂ = close :: mid₃ ∧ close.kind = .rightParen) ∧
            s = .print e (t.span.through close.span) ∧ rest = mid₃ := by
  simp only [yields_iff, of_print kind, Reader.andThen_eq_ok_iff, Reader.map_eq_ok_iff,
    Token.of_expect_eq_ok_iff]

/-- A declaration succeeds with a name, an equals sign and a value. -/
theorem yields_declare (kind : t.kind = .meow) :
    Yields (ofTokens (t :: ts)) s rest ↔
      ∃ name mid₁, (ts = name :: mid₁ ∧ name.kind = .identifier) ∧
        ∃ equal mid₂, (mid₁ = equal :: mid₂ ∧ equal.kind = .equal) ∧
          ∃ e mid₃, Yields (Expr.climb 0 mid₂) e mid₃ ∧
            s = .declare name.lexeme e (t.span.through e.span) ∧ rest = mid₃ := by
  simp only [yields_iff, of_declare kind, Reader.andThen_eq_ok_iff, Reader.map_eq_ok_iff,
    Token.of_expect_eq_ok_iff]

/-- An access succeeds with a name. -/
theorem yields_ask (kind : t.kind = .woof) :
    Yields (ofTokens (t :: ts)) s rest ↔
      ∃ name mid, (ts = name :: mid ∧ name.kind = .identifier) ∧
        s = .access name.lexeme (t.span.through name.span) ∧ rest = mid := by
  simp only [yields_iff, of_ask kind, Reader.map_eq_ok_iff, Token.of_expect_eq_ok_iff]

/-- A function succeeds with its head and its body. -/
theorem yields_trick (kind : t.kind = .trick) :
    Yields (ofTokens (t :: ts)) s rest ↔
      ∃ head mid₁, Yields (trickHead ts) head mid₁ ∧
        ∃ block mid₂, Yields (body mid₁) block mid₂ ∧
          s = .trick head.1 head.2 block.1 (t.span.through block.2) ∧ rest = mid₂ := by
  simp only [yields_iff, of_trick kind, Reader.andThen_eq_ok_iff, Reader.map_eq_ok_iff]

/-- A statement that is a call succeeds with the arguments of the call. -/
theorem yields_call (kind : t.kind = .identifier) (next : ahead ts = .leftParen) :
    Yields (ofTokens (t :: ts)) s rest ↔
      ∃ args mid, Yields (Expr.arguments ts.tail) args mid ∧
        s = .expression (.call t.lexeme args.1 (t.span.through args.2)) (t.span.through args.2) ∧
          rest = mid := by
  obtain ⟨opening, us, rfl, hopening⟩ := Grammar.exists_cons_of_ahead_eq next (by decide)
  exact yields_of_map (of_call kind hopening us)

/-- A statement that is a name alone succeeds as an access. -/
theorem yields_name (kind : t.kind = .identifier) (next : ahead ts ≠ .leftParen) :
    Yields (ofTokens (t :: ts)) s rest ↔ s = .access t.lexeme t.span ∧ rest = ts :=
  yields_of_ok (of_name kind next)

/-- What begins with neither a keyword nor a name is read as an expression. -/
theorem yields_expression (keyword : Grammar.beginsStatement (ahead ts) = true →
      Grammar.beginsExpression (ahead ts) = true) (name : ahead ts ≠ .identifier) :
    Yields (ofTokens ts) s rest ↔
      ∃ e mid, Yields (Expr.climb 0 ts) e mid ∧ s = .expression e e.span ∧ rest = mid := by
  rw [← yields_expressionOf]
  cases ts with
  | nil => rw [ofTokens]
  | cons t ts => rw [yields_iff, yields_iff, of_expression keyword name]

/-- At the brace a body succeeds with no further statement. -/
theorem yields_body_close (kind : t.kind = .rightBrace) (block : List Stmt × Span) :
    Yields (body (t :: ts)) block rest ↔ block = ([], t.span) ∧ rest = ts :=
  yields_of_ok (of_body_close kind ts)

/-- Anywhere else a body succeeds with a statement and with the others. -/
theorem yields_body_cons (next : ahead ts ≠ .rightBrace) (block : List Stmt × Span) :
    Yields (body ts) block rest ↔
      ∃ first mid₁, Yields (ofTokens ts) first mid₁ ∧
        ∃ others mid₂, Yields (body mid₁) others mid₂ ∧
          block = (first :: others.1, others.2) ∧ rest = mid₂ := by
  cases ts with
  | nil =>
    simp [not_yields_of_error of_body_nil, not_yields_of_error of_ofTokens_nil]
  | cons t ts =>
    exact yields_of_andThen (of_body_cons next ts) fun first mid => by
      simp only [Reader.map_eq_ok_iff, yields_iff]

/-- All statements of a script that is not empty are one statement and then all the others. -/
theorem all_eq_ok_iff (hts : ts ≠ []) (ss : List Stmt) :
    all ts = .ok ss ↔
      ∃ first mid, Yields (ofTokens ts) first mid ∧
        ∃ others, all mid = .ok others ∧ ss = first :: others := by
  obtain ⟨t, ts, rfl⟩ := List.exists_cons_of_ne_nil hts
  rw [all_cons]
  simp only [yields_iff]
  cases hfirst : of ofTokens (t :: ts) with
  | error r => simp [Except.bind]
  | ok result =>
    change (all result.2).map (fun others => result.1 :: others) = _ ↔ _
    constructor
    · intro h
      cases hothers : all result.2 with
      | error r => simp [hothers, Except.map] at h
      | ok others =>
        rw [hothers] at h
        exact ⟨result.1, result.2, rfl, others, hothers, (Except.ok.inj h).symm⟩
    · rintro ⟨first, mid, hresult, others, hothers, rfl⟩
      obtain rfl := Except.ok.inj hresult
      rw [hothers]
      rfl

end Stmt

end CatScript
