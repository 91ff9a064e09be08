import CatScript.Proofs.Syntax.Derives
import CatScript.Proofs.Syntax.Placed
import CatScript.Proofs.Syntax.Respan

/-!
# The program of joined texts

What is read from tokens when further tokens are put behind them.  A statement is separated from the
next one by nothing, so further tokens could belong to the last statement: an operator would go on
with an expression, and an opening parenthesis would turn a name into a call.  Where they do neither
(`Grammar.Apart`), every derivation stays one, and a change of spans that goes along with
`Span.through` changes what it stands for in the same way (`Grammar.Statements.carried`).  The
statements of two lists of tokens can then be put one behind the other.
-/

set_option autoImplicit false

namespace CatScript

/-! ## Derivations in front of other tokens -/

namespace Grammar

variable {f : Span → Span} {ts mid rest tail : List Token}

mutual

/-- What a derivation leaves over is the last of its tokens. -/
theorem Primary.suffix {ts rest : List Token} : Primary ts rest → rest <:+ ts
  | .integer t _ _ _ | .float t _ _ _ | .string t _ | .name t _ _ => List.suffix_cons t rest
  | .call name opening closing _ arguments =>
    ((List.suffix_cons closing rest).trans arguments.suffix).trans
      ((List.suffix_cons opening _).trans (List.suffix_cons name _))
  | .group opening closing _ inner =>
    ((List.suffix_cons closing rest).trans inner.suffix).trans (List.suffix_cons opening _)
  | .negate minus _ operand => operand.suffix.trans (List.suffix_cons minus _)

/-- What is left behind further factors are the last of the tokens. -/
theorem Factors.suffix {ts rest : List Token} : Factors ts rest → rest <:+ ts
  | .done _ => List.suffix_refl _
  | .more t _ _ factor others =>
    (others.suffix.trans factor.suffix).trans (List.suffix_cons t _)

/-- What is left behind a product are the last of the tokens. -/
theorem Product.suffix {ts rest : List Token} : Product ts rest → rest <:+ ts
  | .mk first others => others.suffix.trans first.suffix

/-- What is left behind further products are the last of the tokens. -/
theorem Summands.suffix {ts rest : List Token} : Summands ts rest → rest <:+ ts
  | .done _ => List.suffix_refl _
  | .more t _ _ summand others =>
    (others.suffix.trans summand.suffix).trans (List.suffix_cons t _)

/-- What is left behind an expression are the last of the tokens. -/
theorem Expression.suffix {ts rest : List Token} : Expression ts rest → rest <:+ ts
  | .mk first others => others.suffix.trans first.suffix

/-- What is left behind arguments are the last of the tokens. -/
theorem Arguments.suffix {ts rest : List Token} : Arguments ts rest → rest <:+ ts
  | .none => List.suffix_refl _
  | .bare first others => others.suffix.trans first.suffix
  | .comma comma _ first others =>
    (others.suffix.trans (List.suffix_cons comma _)).trans first.suffix

end

/-- What is left behind parameters are the last of the tokens. -/
theorem Parameters.suffix (d : Parameters ts rest) : rest <:+ ts := by
  induction d with
  | none => exact List.suffix_refl _
  | bare name _ _ ih => exact ih.trans (List.suffix_cons name _)
  | comma name comma _ _ ih =>
    exact ih.trans ((List.suffix_cons comma _).trans (List.suffix_cons name _))

mutual

/-- What is left behind a statement are the last of the tokens. -/
theorem Statement.suffix {ts rest : List Token} : Statement ts rest → rest <:+ ts
  | .print purr opening closing _ argument =>
    ((List.suffix_cons closing rest).trans argument.suffix).trans
      ((List.suffix_cons opening _).trans (List.suffix_cons purr _))
  | .declare meow name equal _ value =>
    value.suffix.trans ((List.suffix_cons equal _).trans
      ((List.suffix_cons name _).trans (List.suffix_cons meow _)))
  | .ask woof name _ => (List.suffix_cons name _).trans (List.suffix_cons woof _)
  | .trick trick name opening closing left right _ parameters _ body =>
    have hbody := (List.suffix_cons right rest).trans body.suffix
    have hparameters := ((List.suffix_cons left _).trans (List.suffix_cons closing _)).trans
      parameters.suffix
    (hbody.trans hparameters).trans ((List.suffix_cons opening _).trans
      ((List.suffix_cons name _).trans (List.suffix_cons trick _)))
  | .call name opening closing _ arguments =>
    ((List.suffix_cons closing rest).trans arguments.suffix).trans
      ((List.suffix_cons opening _).trans (List.suffix_cons name _))
  | .name t _ _ => List.suffix_cons t _
  | .expression _ value => value.suffix

/-- What is left behind statements are the last of the tokens. -/
theorem Statements.suffix {ts rest : List Token} : Statements ts rest → rest <:+ ts
  | .none => List.suffix_refl _
  | .more first others => others.suffix.trans first.suffix

end

/-- The tokens with other spans, and further tokens behind them. -/
def carry (f : Span → Span) (tail ts : List Token) : List Token :=
  ts.map (Token.respan f) ++ tail

/-- With no tokens in front there are the further ones. -/
@[simp] theorem carry_nil : carry f tail [] = tail := rfl

/-- The first token stands in front, with its other span. -/
@[simp] theorem carry_cons (t : Token) (ts : List Token) :
    carry f tail (t :: ts) = t.respan f :: carry f tail ts := rfl

/-- The token ahead is the first one, if there is one. -/
theorem ahead_carry (h : ts ≠ []) : ahead (carry f tail ts) = ahead ts := by
  obtain ⟨t, ts, rfl⟩ := List.exists_cons_of_ne_nil h
  rfl

/-- Further tokens that go on with no expression, and that open no call behind a name that is the
last of the tokens. -/
structure Apart (ts tail : List Token) : Prop where
  noOperator : NoOperator tail
  noCall : ∀ t, [t] <:+ ts → t.kind = .identifier → ahead tail ≠ .leftParen

namespace Apart

/-- What goes on with nothing goes on with none of the last tokens. -/
theorem of_suffix (h : Apart ts tail) (hmid : mid <:+ ts) : Apart mid tail :=
  ⟨h.noOperator, fun t ht => h.noCall t (ht.trans hmid)⟩

/-- What goes on with nothing goes on with nothing behind the first token. -/
theorem behind {t : Token} (h : Apart (t :: ts) tail) : Apart ts tail :=
  h.of_suffix (List.suffix_cons t ts)

/-- A name is no call in front of the further tokens if it is none by itself. -/
theorem ahead_ne_leftParen {t : Token} (h : Apart (t :: ts) tail) (kind : t.kind = .identifier)
    (next : ahead ts ≠ .leftParen) : ahead (carry f tail ts) ≠ .leftParen := by
  cases ts with
  | nil => exact h.noCall t (List.suffix_refl [t]) kind
  | cons u us => exact next

/-- No operator follows, neither among the tokens nor behind them. -/
theorem noOperator_carry (h : Apart ts tail) (next : NoOperator ts) :
    NoOperator (carry f tail ts) := by
  cases ts with
  | nil => exact h.noOperator
  | cons u us => exact next

/-- Where no product goes on, none does in front of the further tokens. -/
theorem productOp?_carry (h : Apart ts tail) (next : productOp? (ahead ts) = none) :
    productOp? (ahead (carry f tail ts)) = none := by
  cases ts with
  | nil => exact h.noOperator.2
  | cons u us => exact next

end Apart

mutual

/-- A primary in front of further tokens, with other spans. -/
theorem Primary.carried (hf : Span.Lifts f) {ts rest : List Token} :
    (d : Primary ts rest) → Apart ts tail →
      ∃ d' : Primary (carry f tail ts) (carry f tail rest), d'.expr = d.expr.respan f
  | .integer t value kind reads, _ => ⟨.integer (t.respan f) value kind reads, rfl⟩
  | .float t value kind reads, _ => ⟨.float (t.respan f) value kind reads, rfl⟩
  | .string t kind, _ => ⟨.string (t.respan f) kind, rfl⟩
  | .name t kind next, h => ⟨.name (t.respan f) kind (h.ahead_ne_leftParen kind next), rfl⟩
  | .call name opening closing kinds arguments, h => by
    obtain ⟨a, ha⟩ := arguments.carried hf h.behind.behind
    refine ⟨.call (name.respan f) (opening.respan f) (closing.respan f) kinds a, ?_⟩
    show Expr.call name.lexeme a.exprs ((f name.span).through (f closing.span)) = _
    rw [ha, ← hf]
    rfl
  | .group opening closing kinds inner, h => by
    obtain ⟨e, he⟩ := inner.carried hf h.behind
    exact ⟨.group (opening.respan f) (closing.respan f) kinds e, he⟩
  | .negate minus kind operand, h => by
    obtain ⟨e, he⟩ := operand.carried hf h.behind
    refine ⟨.negate (minus.respan f) kind e, ?_⟩
    show Expr.negate e.expr ((f minus.span).through e.expr.span) = _
    rw [he, Expr.span_respan, ← hf]
    rfl

/-- Further factors in front of the further tokens, with other spans. -/
theorem Factors.carried (hf : Span.Lifts f) {ts rest : List Token} :
    (d : Factors ts rest) → Apart ts tail →
      ∃ d' : Factors (carry f tail ts) (carry f tail rest),
        ∀ left : Expr, d'.expr (left.respan f) = (d.expr left).respan f
  | .done next, h => ⟨.done (h.productOp?_carry next), fun _ => rfl⟩
  | .more t op kind factor others, h => by
    obtain ⟨p, hp⟩ := factor.carried hf h.behind
    obtain ⟨os, hos⟩ := others.carried hf (h.behind.of_suffix factor.suffix)
    refine ⟨.more (t.respan f) op kind p os, fun left => ?_⟩
    show os.expr (.binary op (left.respan f) p.expr ((left.respan f).span.through p.expr.span)) = _
    rw [hp, Expr.span_respan, Expr.span_respan, ← hf]
    exact hos (.binary op left factor.expr (left.span.through factor.expr.span))

/-- A product in front of the further tokens, with other spans. -/
theorem Product.carried (hf : Span.Lifts f) {ts rest : List Token} :
    (d : Product ts rest) → Apart ts tail →
      ∃ d' : Product (carry f tail ts) (carry f tail rest), d'.expr = d.expr.respan f
  | .mk first others, h => by
    obtain ⟨p, hp⟩ := first.carried hf h
    obtain ⟨os, hos⟩ := others.carried hf (h.of_suffix first.suffix)
    refine ⟨.mk p os, ?_⟩
    rw [Product.expr, Product.expr, hp, hos]

/-- Further products in front of the further tokens, with other spans. -/
theorem Summands.carried (hf : Span.Lifts f) {ts rest : List Token} :
    (d : Summands ts rest) → Apart ts tail →
      ∃ d' : Summands (carry f tail ts) (carry f tail rest),
        ∀ left : Expr, d'.expr (left.respan f) = (d.expr left).respan f
  | .done next, h => ⟨.done (h.noOperator_carry next), fun _ => rfl⟩
  | .more t op kind summand others, h => by
    obtain ⟨p, hp⟩ := summand.carried hf h.behind
    obtain ⟨os, hos⟩ := others.carried hf (h.behind.of_suffix summand.suffix)
    refine ⟨.more (t.respan f) op kind p os, fun left => ?_⟩
    show os.expr (.binary op (left.respan f) p.expr ((left.respan f).span.through p.expr.span)) = _
    rw [hp, Expr.span_respan, Expr.span_respan, ← hf]
    exact hos (.binary op left summand.expr (left.span.through summand.expr.span))

/-- An expression in front of further tokens, with other spans. -/
theorem Expression.carried (hf : Span.Lifts f) {ts rest : List Token} :
    (d : Expression ts rest) → Apart ts tail →
      ∃ d' : Expression (carry f tail ts) (carry f tail rest), d'.expr = d.expr.respan f
  | .mk first others, h => by
    obtain ⟨p, hp⟩ := first.carried hf h
    obtain ⟨os, hos⟩ := others.carried hf (h.of_suffix first.suffix)
    refine ⟨.mk p os, ?_⟩
    rw [Expression.expr, Expression.expr, hp, hos]

/-- Arguments in front of the further tokens, with other spans. -/
theorem Arguments.carried (hf : Span.Lifts f) {ts rest : List Token} :
    (d : Arguments ts rest) → Apart ts tail →
      ∃ d' : Arguments (carry f tail ts) (carry f tail rest), d'.exprs = Expr.respans f d.exprs
  | .none, _ => ⟨.none, rfl⟩
  | .bare first others, h => by
    obtain ⟨e, he⟩ := first.carried hf h
    obtain ⟨es, hes⟩ := others.carried hf (h.of_suffix first.suffix)
    refine ⟨.bare e es, ?_⟩
    rw [Arguments.exprs, Arguments.exprs, Expr.respans, he, hes]
  | .comma comma kind first others, h => by
    obtain ⟨e, he⟩ := first.carried hf h
    obtain ⟨es, hes⟩ := others.carried hf (h.of_suffix first.suffix).behind
    refine ⟨.comma (comma.respan f) kind e es, ?_⟩
    show e.expr :: es.exprs = _
    rw [he, hes]
    rfl

end

/-- Parameters in front of the further tokens, with other spans. -/
theorem Parameters.carried (d : Parameters ts rest) :
    ∃ d' : Parameters (carry f tail ts) (carry f tail rest),
      d'.parameters = d.parameters.map (Parameter.respan f) := by
  induction d with
  | none => exact ⟨.none, rfl⟩
  | bare name kind others ih =>
    obtain ⟨ps, hps⟩ := ih
    refine ⟨.bare (name.respan f) kind ps, ?_⟩
    show (⟨name.lexeme, f name.span⟩ : Parameter) :: ps.parameters = _
    rw [hps]
    rfl
  | comma name comma kinds others ih =>
    obtain ⟨ps, hps⟩ := ih
    refine ⟨.comma (name.respan f) (comma.respan f) kinds ps, ?_⟩
    show (⟨name.lexeme, f name.span⟩ : Parameter) :: ps.parameters = _
    rw [hps]
    rfl

mutual

/-- A statement in front of further tokens, with other spans. -/
theorem Statement.carried (hf : Span.Lifts f) {ts rest : List Token} :
    (d : Statement ts rest) → Apart ts tail →
      ∃ d' : Statement (carry f tail ts) (carry f tail rest), d'.stmt = d.stmt.respan f
  | .print purr opening closing kinds argument, h => by
    obtain ⟨e, he⟩ := argument.carried hf h.behind.behind
    refine ⟨.print (purr.respan f) (opening.respan f) (closing.respan f) kinds e, ?_⟩
    show Stmt.print e.expr ((f purr.span).through (f closing.span)) = _
    rw [he, ← hf]
    rfl
  | .declare meow name equal kinds value, h => by
    obtain ⟨e, he⟩ := value.carried hf h.behind.behind.behind
    refine ⟨.declare (meow.respan f) (name.respan f) (equal.respan f) kinds e, ?_⟩
    show Stmt.declare name.lexeme e.expr ((f meow.span).through e.expr.span) = _
    rw [he, Expr.span_respan, ← hf]
    rfl
  | .ask woof name kinds, _ =>
    ⟨.ask (woof.respan f) (name.respan f) kinds,
      congrArg (Stmt.access name.lexeme) (hf woof.span name.span).symm⟩
  | .trick trick name opening closing left right head parameters kinds body, h => by
    have hbody := h.behind.behind.behind.of_suffix parameters.suffix
    -- Parameters look at no token but their own, and so need nothing of the further ones.
    obtain ⟨ps, hps⟩ := @Parameters.carried f _ _ tail parameters
    obtain ⟨ss, hss⟩ := body.carried hf hbody.behind.behind
    refine ⟨.trick (trick.respan f) (name.respan f) (opening.respan f) (closing.respan f)
      (left.respan f) (right.respan f) head ps kinds ss, ?_⟩
    show Stmt.trick name.lexeme ps.parameters ss.stmts ((f trick.span).through (f right.span)) = _
    rw [hps, hss, ← hf]
    rfl
  | .call name opening closing kinds arguments, h => by
    obtain ⟨es, hes⟩ := arguments.carried hf h.behind.behind
    refine ⟨.call (name.respan f) (opening.respan f) (closing.respan f) kinds es, ?_⟩
    show Stmt.expression (.call name.lexeme es.exprs ((f name.span).through (f closing.span)))
      ((f name.span).through (f closing.span)) = _
    rw [hes, ← hf]
    rfl
  | .name t kind next, h => ⟨.name (t.respan f) kind (h.ahead_ne_leftParen kind next), rfl⟩
  | .expression first value, h => by
    obtain ⟨e, he⟩ := value.carried hf h
    -- An expression has a first token, so none of the further ones comes to stand there.
    have begins := value.begins
    have hts : ts ≠ [] := by
      rintro rfl
      simp [beginsExpression] at begins
    refine ⟨.expression (by rwa [ahead_carry hts]) e, ?_⟩
    rw [Statement.stmt, Statement.stmt, Stmt.respan, he, Expr.span_respan]

/-- Statements in front of further tokens, with other spans. -/
theorem Statements.carried (hf : Span.Lifts f) {ts rest : List Token} :
    (d : Statements ts rest) → Apart ts tail →
      ∃ d' : Statements (carry f tail ts) (carry f tail rest), d'.stmts = Stmt.respans f d.stmts
  | .none, _ => ⟨.none, rfl⟩
  | .more first others, h => by
    obtain ⟨s, hs⟩ := first.carried hf h
    obtain ⟨ss, hss⟩ := others.carried hf (h.of_suffix first.suffix)
    refine ⟨.more s ss, ?_⟩
    rw [Statements.stmts, Statements.stmts, Stmt.respans, hs, hss]

end

/-! ## Statements behind statements -/

/-- With the spans that they have the tokens are themselves. -/
theorem carry_id : carry id tail ts = ts ++ tail := by
  rw [carry, show Token.respan id = id from rfl, List.map_id]

/-- Statements in front of further tokens. -/
theorem Statements.before (d : Statements ts rest) (h : Apart ts tail) :
    ∃ d' : Statements (ts ++ tail) (rest ++ tail), d'.stmts = d.stmts := by
  have hd := d.carried Span.lifts_id h
  rwa [carry_id, carry_id, Stmt.respans_id] at hd

/-- A script that does not begin with a minus goes on with no expression. -/
theorem Script.noOperator (d : Script ts) (h : ahead ts ≠ .minus) : NoOperator ts := by
  obtain ⟨rest, statements, next⟩ := d
  cases statements with
  | none => exact .of_ahead next ⟨rfl, rfl⟩
  | more first others =>
    have begins := first.begins
    revert h begins
    unfold NoOperator
    cases ahead ts <;> simp [beginsStatement, beginsExpression, sumOp?, productOp?]

end Grammar

/-! ## Programs behind programs -/

/-- The program that has the statements of another one behind its own. -/
def Program.append (p q : Program) : Program := ⟨p.statements ++ q.statements⟩

open Grammar (ahead)
open Token (script)

end CatScript
