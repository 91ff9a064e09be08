import CatScript.Proofs.Syntax.Routine

/-!
# Readers and their routines

Every function that reads a piece of a script does what its routine does, on any tokens: for
expressions by the recursion of operands, climbs, chains and arguments (`Expr.expressions_traced`),
for statements by that of statements and bodies (`Stmt.statements_traced`), and for whole scripts by
that of their statements (`Stmt.traces_whole`).
-/

set_option autoImplicit false

namespace CatScript

open Grammar (ahead)
open Reader (of)
open Routine (Traces)

variable {t : Token} {ts : List Token}

/-! ## Expressions -/

namespace Expr

/-- Where no argument follows, arguments are their closing parenthesis. -/
theorem traces_arguments_done (h : ∀ t ∈ ts.head?, t.kind = .rightParen) :
    Traces [.arguments] (of arguments) ts := by
  have hstep : Routine.arguments.step ts = .ok ([.expect .rightParen callHelp], ts) :=
    if_pos (Routine.closes_iff.2 h)
  exact .call hstep (of_arguments_done h) ((Routine.traces_expect _ _ ts).map _)

/-- Expressions are read by the calls of their routines. -/
theorem expressions_traced :
    (∀ ts, Traces [.operand] (of operand) ts) ∧
      (∀ floor ts, Traces [.climb floor] (of (climb floor)) ts) ∧
      (∀ floor left ts, Traces [.chain floor] (of (chain floor left)) ts) ∧
      ∀ ts, Traces [.arguments] (of arguments) ts := by
  apply Expr.operand.mutual_induct
    (fun ts => Traces [.operand] (of operand) ts)
    (fun floor ts => Traces [.climb floor] (of (climb floor)) ts)
    (fun floor left ts => Traces [.chain floor] (of (chain floor left)) ts)
    (fun ts => Traces [.arguments] (of arguments) ts)
  -- One step of the routine is what the reader does with its first token, and the calls that the
  -- step leaves are read in turn.
  case case1 => exact .refuses rfl of_operand_nil
  case case2 =>
    intro t ts kind ih
    have hstep : Routine.operand.step (t :: ts) = .ok ([.operand], ts) := by
      simp only [Routine.step, Routine.operandStep, kind]
    exact .call hstep (of_operand_minus kind ts) (ih.map _)
  case case3 =>
    intro t ts kind i reads
    have hstep : Routine.operand.step (t :: ts) = .ok ([], ts) := by
      simp only [Routine.step, Routine.operandStep, kind, reads]
    exact .takes hstep (of_operand_integer kind reads ts)
  case case4 =>
    intro t ts kind reads
    have hstep : Routine.operand.step (t :: ts) =
        .error ⟨.integerInRange, t :: ts, some rangeHelp⟩ := by
      simp only [Routine.step, Routine.operandStep, kind, reads]
    exact .refuses hstep (of_operand_integer_none kind reads ts)
  case case5 =>
    intro t ts kind x reads
    have hstep : Routine.operand.step (t :: ts) = .ok ([], ts) := by
      simp only [Routine.step, Routine.operandStep, kind, reads]
    exact .takes hstep (of_operand_float kind reads ts)
  case case6 =>
    intro t ts kind reads
    have hstep : Routine.operand.step (t :: ts) = .error ⟨.expression, t :: ts, none⟩ := by
      simp only [Routine.step, Routine.operandStep, kind, reads]
    exact .refuses hstep (of_operand_float_none kind reads ts)
  case case7 =>
    intro t ts kind
    have hstep : Routine.operand.step (t :: ts) = .ok ([], ts) := by
      simp only [Routine.step, Routine.operandStep, kind]
    exact .takes hstep (of_operand_string kind ts)
  case case8 =>
    intro t ts kind opens ih
    have hstep : Routine.operand.step (t :: ts) = .ok ([.arguments], ts.tail) := by
      simp only [Routine.step, Routine.operandStep, kind, if_pos opens]
    obtain ⟨opening, us, rfl, next⟩ :=
      Grammar.exists_cons_of_ahead_eq ((Token.opensCall_iff ts).1 opens) (by decide)
    exact .call hstep (of_operand_call kind next us) (ih.map _)
  case case9 =>
    intro t ts kind opens
    have hstep : Routine.operand.step (t :: ts) = .ok ([], ts) := by
      simp only [Routine.step, Routine.operandStep, kind, if_neg opens]
    have next : ahead ts ≠ .leftParen := fun next => opens ((Token.opensCall_iff ts).2 next)
    exact .takes hstep (of_operand_name kind next)
  case case10 =>
    intro t ts kind ih
    have hstep : Routine.operand.step (t :: ts) =
        .ok ([.climb 0, .expect .rightParen groupHelp], ts) := by
      simp only [Routine.step, Routine.operandStep, kind]
    exact .call hstep (of_operand_group kind ts)
      (ih.andThen fun e rest _ => (Routine.traces_expect _ _ rest).map _)
  case case11 =>
    intro t ts minus integer float string identifier leftParen
    have kind : Grammar.beginsExpression t.kind = false := by
      cases hk : t.kind <;> simp_all [Grammar.beginsExpression]
    have hstep : Routine.operand.step (t :: ts) =
        .error ⟨.expression, t :: ts, some (helpFor t.kind)⟩ := by
      simp only [Routine.step, Routine.operandStep]
    exact .refuses hstep (of_operand_other kind ts)
  case case12 =>
    intro floor ts ihFirst ihAll
    refine .call (Routine.step.eq_def (.climb floor) ts) (congrFun (of_climb floor) ts)
      (ihFirst.andThen fun first rest h => ?_)
    obtain ⟨first, rfl, rfl⟩ := Reader.exists_reading h
    exact ihAll first
  case case13 =>
    intro floor left
    exact .takes rfl (of_chain_done (by simp [TokenKind.operator?]))
  case case14 =>
    intro floor left t ts kind
    have hstep : (Routine.chain floor).step (t :: ts) = .ok ([], t :: ts) := by
      simp only [Routine.step, kind]
    exact .takes hstep (of_chain_done (by simp [kind]))
  case case15 =>
    intro floor left t ts op kind tight ihRight ihAll
    have hstep : (Routine.chain floor).step (t :: ts) =
        .ok ([.climb op.precedence, .chain floor], ts) := by
      simp only [Routine.step, kind, if_pos tight]
    refine .call hstep (of_chain_more kind tight ts)
      ((ihRight.orHelp _).andThen fun right rest h => ?_)
    obtain ⟨right, rfl, rfl⟩ := Reader.exists_reading (Reader.orHelp_eq_ok_iff.1 h)
    exact ihAll right
  case case16 =>
    intro floor left t ts op kind loose
    have hstep : (Routine.chain floor).step (t :: ts) = .ok ([], t :: ts) := by
      simp only [Routine.step, kind, if_neg loose]
    refine .takes hstep (of_chain_done fun op' hop => ?_)
    obtain rfl : op = op' := Option.some.inj (kind.symm.trans hop)
    exact Nat.le_of_not_lt loose
  case case17 => exact traces_arguments_done (by simp)
  case case18 =>
    intro t ts kind
    exact traces_arguments_done (by simpa using kind)
  case case19 =>
    intro t ts kind ihFirst ihOthers
    have hstep : Routine.arguments.step (t :: ts) =
        .ok ([.climb 0, .comma, .arguments], t :: ts) :=
      if_neg fun h => kind (Routine.closes_iff.1 h t rfl)
    refine .call hstep (of_arguments_cons kind ts) (ihFirst.andThen fun first rest h => ?_)
    obtain ⟨first, rfl, rfl⟩ := Reader.exists_reading h
    exact (ihOthers first).pastComma.map _

end Expr

/-! ## Statements -/

namespace Stmt

/-- Where no parameter follows, parameters are their closing parenthesis. -/
theorem traces_parameters_done (h : ∀ t ∈ ts.head?, t.kind = .rightParen) :
    Traces [.parameters] (of parameters) ts := by
  have hstep : Routine.parameters.step ts =
      .ok ([.expect .rightParen "Close the parameter list with ')'."], ts) :=
    if_pos (Routine.closes_iff.2 h)
  exact .call hstep (of_parameters_done h) ((Routine.traces_expect _ _ ts).map _)

/-- A further parameter is a name that has to stand here, and those behind it. -/
theorem of_parameters_more (close : t.kind ≠ .rightParen) (ts : List Token) :
    of parameters (t :: ts) =
      (of (Token.expect .identifier
        "Parameters are plain names separated by commas or spaces.")).andThen
      (fun name => (of parameters).pastComma.map fun others => ⟨name.lexeme, name.span⟩ :: others)
      (t :: ts) := by
  by_cases kind : t.kind = .identifier
  · rw [of_parameters_cons kind, Reader.andThen, Token.of_expect kind]
    rfl
  · rw [of_parameters_other close kind, Reader.andThen, Token.of_expect_ne kind]
    rfl

/-- Parameters are read by the calls of their routines, if those behind the first one are. -/
theorem traces_parameters_more (close : t.kind ≠ .rightParen)
    (ih : t.kind = .identifier → Traces [.parameters] (of parameters) (Token.skipComma ts)) :
    Traces [.parameters] (of parameters) (t :: ts) := by
  have hstep : Routine.parameters.step (t :: ts) =
      .ok ([.expect .identifier "Parameters are plain names separated by commas or spaces.",
        .comma, .parameters], t :: ts) :=
    if_neg fun h => close (Routine.closes_iff.1 h t rfl)
  refine .call hstep (of_parameters_more close ts)
    ((Routine.traces_expect _ _ (t :: ts)).andThen fun name rest h => ?_)
  obtain ⟨htokens, kind⟩ := Token.of_expect_eq_ok_iff.1 h
  obtain ⟨rfl, rfl⟩ := List.cons.inj htokens
  exact (ih kind).pastComma.map _

/-- The routine of parameters does what their reader does. -/
theorem traces_parameters (ts : List Token) : Traces [.parameters] (of parameters) ts := by
  induction ts using parameters.induct with
  | case1 => exact traces_parameters_done (by simp)
  | case2 t ts kind => exact traces_parameters_done (by simpa using kind)
  | case3 t ts close kind ih => exact traces_parameters_more close fun _ => ih
  | case4 t ts close kind => exact traces_parameters_more close fun h => absurd h kind

/-- The routines that the head of a function calls do what its reader does. -/
theorem traces_trickHead (ts : List Token) :
    Traces [.expect .identifier "Functions are declared as: trick name(a, b) \x7b ... \x7d",
      .expect .leftParen "The parameter list of a function starts with '('.", .parameters,
      .expect .leftBrace "A function body is enclosed in braces: \x7b ... \x7d"]
      (of trickHead) ts := by
  rw [of_trickHead]
  exact (Routine.traces_expect _ _ ts).andThen fun _ ts _ =>
    (Routine.traces_expect _ _ ts).andThen fun _ ts _ =>
      (traces_parameters ts).andThen fun _ ts _ => (Routine.traces_expect _ _ ts).map _

/-- Where no statement follows, a body is its closing brace. -/
theorem traces_body_done (h : ∀ t ∈ ts.head?, t.kind = .rightBrace) :
    Traces [.body] (of body) ts := by
  have hstep : Routine.body.step ts =
      .ok ([.expect .rightBrace "Close the function body with '\x7d'."], ts) :=
    if_pos (Routine.closes_iff.2 h)
  exact .call hstep (of_body_done h) ((Routine.traces_expect _ _ ts).map _)

/-- Statements are read by the calls of their routines. -/
theorem statements_traced :
    (∀ ts, Traces [.statement] (of ofTokens) ts) ∧ ∀ ts, Traces [.body] (of body) ts := by
  have hclimb := Expr.expressions_traced.2.1 0
  apply Stmt.ofTokens.mutual_induct
    (fun ts => Traces [.statement] (of ofTokens) ts) (fun ts => Traces [.body] (of body) ts)
  case case1 =>
    refine .call rfl ?_ ((hclimb []).map fun e => Stmt.expression e e.span)
    rw [of_ofTokens_nil, Reader.map_of_error (Expr.of_climb_nil 0)]
  case case2 =>
    intro t ts kind
    have hstep := Routine.step_statement t ts
    simp only [Routine.statementCalls, kind] at hstep
    refine .call hstep (of_print kind ts) ?_
    exact (Routine.traces_expect _ _ ts).andThen fun _ ts _ => (hclimb ts).andThen fun e ts _ =>
      (Routine.traces_expect _ _ ts).map _
  case case3 =>
    intro t ts kind
    have hstep := Routine.step_statement t ts
    simp only [Routine.statementCalls, kind] at hstep
    refine .call hstep (of_declare kind ts) ?_
    exact (Routine.traces_expect _ _ ts).andThen fun _ ts _ =>
      (Routine.traces_expect _ _ ts).andThen fun _ ts _ => (hclimb ts).map _
  case case4 =>
    intro t ts kind
    have hstep := Routine.step_statement t ts
    simp only [Routine.statementCalls, kind] at hstep
    refine .call hstep (of_ask kind ts) ?_
    exact (Routine.traces_expect _ _ ts).map _
  case case5 =>
    intro t ts kind ih
    have hstep := Routine.step_statement t ts
    simp only [Routine.statementCalls, kind] at hstep
    refine .call hstep (of_trick kind ts) ?_
    refine (traces_trickHead ts).andThen fun head rest h => ?_
    obtain ⟨head, rfl, rfl⟩ := Reader.exists_reading h
    exact (ih head).map _
  case case6 =>
    intro t ts kind opens
    obtain ⟨opening, us, rfl, next⟩ :=
      Grammar.exists_cons_of_ahead_eq ((Token.opensCall_iff ts).1 opens) (by decide)
    have hstep := Routine.step_statement t (opening :: us)
    simp only [Routine.statementCalls, kind, if_pos opens, List.tail_cons] at hstep
    exact .call hstep (of_call kind next us) ((Expr.expressions_traced.2.2.2 us).map _)
  case case7 =>
    intro t ts kind opens
    have hstep := Routine.step_statement t ts
    simp only [Routine.statementCalls, kind, if_neg opens] at hstep
    exact .takes hstep (of_name kind fun next => opens ((Token.opensCall_iff ts).2 next))
  case case8 =>
    intro t ts purr meow woof trick name
    have keyword : Grammar.beginsStatement t.kind = true →
        Grammar.beginsExpression t.kind = true := by
      cases hk : t.kind <;> simp_all [Grammar.beginsStatement]
    have hstep := Routine.step_statement t ts
    simp only [Routine.statementCalls] at hstep
    exact .call hstep ((of_expression keyword name ts).trans (congrFun of_expressionOf _))
      ((hclimb (t :: ts)).map _)
  case case9 => exact traces_body_done (by simp)
  case case10 =>
    intro t ts kind
    exact traces_body_done (by simpa using kind)
  case case11 =>
    intro t ts kind ihFirst ihOthers
    have hstep : Routine.body.step (t :: ts) = .ok ([.statement, .body], t :: ts) :=
      if_neg fun h => kind (Routine.closes_iff.1 h t rfl)
    refine .call hstep (of_body_cons kind ts) (ihFirst.andThen fun first rest h => ?_)
    obtain ⟨first, rfl, rfl⟩ := Reader.exists_reading h
    exact (ihOthers first).map _

/-- What reads a whole script. -/
def whole : Reader (List Stmt) := fun ts => (all ts).map fun ss => (ss, [])

/-- A script is rejected where its reader rejects it. -/
theorem whole_eq_error_iff {r : Rejection} : whole ts = .error r ↔ all ts = .error r := by
  unfold whole
  cases all ts <;> simp [Except.map]

/-- A whole script is read by the calls of its routines. -/
theorem traces_whole (ts : List Token) : Traces [.program] whole ts := by
  induction ts using all.induct with
  | case1 => exact .takes rfl (by rw [whole, all]; rfl)
  | case2 t ts ih =>
    have hwhole : whole (t :: ts) =
        (of ofTokens).andThen (fun first => whole.map fun others => first :: others) (t :: ts) := by
      rw [whole, all_cons, Reader.andThen]
      cases of ofTokens (t :: ts) with
      | error r => rfl
      | ok result =>
        unfold Reader.map Reader.andThen whole
        cases h : all result.2 <;> simp [Except.map, Except.bind, Reader.pure, h]
    refine .call rfl hwhole ((statements_traced.1 (t :: ts)).andThen fun first rest h => ?_)
    obtain ⟨first, rfl, rfl⟩ := Reader.exists_reading h
    exact (ih first).map _

end Stmt

end CatScript
