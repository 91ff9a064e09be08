import CatScript.Proofs.Syntax.Cursor.Follows

/-!
# The cursor never goes astray

Reading with a cursor comes to the same as reading from a list that gets shorter, for every list of
tokens, and so none of the faults of a cursor ever happens.  That the one follows the other is
carried through every function that reads, by the recursion of the functions that shorten the list.
A loop that collects what its rounds read is compared together with the token that closes it, and
with whatever is made of what it collects.
-/

set_option autoImplicit false

namespace CatScript.Cursor

open Grammar (ahead)
open Reader (of)

variable {tokens ts : List Token} {t : Token} {i : Nat}

/-! ## Expressions -/

/-- Behind a name, a call is read like its arguments. -/
theorem follows_finishCall (hleft : left tokens i = t :: ts) (kind : t.kind = .leftParen)
    (hargs : Follows (upTo tokens .rightParen Expr.callHelp (fun args close => (args, close.span))
      (arguments tokens (i + 1))) (of Expr.arguments ts)) (name : Token) :
    Follows (finishCall tokens name i) ((of Expr.arguments).map (fun args =>
      .call name.lexeme args.1 (name.span.through args.2)) ts) := by
  rw [finishCall, consume_eq hleft kind (left_cons hleft).2.2.2, ok_bind]
  exact hargs.map fun args => follows_arrive (by have := args.further; omega) args.inside

/-- All that reads expressions with a cursor comes to what the readers of expressions do.  The
induction is on the recursion of the latter. -/
theorem Ended.expressions_follow (h : Ended tokens) :
    (∀ ts i, i ≤ finish tokens → left tokens i = ts →
      Follows (primary tokens i) (of Expr.operand ts)) ∧
    (∀ floor ts i, i ≤ finish tokens → left tokens i = ts →
      Follows (binary tokens floor i) (of (Expr.climb floor) ts)) ∧
    (∀ floor e ts i, i ≤ finish tokens → left tokens i = ts →
      Follows (operators tokens floor e i) (of (Expr.chain floor e) ts)) ∧
    ∀ ts i, i ≤ finish tokens → left tokens i = ts →
      ∀ {β : Type} (f : List Expr → Span → β),
        Follows (upTo tokens .rightParen Expr.callHelp (fun args close => f args close.span)
          (arguments tokens i)) ((of Expr.arguments).map (fun args => f args.1 args.2) ts) := by
  apply Expr.operand.mutual_induct
    (fun ts => ∀ i, i ≤ finish tokens → left tokens i = ts →
      Follows (primary tokens i) (of Expr.operand ts))
    (fun floor ts => ∀ i, i ≤ finish tokens → left tokens i = ts →
      Follows (binary tokens floor i) (of (Expr.climb floor) ts))
    (fun floor e ts => ∀ i, i ≤ finish tokens → left tokens i = ts →
      Follows (operators tokens floor e i) (of (Expr.chain floor e) ts))
    (fun ts => ∀ i, i ≤ finish tokens → left tokens i = ts →
      ∀ {β : Type} (f : List Expr → Span → β),
        Follows (upTo tokens .rightParen Expr.callHelp (fun args close => f args close.span)
          (arguments tokens i)) ((of Expr.arguments).map (fun args => f args.1 args.2) ts))
  -- What the cursor looks at is the head of the list, so that both take the same branch.  The list
  -- has its closing parenthesis read by the arguments, the cursor behind them: hence `upTo`.
  case case1 =>
    intro i hi hleft
    obtain ⟨t, hlook, hkind⟩ := h.exists_look hi
    rw [hleft, Grammar.ahead_nil] at hkind
    rw [primary, hlook, ok_bind, hkind, Expr.of_operand_nil]
    exact h.follows_reject_end hi hleft hlook
  case case2 =>
    intro t ts kind ih i hi hleft
    obtain ⟨hlook, -, hts, hinside⟩ := left_cons hleft
    rw [primary, hlook, ok_bind, kind, Expr.of_operand_minus kind]
    dsimp only
    rw [advance_eq hleft hinside, ok_bind]
    exact (ih (i + 1) hinside hts).map fun e =>
      follows_arrive (Nat.le_of_succ_le e.further) e.inside
  case case3 =>
    intro t ts kind n reads i hi hleft
    obtain ⟨hlook, -, rfl, hinside⟩ := left_cons hleft
    rw [primary, hlook, ok_bind, kind, Expr.of_operand_integer kind reads]
    dsimp only
    rw [advance_eq hleft hinside, ok_bind, reads]
    exact follows_arrive le_rfl hinside
  case case4 =>
    intro t ts kind reads i hi hleft
    obtain ⟨hlook, hend, -, hinside⟩ := left_cons hleft
    rw [primary, hlook, ok_bind, kind, Expr.of_operand_integer_none kind reads]
    dsimp only
    rw [advance_eq hleft hinside, ok_bind, reads]
    exact follows_reject_token hend
  case case5 =>
    intro t ts kind x reads i hi hleft
    obtain ⟨hlook, -, rfl, hinside⟩ := left_cons hleft
    rw [primary, hlook, ok_bind, kind, Expr.of_operand_float kind reads]
    dsimp only
    rw [advance_eq hleft hinside, ok_bind, reads]
    exact follows_arrive le_rfl hinside
  case case6 =>
    intro t ts kind reads i hi hleft
    obtain ⟨hlook, hend, -, hinside⟩ := left_cons hleft
    rw [primary, hlook, ok_bind, kind, Expr.of_operand_float_none kind reads]
    dsimp only
    rw [advance_eq hleft hinside, ok_bind, reads]
    exact follows_reject_token hend
  case case7 =>
    intro t ts kind i hi hleft
    obtain ⟨hlook, -, rfl, hinside⟩ := left_cons hleft
    rw [primary, hlook, ok_bind, kind, Expr.of_operand_string kind]
    dsimp only
    rw [advance_eq hleft hinside, ok_bind]
    exact follows_arrive le_rfl hinside
  case case8 =>
    intro t ts kind opens ih i hi hleft
    obtain ⟨hlook, -, hts, hinside⟩ := left_cons hleft
    obtain ⟨opening, us, rfl, next⟩ :=
      Grammar.exists_cons_of_ahead_eq ((Token.opensCall_iff ts).1 opens) (by decide)
    rw [primary, hlook, ok_bind, kind, Expr.of_operand_call kind next]
    dsimp only
    rw [advance_eq hleft hinside, ok_bind, (left_cons hts).1, ok_bind, if_pos next]
    have hargs := ih (i + 1 + 1) (left_cons hts).2.2.2 (left_cons hts).2.2.1 Prod.mk
    rw [Reader.map_self] at hargs
    exact (follows_finishCall hts next hargs t).weaken (Nat.le_succ _)
  case case9 =>
    intro t ts kind opens i hi hleft
    obtain ⟨hlook, -, rfl, hinside⟩ := left_cons hleft
    obtain ⟨next, hnext, hkind⟩ := h.exists_look hinside
    have hopens : ahead (left tokens (i + 1)) ≠ .leftParen :=
      fun h => opens ((Token.opensCall_iff _).2 h)
    rw [primary, hlook, ok_bind, kind, Expr.of_operand_name kind hopens]
    dsimp only
    rw [advance_eq hleft hinside, ok_bind, hnext, ok_bind, if_neg (hkind ▸ hopens)]
    exact follows_arrive le_rfl hinside
  case case10 =>
    intro t ts kind ih i hi hleft
    obtain ⟨hlook, -, rfl, hinside⟩ := left_cons hleft
    rw [primary, hlook, ok_bind, kind, Expr.of_operand_group kind]
    dsimp only
    rw [advance_eq hleft hinside, ok_bind, expression]
    refine (ih (i + 1) hinside rfl).andThen fun e _ => ?_
    have hfurther := e.further
    exact (h.follows_consume e.inside (by decide) Expr.groupHelp).map fun close =>
      follows_arrive (by have := close.further; omega) close.inside
  case case11 =>
    intro t ts minus integer float string identifier leftParen i hi hleft
    obtain ⟨hlook, hend, -, -⟩ := left_cons hleft
    have kind : Grammar.beginsExpression t.kind = false := by
      cases hk : t.kind <;> simp_all [Grammar.beginsExpression]
    have hprimary : primary tokens i =
        reject tokens i .expression t (some (Expr.helpFor t.kind)) := by
      rw [primary, hlook, ok_bind]
      revert kind
      cases t.kind <;> simp [Grammar.beginsExpression]
    rw [hprimary, Expr.of_operand_other kind]
    exact follows_reject_token hend
  case case12 =>
    intro floor ts ihFirst ihAll i hi hleft
    rw [binary, Expr.of_climb]
    refine (ihFirst i hi hleft).andThen fun first hfirst => ?_
    obtain ⟨reading, hvalue, hrest⟩ := Reader.exists_reading hfirst
    have hchain := ihAll reading first.stop first.inside hrest.symm
    rw [hvalue, hrest] at hchain
    exact hchain.weaken first.further
  case case13 =>
    intro floor e i hi hleft
    obtain ⟨t, hlook, hkind⟩ := h.exists_look hi
    rw [hleft, Grammar.ahead_nil] at hkind
    rw [operators, hlook, ok_bind, hkind, Expr.of_chain_done (by simp [TokenKind.operator?]),
      ← hleft]
    exact follows_arrive le_rfl hi
  case case14 =>
    intro floor e t ts kind i hi hleft
    obtain ⟨hlook, -, -, -⟩ := left_cons hleft
    rw [operators, hlook, ok_bind, kind, Expr.of_chain_done (by simp [kind]), ← hleft]
    exact follows_arrive le_rfl hi
  case case15 =>
    intro floor e t ts op kind tight ihRight ihAll i hi hleft
    obtain ⟨hlook, -, rfl, hinside⟩ := left_cons hleft
    rw [operators, hlook, ok_bind, kind, Expr.of_chain_more kind tight]
    dsimp only
    rw [if_pos tight, advance_eq hleft hinside, ok_bind]
    refine ((ihRight (i + 1) hinside rfl).orHelp _).andThen fun right hright => ?_
    obtain ⟨reading, hvalue, hrest⟩ := Reader.exists_reading (Reader.orHelp_eq_ok_iff.1 hright)
    have hchain := ihAll reading right.stop right.inside hrest.symm
    have hfurther := right.further
    rw [hvalue, hrest] at hchain
    rw [arrive_eq (by omega) right.inside, ok_bind]
    exact hchain.weaken (by omega)
  case case16 =>
    intro floor e t ts op kind loose i hi hleft
    obtain ⟨hlook, -, -, -⟩ := left_cons hleft
    rw [operators, hlook, ok_bind, kind, Expr.of_chain_done, ← hleft]
    · dsimp only
      rw [if_neg loose]
      exact follows_arrive le_rfl hi
    · intro op' hop
      rw [Grammar.ahead_cons, kind] at hop
      cases hop
      exact Nat.not_lt.1 loose
  case case17 =>
    intro i hi hleft β f
    obtain ⟨t, hlook, hkind⟩ := h.exists_look hi
    rw [hleft, Grammar.ahead_nil] at hkind
    rw [arguments, hlook, ok_bind, if_pos (.inr hkind),
      Reader.map_of_eq (Expr.of_arguments_done (by simp)), Reader.map_map, ← hleft]
    exact h.upTo_arrive hi (by decide) []
  case case18 =>
    intro t ts kind i hi hleft β f
    obtain ⟨hlook, -, -, -⟩ := left_cons hleft
    rw [arguments, hlook, ok_bind, if_pos (.inl kind),
      Reader.map_of_eq (Expr.of_arguments_done (by simpa using kind)), Reader.map_map, ← hleft]
    exact h.upTo_arrive hi (by decide) []
  case case19 =>
    intro t ts kind ihFirst ihOthers i hi hleft β f
    obtain ⟨hlook, hend, -, -⟩ := left_cons hleft
    rw [arguments, hlook, ok_bind, if_neg (not_or.2 ⟨kind, hend⟩), upTo_bind, expression,
      Reader.map_of_eq (Expr.of_arguments_cons kind ts), Reader.map_andThen]
    refine (ihFirst i hi hleft).andThen fun e he => ?_
    obtain ⟨reading, hvalue, hrest⟩ := Reader.exists_reading he
    obtain ⟨stop, hstop, hle, hinside, hcomma⟩ := h.skipComma_eq e.inside
    have hlow := e.further.trans hle
    have hothers := ihOthers reading stop hinside (hrest ▸ hcomma)
      fun others span => f (e.value :: others) span
    rw [hstop, ok_bind, arrive_eq hlow hinside, ok_bind, Reader.map_map]
    rw [hrest] at hothers
    exact hothers.upTo_arrive (Nat.le_of_succ_le hlow)

/-- Whole expressions are read alike. -/
theorem Ended.follows_expression (h : Ended tokens) (hi : i ≤ finish tokens) :
    Follows (expression tokens i) (of (Expr.climb 0) (left tokens i)) := by
  rw [expression]
  exact h.expressions_follow.2.1 0 _ i hi rfl

/-! ## Statements -/

/-- The token behind the cursor is of the kind that is ahead there. -/
theorem Ended.nextIs_iff (h : Ended tokens) (hi : i + 1 ≤ finish tokens) (kind : TokenKind) :
    nextIs tokens kind i = true ↔ ahead (left tokens (i + 1)) = kind := by
  obtain ⟨t, hlook, hkind⟩ := h.exists_look hi
  unfold look at hlook
  cases hget : tokens[i + 1]? with
  | none => simp [hget] at hlook
  | some u =>
    obtain rfl : u = t := by simpa [hget] using hlook
    simp [nextIs, hget, hkind]

/-- Parameters are read with a cursor as they are read from a list. -/
theorem Ended.parameters_follow (h : Ended tokens) (ts : List Token) :
    ∀ i, i ≤ finish tokens → left tokens i = ts → ∀ {β : Type} (f : List Parameter → β),
      Follows (upTo tokens .rightParen "Close the parameter list with ')'."
        (fun params _ => f params) (parameters tokens i)) ((of Stmt.parameters).map f ts) := by
  induction ts using Stmt.parameters.induct with
  | case1 =>
    intro i hi hleft β f
    obtain ⟨t, hlook, hkind⟩ := h.exists_look hi
    rw [hleft, Grammar.ahead_nil] at hkind
    rw [parameters, hlook, ok_bind, if_pos (.inr hkind),
      Reader.map_of_eq (Stmt.of_parameters_done (by simp)), Reader.map_map, ← hleft]
    exact h.upTo_arrive hi (by decide) []
  | case2 t ts kind =>
    intro i hi hleft β f
    obtain ⟨hlook, -, -, -⟩ := left_cons hleft
    rw [parameters, hlook, ok_bind, if_pos (.inl kind),
      Reader.map_of_eq (Stmt.of_parameters_done (by simpa using kind)), Reader.map_map, ← hleft]
    exact h.upTo_arrive hi (by decide) []
  | case3 t ts close kind ih =>
    intro i hi hleft β f
    obtain ⟨hlook, hend, rfl, hinside⟩ := left_cons hleft
    obtain ⟨stop, hstop, hle, hstop', hcomma⟩ := h.skipComma_eq hinside
    have hothers := ih stop hstop' hcomma fun others => f (⟨t.lexeme, t.span⟩ :: others)
    rw [parameters, hlook, ok_bind, if_neg (not_or.2 ⟨close, hend⟩), consume_eq hleft kind hinside,
      ok_bind, hstop, ok_bind, arrive_eq hle hstop', ok_bind,
      Reader.map_of_eq (Stmt.of_parameters_cons kind _), Reader.map_map]
    exact hothers.upTo_arrive (Nat.le_of_succ_le hle)
  | case4 t ts close kind =>
    intro i hi hleft β f
    obtain ⟨hlook, hend, -, -⟩ := left_cons hleft
    have hconsume : Follows (consume tokens .identifier
        "Parameters are plain names separated by commas or spaces." i) _ :=
      h.follows_consume hi (by decide) _
    rw [hleft, Token.of_expect_ne kind] at hconsume
    rw [parameters, hlook, ok_bind, if_neg (not_or.2 ⟨close, hend⟩), upTo_bind,
      Reader.map_of_error (Stmt.of_parameters_other close kind ts)]
    exact hconsume.bind_error _

/-- The head of a function is read with a cursor as it is read from a list. -/
theorem Ended.follows_functionHead (h : Ended tokens) (hi : i ≤ finish tokens) :
    Follows (functionHead tokens i) (of Stmt.trickHead (left tokens i)) := by
  rw [functionHead, Stmt.of_trickHead]
  refine (h.follows_consume hi (by decide) _).andThen fun name _ => ?_
  refine (h.follows_consume name.inside (by decide) _).andThen fun opening _ => ?_
  have hparams := h.parameters_follow _ opening.stop opening.inside rfl fun params => params
  rw [Reader.map_self] at hparams
  refine hparams.andThen fun params _ => ?_
  refine (h.follows_consume params.inside (by decide) _).map fun brace => ?_
  have hname := name.further
  have hopening := opening.further
  exact follows_arrive (by have := params.further; have := brace.further; omega) brace.inside

/-- All that reads statements with a cursor comes to what the readers of statements do.  The
induction is on the recursion of the latter. -/
theorem Ended.statements_follow (h : Ended tokens) :
    (∀ ts i, i ≤ finish tokens → left tokens i = ts →
      Follows (statement tokens i) (of Stmt.ofTokens ts)) ∧
    ∀ ts i, i ≤ finish tokens → left tokens i = ts → ∀ {β : Type} (f : List Stmt → Span → β),
      Follows (upTo tokens .rightBrace "Close the function body with '\x7d'."
        (fun block close => f block close.span) (body tokens i))
        ((of Stmt.body).map (fun block => f block.1 block.2) ts) := by
  apply Stmt.ofTokens.mutual_induct
    (fun ts => ∀ i, i ≤ finish tokens → left tokens i = ts →
      Follows (statement tokens i) (of Stmt.ofTokens ts))
    (fun ts => ∀ i, i ≤ finish tokens → left tokens i = ts →
      ∀ {β : Type} (f : List Stmt → Span → β),
        Follows (upTo tokens .rightBrace "Close the function body with '\x7d'."
          (fun block close => f block close.span) (body tokens i))
          ((of Stmt.body).map (fun block => f block.1 block.2) ts))
  case case1 =>
    intro i hi hleft
    obtain ⟨t, hlook, hkind⟩ := h.exists_look hi
    have he := h.follows_expression hi
    rw [hleft, Expr.of_climb_nil] at he
    rw [hleft, Grammar.ahead_nil] at hkind
    rw [statement, hlook, ok_bind, hkind, Stmt.of_ofTokens_nil]
    exact he.bind_error _
  case case2 =>
    intro t ts kind i hi hleft
    obtain ⟨hlook, -, rfl, hinside⟩ := left_cons hleft
    rw [statement, hlook, ok_bind, kind, Stmt.of_print kind]
    dsimp only
    rw [advance_eq hleft hinside, ok_bind]
    refine (h.follows_consume hinside (by decide) _).andThen fun opening _ => ?_
    refine (h.follows_expression opening.inside).andThen fun e _ => ?_
    refine (h.follows_consume e.inside (by decide) _).map fun close => ?_
    have hopening := opening.further
    have he := e.further
    exact follows_arrive (by have := close.further; omega) close.inside
  case case3 =>
    intro t ts kind i hi hleft
    obtain ⟨hlook, -, rfl, hinside⟩ := left_cons hleft
    rw [statement, hlook, ok_bind, kind, Stmt.of_declare kind]
    dsimp only
    rw [advance_eq hleft hinside, ok_bind]
    refine (h.follows_consume hinside (by decide) _).andThen fun name _ => ?_
    refine (h.follows_consume name.inside (by decide) _).andThen fun equal _ => ?_
    refine (h.follows_expression equal.inside).map fun e => ?_
    have hname := name.further
    have hequal := equal.further
    exact follows_arrive (by have := e.further; omega) e.inside
  case case4 =>
    intro t ts kind i hi hleft
    obtain ⟨hlook, -, rfl, hinside⟩ := left_cons hleft
    rw [statement, hlook, ok_bind, kind, Stmt.of_ask kind]
    dsimp only
    rw [advance_eq hleft hinside, ok_bind]
    refine (h.follows_consume hinside (by decide) _).map fun name => ?_
    exact follows_arrive (by have := name.further; omega) name.inside
  case case5 =>
    intro t ts kind ih i hi hleft
    obtain ⟨hlook, -, rfl, hinside⟩ := left_cons hleft
    rw [statement, hlook, ok_bind, kind, Stmt.of_trick kind]
    dsimp only
    rw [advance_eq hleft hinside, ok_bind]
    refine (h.follows_functionHead hinside).andThen fun head hhead => ?_
    obtain ⟨reading, hvalue, hrest⟩ := Reader.exists_reading hhead
    have hbody := ih reading head.stop head.inside hrest.symm Prod.mk
    rw [Reader.map_self, hrest] at hbody
    have hfurther := head.further
    exact hbody.map fun block => follows_arrive (by have := block.further; omega) block.inside
  case case6 =>
    intro t ts kind opens i hi hleft
    obtain ⟨hlook, -, hts, hinside⟩ := left_cons hleft
    obtain ⟨opening, us, rfl, next⟩ :=
      Grammar.exists_cons_of_ahead_eq ((Token.opensCall_iff ts).1 opens) (by decide)
    have hnext : nextIs tokens .leftParen i = true :=
      (h.nextIs_iff hinside .leftParen).2 (by rw [hts]; exact next)
    have hargs := h.expressions_follow.2.2.2 us (i + 1 + 1) (left_cons hts).2.2.2
      (left_cons hts).2.2.1 Prod.mk
    rw [Reader.map_self] at hargs
    have hcall := follows_finishCall hts next hargs t
    rw [statement, hlook, ok_bind, kind, Stmt.of_call kind next]
    dsimp only
    rw [if_pos hnext, advance_eq hleft hinside, ok_bind]
    have hstatement := hcall.map (f := fun e => Stmt.expression e e.span) fun call =>
      follows_arrive (Nat.le_of_succ_le call.further) call.inside
    rwa [Reader.map_map] at hstatement
  case case7 =>
    intro t ts kind opens i hi hleft
    obtain ⟨hlook, -, rfl, hinside⟩ := left_cons hleft
    have hahead : ahead (left tokens (i + 1)) ≠ .leftParen :=
      fun h => opens ((Token.opensCall_iff _).2 h)
    have hnext : ¬ nextIs tokens .leftParen i = true :=
      fun h' => hahead ((h.nextIs_iff hinside .leftParen).1 h')
    rw [statement, hlook, ok_bind, kind, Stmt.of_name kind hahead]
    dsimp only
    rw [if_neg hnext, advance_eq hleft hinside, ok_bind]
    exact follows_arrive le_rfl hinside
  case case8 =>
    intro t ts purr meow woof trick name i hi hleft
    obtain ⟨hlook, -, -, -⟩ := left_cons hleft
    have keyword : Grammar.beginsStatement t.kind = true →
        Grammar.beginsExpression t.kind = true := by
      cases hk : t.kind <;> simp_all [Grammar.beginsStatement]
    have hstatement : statement tokens i = (do
        let e ← expression tokens i
        arrive tokens (i + 1) e.stop (.expression e.value e.value.span)) := by
      rw [statement, hlook, ok_bind]
      cases hk : t.kind <;> simp_all
    rw [hstatement, Stmt.of_expression keyword name, Stmt.of_expressionOf, ← hleft]
    exact (h.follows_expression hi).map fun e => follows_arrive e.further e.inside
  case case9 =>
    intro i hi hleft β f
    obtain ⟨t, hlook, hkind⟩ := h.exists_look hi
    rw [hleft, Grammar.ahead_nil] at hkind
    rw [body, hlook, ok_bind, if_pos (.inr hkind),
      Reader.map_of_eq (Stmt.of_body_done (by simp)), Reader.map_map, ← hleft]
    exact h.upTo_arrive hi (by decide) []
  case case10 =>
    intro t ts kind i hi hleft β f
    obtain ⟨hlook, -, -, -⟩ := left_cons hleft
    rw [body, hlook, ok_bind, if_pos (.inl kind),
      Reader.map_of_eq (Stmt.of_body_done (by simpa using kind)), Reader.map_map, ← hleft]
    exact h.upTo_arrive hi (by decide) []
  case case11 =>
    intro t ts kind ihFirst ihOthers i hi hleft β f
    obtain ⟨hlook, hend, -, -⟩ := left_cons hleft
    rw [body, hlook, ok_bind, if_neg (not_or.2 ⟨kind, hend⟩), upTo_bind,
      Reader.map_of_eq (Stmt.of_body_cons kind ts), Reader.map_andThen]
    refine (ihFirst i hi hleft).andThen fun first hfirst => ?_
    obtain ⟨reading, hvalue, hrest⟩ := Reader.exists_reading hfirst
    have hothers := ihOthers reading first.stop first.inside hrest.symm
      fun others span => f (first.value :: others) span
    rw [Reader.map_map]
    rw [hrest] at hothers
    exact hothers.upTo_arrive (Nat.le_of_succ_le first.further)

/-! ## Programs -/

/-- Statements up to the end of the input are read with a cursor as they are read from a list. -/
theorem Ended.statements_eq (h : Ended tokens) (ts : List Token) :
    ∀ i, i ≤ finish tokens → left tokens i = ts →
      statements tokens i = rejecting tokens (Stmt.all ts) := by
  induction ts using Stmt.all.induct with
  | case1 =>
    intro i hi hleft
    obtain ⟨t, hlook, hkind⟩ := h.exists_look hi
    rw [hleft, Grammar.ahead_nil] at hkind
    rw [statements, hlook, ok_bind, if_pos hkind, Stmt.all]
    rfl
  | case2 t ts ih =>
    intro i hi hleft
    obtain ⟨hlook, hend, -, -⟩ := left_cons hleft
    have hfirst := h.statements_follow.1 (t :: ts) i hi hleft
    rw [statements, hlook, ok_bind, if_neg hend, Stmt.all_cons]
    cases hm : statement tokens i with
    | error halt =>
      rw [hm] at hfirst
      obtain ⟨r, hx, rfl⟩ := hfirst.eq_error
      rw [hx]
      rfl
    | ok first =>
      rw [hm] at hfirst
      obtain ⟨reading, -, hrest⟩ := Reader.exists_reading hfirst.eq_ok
      rw [ok_bind, ih reading first.stop first.inside hrest.symm, hfirst.eq_ok, hrest]
      change _ = rejecting tokens ((Stmt.all (left tokens first.stop)).map _)
      cases Stmt.all (left tokens first.stop) <;> rfl

/-- From the first token on, the statements of the script are read. -/
theorem statements_zero (h : finish tokens < tokens.length) :
    statements tokens 0 = rejecting tokens (Stmt.all (Token.script tokens)) := by
  by_cases hscript : Token.script tokens = []
  · obtain ⟨tail, htokens, htail⟩ := Grammar.exists_eq_script_append tokens
    rw [hscript, List.nil_append] at htokens
    subst htokens
    obtain ⟨last, behind, rfl⟩ := List.exists_cons_of_length_pos (Nat.zero_lt_of_lt h)
    have hlast : last.kind = .endOfInput := htail
    have hlook : look (last :: behind) 0 = .ok last := rfl
    rw [statements, hlook, ok_bind, if_pos hlast, hscript, Stmt.all]
    rfl
  · exact Ended.statements_eq ⟨h, hscript⟩ _ 0 (Nat.zero_le _) rfl

/-- An end of the input is put behind the tokens, if anything is. -/
theorem exists_closed_append (tokens : List Token) : ∃ more, closed tokens = tokens ++ more := by
  unfold closed
  split
  next h => exact ⟨_, by rw [List.getLast?_eq_none_iff.1 h]; rfl⟩
  next last h =>
    split
    · exact ⟨[], (List.append_nil _).symm⟩
    · exact ⟨_, rfl⟩

/-- A cursor stops at the first end of the input, or else at the one put behind all tokens.  Errors
at the end of the input point where they would if that were the only one. -/
theorem exists_closed (tokens : List Token) : ∃ last behind,
    closed tokens = Token.script tokens ++ last :: behind ∧ last.kind = .endOfInput ∧
      Token.finish tokens = Token.finish (Token.script tokens ++ [last]) := by
  obtain ⟨tail, htokens, htail⟩ := Grammar.exists_eq_script_append tokens
  cases tail with
  | cons last behind =>
    have hlast : last.kind = .endOfInput := htail
    obtain ⟨more, hmore⟩ := exists_closed_append tokens
    refine ⟨last, behind ++ more, ?_, hlast, ?_⟩
    · rw [hmore, ← List.cons_append, ← List.append_assoc, ← htokens]
    · conv_lhs => rw [htokens]
      rw [finish_script_append tokens hlast, finish_script_append tokens hlast]
  | nil =>
    rw [List.append_nil] at htokens
    cases hgetLast : tokens.getLast? with
    | none =>
      obtain rfl := List.getLast?_eq_none_iff.1 hgetLast
      exact ⟨⟨.endOfInput, "", Span.point Position.start⟩, [], rfl, rfl, rfl⟩
    | some t =>
      have hkind : t.kind ≠ .endOfInput :=
        Grammar.kind_ne_of_mem_script (htokens ▸ List.mem_of_getLast? hgetLast)
      refine ⟨⟨.endOfInput, "", Span.point ⟨t.span.stop, t.line, t.column⟩⟩, [], ?_, rfl, ?_⟩
      · rw [closed, hgetLast, ← htokens]
        exact if_neg hkind
      · have hfind : tokens.find? (·.kind = .endOfInput) = none := by
          rw [List.find?_eq_none, htokens]
          intro u hu
          simpa using Grammar.kind_ne_of_mem_script hu
        rw [finish_script_append tokens rfl]
        rw [Token.line_mk, Token.column_mk]
        simp [Token.finish, ← htokens, hgetLast, hfind, Span.point]

/-- Of the tokens behind the first end of the input nothing is read. -/
theorem ofTokens_eq {last : Token} (hlast : last.kind = .endOfInput)
    (hfinish : Token.finish tokens = Token.finish (Token.script tokens ++ [last]))
    (behind : List Token) :
    Program.ofTokens (Token.script tokens ++ last :: behind) = Program.ofTokens tokens := by
  unfold Program.ofTokens
  rw [script_script_append tokens hlast, hfinish, finish_script_append tokens hlast,
    finish_script_append tokens hlast]

/-- The end of the input at which the cursor stops is one of the tokens. -/
theorem finish_closed_lt (tokens : List Token) :
    finish (closed tokens) < (closed tokens).length := by
  obtain ⟨last, behind, hclosed, hlast, -⟩ := exists_closed tokens
  rw [finish_eq, hclosed, script_script_append tokens hlast, List.length_append, List.length_cons]
  omega

/-- What is heard of tokens is the script and the end of the input behind it. -/
theorem heard_closed {last : Token} {behind : List Token} (hlast : last.kind = .endOfInput)
    (hclosed : closed tokens = Token.script tokens ++ last :: behind) :
    heard (closed tokens) = Token.script tokens ++ [last] := by
  change (closed tokens).take (finish (closed tokens) + 1) = _
  rw [finish_eq, hclosed, script_script_append tokens hlast, List.take_append]
  simp

/-- What is read of tokens with a cursor is what is read of the list. -/
theorem parse_eq (tokens : List Token) :
    parse tokens = (Program.ofTokens tokens).mapError .rejected := by
  obtain ⟨last, behind, hclosed, hlast, hfinish⟩ := exists_closed tokens
  rw [parse, statements_zero (finish_closed_lt tokens), ← ofTokens_eq hlast hfinish behind,
    ← hclosed, Program.ofTokens]
  cases Stmt.all (Token.script (closed tokens)) <;> rfl

/-- Reading tokens with a cursor is safe, whatever the tokens are. -/
structure Safe (tokens : List Token) : Prop where
  /-- No place without a token is looked at, the cursor is never behind the first end of the input,
  and no statement, expression, primary or round of a loop is done without a token. -/
  noFault : ∀ fault, parse tokens ≠ .error (.fault fault)
  /-- The first end of the input is one of the tokens. -/
  finish_lt : finish (closed tokens) < (closed tokens).length
  reads : parse tokens = (Program.ofTokens tokens).mapError .rejected
  hears : parse tokens = parse (heard (closed tokens))

/-- Every list of tokens is read safely. -/
theorem parse_safe (tokens : List Token) : Safe tokens where
  noFault fault h := by
    rw [parse_eq] at h
    cases hread : Program.ofTokens tokens <;> simp [hread, Except.mapError] at h
  finish_lt := finish_closed_lt tokens
  reads := parse_eq tokens
  hears := by
    obtain ⟨last, behind, hclosed, hlast, hfinish⟩ := exists_closed tokens
    rw [parse_eq, parse_eq, heard_closed hlast hclosed, ofTokens_eq hlast hfinish]

/-- Without an end of the input a cursor would go off the tokens. -/
example : statements [⟨.identifier, "x", ⟨0, 1, 1, 1⟩⟩] 0 = .error (.fault .offTokens) := by
  cbv

end CatScript.Cursor
