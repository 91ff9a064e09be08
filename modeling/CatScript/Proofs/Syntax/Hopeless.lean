import CatScript.Proofs.Syntax.Nearsighted
import CatScript.Proofs.Syntax.Grammar.Complete

/-!
# Errors at the first hopeless token

A list of tokens that is no program is rejected at the first token at which it is hopeless: the
tokens before that one are the beginning of a program, and no tokens behind it can help.  This is
shown of every function that reads, along its recursion; what completes the tokens before a
rejected one is put together from what completes each of the readers that were left unfinished.
-/

set_option autoImplicit false

namespace CatScript

open Grammar (ahead)
open Reader (of Nearsighted AlwaysNearsighted Completes Safe sample)

variable {t : Token} {ts : List Token}

namespace Reader

variable {α : Type} {n : List Token → Nat}

/-- A function whose readings are shorter than the tokens they are made from reads a token. -/
theorem of_ne_ok_self {f : (ts : List Token) → Except Rejection (Reading α (n ts))}
    (hn : n ts ≤ ts.length) (value : α) : of f ts ≠ .ok (value, ts) := by
  intro h
  obtain ⟨r, -, hrest⟩ := exists_reading h
  have hshorter := r.shorter
  rw [hrest] at hshorter
  omega

end Reader

/-! ## Expressions -/

namespace Expr

/-- A string completes an operand. -/
theorem completes_operand : Completes true (of operand) [sample .string] :=
  Reader.completes_sample (by decide) fun more _ => ⟨_, of_operand_string rfl more⟩

/-- A chain is complete without anything more. -/
theorem completes_chain (floor : Nat) (left : Expr) :
    Completes true (of (chain floor left)) [] where
  proper := by simp
  reads more hmore := ⟨left, of_chain_done fun op h => by simp [(hmore rfl).2] at h⟩

/-- A string completes an expression. -/
theorem completes_climb (floor : Nat) : Completes true (of (climb floor)) [sample .string] := by
  rw [of_climb]
  exact completes_operand.andThen (fun more hmore => hmore) (completes_chain floor)

/-- A closing parenthesis completes arguments. -/
theorem completes_arguments : Completes false (of arguments) [sample .rightParen] :=
  Reader.completes_sample (by decide) fun more _ => ⟨_, of_arguments_close rfl more⟩

/-- A closing parenthesis completes arguments behind a comma that is not there. -/
theorem completes_pastComma : Completes false (of arguments).pastComma [sample .rightParen] :=
  Reader.completes_sample (by decide) fun more _ => ⟨_, of_arguments_close rfl more⟩

/-- All that reads expressions is nearsighted.  Arguments do not look at the token behind them; the
others do. -/
theorem expressions_nearsighted :
    (∀ ts, Nearsighted true (of operand) ts) ∧
      (∀ floor ts, Nearsighted true (of (climb floor)) ts) ∧
      (∀ floor left ts, Nearsighted true (of (chain floor left)) ts) ∧
      ∀ ts, Nearsighted false (of arguments) ts := by
  apply Expr.operand.mutual_induct
    (fun ts => Nearsighted true (of operand) ts)
    (fun floor ts => Nearsighted true (of (climb floor)) ts)
    (fun floor left ts => Nearsighted true (of (chain floor left)) ts)
    (fun ts => Nearsighted false (of arguments) ts)
  -- What takes its token did not look any further; what rejects it needs tokens that could have
  -- stood there instead.
  case case1 => exact .lacks of_operand_nil completes_operand
  case case2 =>
    intro t ts kind ih
    exact (ih.map _).behind (of_operand_minus kind)
  case case3 =>
    intro t ts kind i reads
    exact .takes fun us _ => of_operand_integer kind reads us
  case case4 =>
    intro t ts kind reads
    exact .refuses (of_operand_integer_none kind reads) completes_operand
  case case5 =>
    intro t ts kind x reads
    exact .takes fun us _ => of_operand_float kind reads us
  case case6 =>
    intro t ts kind reads
    exact .refuses (of_operand_float_none kind reads) completes_operand
  case case7 =>
    intro t ts kind
    exact .takes fun us _ => of_operand_string kind us
  case case8 =>
    intro t ts kind opens ih
    obtain ⟨opening, us, rfl, next⟩ :=
      Grammar.exists_cons_of_ahead_eq ((Token.opensCall_iff ts).1 opens) (by decide)
    have h : Nearsighted true (fun us => of operand (t :: us)) (opening :: us) :=
      (ih.map _).weaken.behind (of_operand_call kind next)
    exact h.behind fun _ => rfl
  case case9 =>
    intro t ts kind opens
    refine .takes fun us hus => of_operand_name kind ?_
    obtain hus | hus := hus
    · exact fun h => opens ((Token.opensCall_iff ts).2 (hus ▸ h))
    · exact (hus rfl).1
  case case10 =>
    intro t ts kind ih
    refine .behind (of_operand_group kind) (Nearsighted.weaken ?_)
    have close : AlwaysNearsighted false (of (Token.expect .rightParen groupHelp))
        [sample .rightParen] :=
      Token.alwaysNearsighted_expect (by decide) groupHelp
    exact ih.andThen (fun e rest _ => (close.nearsighted rest).map _) [sample .rightParen]
      (fun more _ => Reader.safe_cons .rightParen (by decide) more)
      (fun e => close.completes.map _)
  case case11 =>
    intro t ts minus integer float string identifier leftParen
    have kind : Grammar.beginsExpression t.kind = false := by
      cases hk : t.kind <;> simp_all [Grammar.beginsExpression]
    exact .refuses (of_operand_other kind) completes_operand
  case case12 =>
    intro floor ts ihFirst ihAll
    rw [of_climb]
    refine ihFirst.andThen (fun e rest h => ?_) [] (fun more hmore => hmore) (completes_chain floor)
    obtain ⟨first, rfl, rfl⟩ := Reader.exists_reading h
    exact ihAll first
  case case13 =>
    intro floor left
    refine .stays fun us hus => of_chain_done fun op hop => ?_
    obtain hus | hus := hus
    · simp [hus, TokenKind.operator?] at hop
    · simp [hus.2] at hop
  case case14 =>
    intro floor left t ts kind
    refine .stays fun us hus => of_chain_done fun op hop => ?_
    obtain hus | hus := hus
    · simp [hus, kind] at hop
    · simp [hus.2] at hop
  case case15 =>
    intro floor left t ts op kind tight ihRight ihAll
    refine .behind (of_chain_more kind tight) ((ihRight.orHelp _).andThen (fun e rest h => ?_) []
      (fun more hmore => hmore) (fun right => completes_chain floor _))
    obtain ⟨right, rfl, rfl⟩ := Reader.exists_reading (Reader.orHelp_eq_ok_iff.1 h)
    exact ihAll right
  case case16 =>
    intro floor left t ts op kind loose
    refine .stays fun us hus => of_chain_done fun op' hop => ?_
    obtain hus | hus := hus
    · rw [hus, Grammar.ahead_cons, kind] at hop
      cases hop
      exact Nat.not_lt.1 loose
    · simp [hus.2] at hop
  case case17 => exact .lacks of_arguments_nil completes_arguments
  case case18 =>
    intro t ts kind
    exact .takes fun us _ => of_arguments_close kind us
  case case19 =>
    intro t ts kind ihFirst ihOthers
    refine .of_eq (fun u us hu => of_arguments_cons (hu ▸ kind) us) (Nearsighted.andThen ihFirst
      (fun e rest h => ?_) [sample .rightParen] (fun more _ => Reader.safe_cons _ (by decide) more)
      (fun e => completes_pastComma.map _)) (fun value => ?_) completes_arguments
    · obtain ⟨first, rfl, rfl⟩ := Reader.exists_reading h
      exact ((ihOthers first).pastComma of_arguments_nil
        (fun value us => Reader.of_ne_ok_self le_rfl value) completes_pastComma).map _
    · rw [← of_arguments_cons kind]
      exact Reader.of_ne_ok_self le_rfl value

/-- Expressions are read with no more foresight than for the operator behind them. -/
theorem alwaysNearsighted_climb (floor : Nat) :
    AlwaysNearsighted true (of (climb floor)) [sample .string] :=
  ⟨expressions_nearsighted.2.1 floor, completes_climb floor⟩

end Expr

/-! ## Statements -/

namespace Stmt

/-- A closing parenthesis completes parameters. -/
theorem completes_parameters : Completes false (of parameters) [sample .rightParen] :=
  Reader.completes_sample (by decide) fun more _ => ⟨_, of_parameters_close rfl more⟩

/-- Parameters are nearsighted, and do not look at the token behind them. -/
theorem nearsighted_parameters (ts : List Token) : Nearsighted false (of parameters) ts := by
  induction ts using parameters.induct with
  | case1 => exact .lacks of_parameters_nil completes_parameters
  | case2 t ts kind => exact .takes fun us _ => of_parameters_close kind us
  | case3 t ts close kind ih =>
    have htail : Completes false (of parameters).pastComma [sample .rightParen] :=
      Reader.completes_sample (by decide) fun more _ => ⟨_, of_parameters_close rfl more⟩
    exact .behind (of_parameters_cons kind) ((ih.pastComma of_parameters_nil
      (fun value us => Reader.of_ne_ok_self le_rfl value) htail).map _)
  | case4 t ts close kind =>
    exact .refuses (of_parameters_other close kind) completes_parameters

/-- The head of a function is nearsighted, and does not look at the token behind it. -/
theorem nearsighted_trickHead (ts : List Token) : Nearsighted false (of trickHead) ts := by
  rw [of_trickHead]
  refine AlwaysNearsighted.nearsighted (.andThen (Token.alwaysNearsighted_expect (by decide) _)
    (fun _ _ => Reader.safe_false _) fun name =>
      .andThen (Token.alwaysNearsighted_expect (by decide) _) (fun _ _ => Reader.safe_false _)
        fun _ => .andThen ⟨nearsighted_parameters, completes_parameters⟩
          (fun _ _ => Reader.safe_false _) fun params =>
            .map (Token.alwaysNearsighted_expect (by decide) _) _) ts

/-- An expression as a statement is nearsighted, and completed by a string. -/
theorem alwaysNearsighted_expressionOf :
    AlwaysNearsighted true (of expressionOf) [sample .string] := by
  rw [of_expressionOf]
  exact (Expr.alwaysNearsighted_climb 0).map _

/-- The question for a variable completes a statement. -/
theorem completes_ofTokens : Completes true (of ofTokens) [sample .woof, sample .identifier] where
  proper := by decide
  reads more _ := ⟨_, (of_ask rfl _).trans rfl⟩

/-- A closing brace completes a body. -/
theorem completes_body : Completes false (of body) [sample .rightBrace] :=
  Reader.completes_sample (by decide) fun more _ => ⟨_, of_body_close rfl more⟩

/-- All that reads statements is nearsighted.  Bodies do not look at the token behind them;
statements do. -/
theorem statements_nearsighted :
    (∀ ts, Nearsighted true (of ofTokens) ts) ∧ ∀ ts, Nearsighted false (of body) ts := by
  apply Stmt.ofTokens.mutual_induct
    (fun ts => Nearsighted true (of ofTokens) ts) (fun ts => Nearsighted false (of body) ts)
  case case1 => exact .lacks of_ofTokens_nil completes_ofTokens
  case case2 =>
    intro t ts kind
    refine .behind (of_print kind) (Nearsighted.weaken ?_)
    exact AlwaysNearsighted.nearsighted (.andThen (Token.alwaysNearsighted_expect (by decide) _)
      (fun _ _ => Reader.safe_false _) fun _ => .andThen (Expr.alwaysNearsighted_climb 0)
        (fun more _ => Reader.safe_cons .rightParen (by decide) more) fun e =>
          .map (Token.alwaysNearsighted_expect (by decide) _) _) ts
  case case3 =>
    intro t ts kind
    refine .behind (of_declare kind) ?_
    exact AlwaysNearsighted.nearsighted (.andThen (Token.alwaysNearsighted_expect (by decide) _)
      (fun _ _ => Reader.safe_false _) fun name =>
        .andThen (Token.alwaysNearsighted_expect (by decide) _) (fun _ _ => Reader.safe_false _)
          fun _ => .map (Expr.alwaysNearsighted_climb 0) _) ts
  case case4 =>
    intro t ts kind
    refine .behind (of_ask kind) (Nearsighted.weaken ?_)
    exact AlwaysNearsighted.nearsighted (.map (Token.alwaysNearsighted_expect (by decide) _) _) ts
  case case5 =>
    intro t ts kind ih
    refine .behind (of_trick kind) (Nearsighted.weaken ?_)
    refine (nearsighted_trickHead ts).andThen (fun head rest h => ?_) [sample .rightBrace]
      (fun more _ hlooks => by simp at hlooks) (fun head => completes_body.map _)
    obtain ⟨head, rfl, rfl⟩ := Reader.exists_reading h
    exact (ih head).map _
  case case6 =>
    intro t ts kind opens
    obtain ⟨opening, us, rfl, next⟩ :=
      Grammar.exists_cons_of_ahead_eq ((Token.opensCall_iff ts).1 opens) (by decide)
    have h : Nearsighted true (fun us => of ofTokens (t :: us)) (opening :: us) :=
      ((Expr.expressions_nearsighted.2.2.2 us).map _).weaken.behind (of_call kind next)
    exact h.behind fun _ => rfl
  case case7 =>
    intro t ts kind opens
    refine .takes fun us hus => of_name kind ?_
    obtain hus | hus := hus
    · exact fun h => opens ((Token.opensCall_iff ts).2 (hus ▸ h))
    · exact (hus rfl).1
  case case8 =>
    intro t ts purr meow woof trick name
    have keyword : Grammar.beginsStatement t.kind = true →
        Grammar.beginsExpression t.kind = true := by
      cases hk : t.kind <;> simp_all [Grammar.beginsStatement]
    exact .of_eq (fun u us hu => of_expression (hu ▸ keyword) (hu ▸ name) us)
      (alwaysNearsighted_expressionOf.nearsighted (t :: ts))
      (fun value => Reader.of_ne_ok_self le_rfl value) completes_ofTokens
  case case9 => exact .lacks of_body_nil completes_body
  case case10 =>
    intro t ts kind
    exact .takes fun us _ => of_body_close kind us
  case case11 =>
    intro t ts kind ihFirst ihOthers
    refine .of_eq (fun u us hu => of_body_cons (hu ▸ kind) us) (Nearsighted.andThen ihFirst
      (fun first rest h => ?_) [sample .rightBrace]
      (fun more _ => Reader.safe_cons _ (by decide) more)
      (fun first => completes_body.map _)) (fun value => ?_) completes_body
    · obtain ⟨first, rfl, rfl⟩ := Reader.exists_reading h
      exact (ihOthers first).map _
    · rw [← of_body_cons kind]
      exact Reader.of_ne_ok_self le_rfl value

end Stmt

/-! ## Programs -/

/-- The error of a token that is rejected does not depend on where the script ends. -/
theorem Rejection.error_of_rest {r : Rejection} (h : r.rest = t :: ts) (finish : Span) :
    r.error finish = ⟨.unexpectedToken r.expected t.kind, t.span, r.help⟩ := by
  rw [error, h]

namespace Stmt

/-- Where the first statement is rejected, the script is. -/
theorem all_of_error {r : Rejection} (h : of ofTokens ts = .error r) (hts : ts ≠ []) :
    all ts = .error r := by
  obtain ⟨t, us, rfl⟩ := List.exists_cons_of_ne_nil hts
  rw [all_cons, h]
  rfl

/-- Behind the first statement the others are read. -/
theorem all_of_ok {first : Stmt} {rest : List Token} (h : of ofTokens ts = .ok (first, rest)) :
    all ts = (all rest).map fun others => first :: others := by
  cases ts with
  | nil => simp [of_ofTokens_nil] at h
  | cons t ts =>
    rw [all_cons, h]
    rfl

/-- Statements up to the end of the tokens are rejected at the first token behind `passed`, whatever
stands behind that one, and there are tokens that would have completed `passed`. -/
structure Rejects (passed : List Token) (r : Rejection) : Prop where
  hopeless : ∀ t ∈ r.rest.head?, ∀ others,
    all (passed ++ t :: others) = .error { r with rest := t :: others }
  completable : ∃ tail, (∀ t ∈ tail, t.kind ≠ .endOfInput) ∧ ∃ ss, all (passed ++ tail) = .ok ss

/-- Nothing at all can stand behind everything. -/
theorem safe_nil : Safe true [] := fun _ => by simp [Reader.Harmless, TokenKind.operator?]

/-- A first statement that is rejected. -/
theorem Rejects.first {passed : List Token} {r : Rejection}
    (h : Reader.Rejects true (of ofTokens) passed r) : Rejects passed r where
  hopeless u hu others := all_of_error (h.hopeless u hu others) (by simp)
  completable := by
    obtain ⟨tail, hproper, hreads⟩ := h.completable
    obtain ⟨first, hfirst⟩ := hreads [] safe_nil
    rw [List.append_nil] at hfirst
    refine ⟨tail, hproper, [first], ?_⟩
    rw [all_of_ok hfirst, all]
    rfl

/-- Statements that are rejected behind one that is read. -/
theorem Rejects.behind {passed passed' : List Token} {r : Rejection} {first : Stmt}
    (h : Reader.Passes true (of ofTokens) passed (passed' ++ r.rest) first)
    (h' : Rejects passed' r) : Rejects (passed ++ passed') r := by
  have hread : ∀ others, ahead others = ahead (passed' ++ r.rest) ∨ Safe true others →
      all (passed ++ others) = (all others).map fun others => first :: others :=
    fun others hothers => all_of_ok (h.reads others hothers)
  refine ⟨fun u hu others => ?_, ?_⟩
  · obtain ⟨us, hus⟩ := List.head?_eq_some_iff.1 hu
    rw [List.append_assoc, hread _ (.inl ?_), h'.hopeless u hu others]
    · rfl
    · rw [hus]
      cases passed' <;> rfl
  · cases passed' with
    | nil =>
      -- The first statement alone is a program.
      refine ⟨[], by simp, [first], ?_⟩
      rw [List.append_nil, List.append_nil, ← List.append_nil passed, hread [] (.inr safe_nil), all]
      rfl
    | cons u us =>
      obtain ⟨tail, hproper, ss, hss⟩ := h'.completable
      refine ⟨tail, hproper, first :: ss, ?_⟩
      rw [List.append_assoc, hread (u :: us ++ tail) (.inl rfl), hss]
      rfl

/-- Where reading statements up to the end of the tokens stops, no tokens behind the next one help,
and some tokens would have completed those before it. -/
theorem all_rejects (ts : List Token) : ∀ r, all ts = .error r →
    ∃ passed, ts = passed ++ r.rest ∧ Rejects passed r := by
  induction ts using all.induct with
  | case1 => simp [all]
  | case2 t ts ih =>
    intro r hr
    obtain ⟨passed, rest, first, split, h⟩ | ⟨passed, r', split, h⟩ :=
      statements_nearsighted.1 (t :: ts)
    · have hfirst := h.reads rest (.inl rfl)
      rw [← split] at hfirst
      obtain ⟨reading, -, rfl⟩ := Reader.exists_reading hfirst
      have hrest : all reading.rest = .error r := by
        rw [all_of_ok hfirst] at hr
        cases hall : all reading.rest <;> simp_all [Except.map]
      obtain ⟨passed', hpassed, h'⟩ := ih reading r hrest
      rw [hpassed] at h split
      exact ⟨passed ++ passed', by rw [split, List.append_assoc], h'.behind h⟩
    · have hfails := h.fails
      rw [← split] at hfails
      obtain rfl := Except.error.inj ((all_of_error hfails (by simp)).symm.trans hr)
      exact ⟨passed, split, .first h⟩

/-- A script is rejected at one of its tokens or at its end. -/
theorem rest_suffix_of_all (ts : List Token) {r : Rejection} (h : all ts = .error r) :
    r.rest <:+ ts := by
  obtain ⟨passed, hpassed, -⟩ := all_rejects ts r h
  exact ⟨passed, hpassed.symm⟩

end Stmt

namespace Program

/-- The first token of `rest` is the one at which a list of tokens is hopeless, and the error `e`
says so: the tokens before it are the beginning of a program, and no tokens behind it make a
difference. -/
structure Hopeless (before rest : List Token) (e : Error) : Prop where
  found : ∃ expected, e.cause = .unexpectedToken expected (ahead rest)
  place : ∀ t ∈ rest.head?, t.kind ≠ .endOfInput → e.span = t.span
  completable : ∃ tail program, ofTokens (before ++ tail) = .ok program
  hopeless : ∀ t ∈ rest.head?, t.kind ≠ .endOfInput → ∀ others,
    ofTokens (before ++ t :: others) = .error e

/-- Every list of tokens that is no program is rejected at its first hopeless token, which is the
one in front of which reading stops. -/
theorem ofTokens_hopeless {tokens : List Token} {e : Error} (h : ofTokens tokens = .error e) :
    ∃ r before rest, Stmt.all (Token.script tokens) = .error r ∧
      Token.script tokens = before ++ r.rest ∧ tokens = before ++ rest ∧
      e = r.error (Token.finish tokens) ∧ Hopeless before rest e := by
  obtain ⟨behind, htokens, hbehind⟩ := Grammar.exists_eq_script_append tokens
  unfold ofTokens at h
  cases hall : Stmt.all (Token.script tokens) with
  | ok ss => simp [hall] at h
  | error r =>
    simp only [hall, Except.error.injEq] at h
    obtain ⟨before, hscript, hrejects⟩ := Stmt.all_rejects _ r hall
    have hbefore : ∀ t ∈ before, t.kind ≠ .endOfInput := fun t ht =>
      Grammar.kind_ne_of_mem_script (hscript ▸ List.mem_append_left r.rest ht)
    -- The token that is rejected heads what was not read, unless it is the end of the input.
    have hhead : ∀ t ∈ (r.rest ++ behind).head?, t.kind ≠ .endOfInput → ∃ us, r.rest = t :: us := by
      intro t ht hkind
      cases hrest : r.rest with
      | nil =>
        rw [hrest, List.nil_append] at ht
        exact absurd hbehind (by simpa [ahead, Option.mem_def.1 ht] using hkind)
      | cons u us =>
        rw [hrest] at ht
        exact ⟨us, by rw [Option.some.inj ht]⟩
    refine ⟨r, before, r.rest ++ behind, rfl, hscript, ?_, h.symm, ?_, ?_, ?_, ?_⟩
    · rw [← List.append_assoc, ← hscript, ← htokens]
    · subst h
      refine ⟨r.expected, ?_⟩
      unfold Rejection.error
      cases r.rest with
      | nil => simp [hbehind]
      | cons t us => rfl
    · intro t ht hkind
      obtain ⟨us, hrest⟩ := hhead t ht hkind
      rw [← h, Rejection.error_of_rest hrest]
    · obtain ⟨tail, hproper, ss, hss⟩ := hrejects.completable
      have htail : ∀ t ∈ before ++ tail, t.kind ≠ .endOfInput := fun t ht =>
        (List.mem_append.1 ht).elim (hbefore t) (hproper t)
      exact ⟨tail, ⟨ss⟩, by rw [ofTokens, Grammar.script_eq_self htail, hss]⟩
    · intro t ht hkind others
      obtain ⟨us, hrest⟩ := hhead t ht hkind
      rw [ofTokens, Grammar.script_append hbefore, Grammar.script_cons rfl hkind,
        hrejects.hopeless t (by rw [hrest]; rfl), ← h, Rejection.error_of_rest hrest]
      rfl

/-- A function whose body breaks off in the middle of a call: `trick f() \x7b purr(x \x7d`. -/
def brokenBody : List Token :=
  [⟨.trick, "trick", ⟨0, 5, 1, 1⟩⟩, ⟨.identifier, "f", ⟨6, 7, 1, 7⟩⟩,
    ⟨.leftParen, "(", ⟨7, 8, 1, 8⟩⟩, ⟨.rightParen, ")", ⟨8, 9, 1, 9⟩⟩,
    ⟨.leftBrace, "\x7b", ⟨10, 11, 1, 11⟩⟩, ⟨.purr, "purr", ⟨12, 16, 1, 13⟩⟩,
    ⟨.leftParen, "(", ⟨16, 17, 1, 17⟩⟩, ⟨.identifier, "x", ⟨17, 18, 1, 18⟩⟩,
    ⟨.rightBrace, "\x7d", ⟨19, 20, 1, 20⟩⟩]

/-- The body that breaks off is hopeless at its brace. -/
theorem ofTokens_hopeless_brokenBody :
    Hopeless (brokenBody.take 8) (brokenBody.drop 8)
      ⟨.unexpectedToken (.token .rightParen) .rightBrace, ⟨19, 20, 1, 20⟩,
        some "Close the argument of 'purr' with ')'."⟩ := by
  have herror : ofTokens brokenBody =
      .error ⟨.unexpectedToken (.token .rightParen) .rightBrace, ⟨19, 20, 1, 20⟩,
        some "Close the argument of 'purr' with ')'."⟩ := by cbv
  have hall : Stmt.all (Token.script brokenBody) =
      .error ⟨.token .rightParen, brokenBody.drop 8,
        some "Close the argument of 'purr' with ')'."⟩ := by cbv
  obtain ⟨r, before, rest, hr, hscript, htokens, -, h⟩ := ofTokens_hopeless herror
  obtain rfl := Except.error.inj (hall.symm.trans hr)
  have hbefore : before = brokenBody.take 8 :=
    List.append_cancel_right (hscript.symm.trans (by cbv))
  subst hbefore
  rwa [List.append_cancel_left (htokens.symm.trans (List.take_append_drop 8 brokenBody).symm)] at h

end Program

end CatScript
