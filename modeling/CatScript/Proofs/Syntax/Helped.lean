import CatScript.Proofs.Number.ReadBack
import CatScript.Proofs.Syntax.Traced
import CatScript.Proofs.Token.Longest

/-!
# No script is rejected without a help

An operand and a token that has to stand here are the only routines that reject a token, and both
say how to help, but for a float that cannot be read (`Routine.exists_help`).  The lexer takes a
text for a float only if there are digits on both sides of its point, and such a text is always read
(`Token.legible_of_ofText`).  So a program that is rejected is rejected by the innermost routine
that fails, and with the help of this one (`Program.ofTokens_error_helped`).
-/

set_option autoImplicit false

open CatScript.Expr (groupHelp)

namespace CatScript

open Reader (of)
open Routine (Traces Stuck Steps)

variable {ts us : List Token} {r : Rejection}

/-- A function rejects what it rejects as a reader without bounds. -/
theorem Reader.of_eq_error_iff {α : Type} {n : List Token → Nat}
    {f : (ts : List Token) → Except Rejection (Reading α (n ts))} :
    of f ts = .error r ↔ f ts = .error r := by
  unfold of outcome
  cases f ts <;> simp [Except.map]

/-! ## Floats in scripts -/

namespace Token

/-- Every float among the tokens can be read. -/
def Legible (ts : List Token) : Prop :=
  ∀ t ∈ ts, t.kind = .float → ∃ x, Decimal.ofText? t.lexeme.toList = some x

/-- The last of some tokens can be read if all of them can. -/
theorem Legible.suffix (h : Legible ts) (hsuffix : us <:+ ts) : Legible us :=
  fun t ht => h t (hsuffix.subset ht)

/-- What is taken for a float has digits on both sides of a point, and is its own lexeme. -/
theorem Matches.of_float {slice lexeme behind : List Char}
    (h : Matches .float slice lexeme behind) : ∃ whole fraction,
      IsDigits whole ∧ IsDigits fraction ∧ lexeme = whole ++ '.' :: fraction := by
  cases h with
  | spelled h =>
    cases h with
    | own h => simp [TokenKind.spelling?] at h
    | float hwhole hfraction => exact ⟨_, _, hwhole, hfraction, rfl⟩

/-- The floats that the lexer finds can be read. -/
theorem legible_of_ofText {source : String} (h : ofText source = .ok ts) : Legible ts := by
  intro t ht kind
  have hlongest := @scanFrom_longest Position.start source.toList [] ts rfl h t ht (by simp [kind])
  obtain ⟨behind, -, hmatches⟩ := hlongest.longest.matches_head
  rw [kind] at hmatches
  obtain ⟨whole, fraction, hwhole, hfraction, hlexeme⟩ := hmatches.of_float
  rw [hlexeme]
  exact ⟨_, Decimal.ofText?_point hwhole.nonempty hwhole.digits hfraction.digits⟩

/-- The script can be read if the tokens can. -/
theorem Legible.script (h : Legible ts) : Legible (script ts) :=
  fun t ht => h t ((List.takeWhile_sublist _).subset ht)

end Token

/-! ## Helps -/

/-- The error of a rejection has its help. -/
@[simp] theorem Rejection.help_error (r : Rejection) (finish : Span) :
    (r.error finish).help = r.help := by
  unfold error
  cases r.rest <;> rfl

namespace Routine

variable {q : Routine} {s : State} {α : Type} {F : Reader α} {qs : List Routine} {help : String}

/-- A rejection that has a help of its own has a help. -/
theorem exists_help_of_error {own : Rejection}
    (h : (.error own : Except Rejection α) = .error r) (hhelp : own.help = some help) :
    ∃ help, r.help = some help :=
  ⟨help, Except.error.inj h ▸ hhelp⟩

/-- An operand whose float can be read is rejected with a help only. -/
theorem exists_help_operandStep {t : Token}
    (reads : t.kind = .float → ∃ x, Decimal.ofText? t.lexeme.toList = some x)
    (h : operandStep t ts = .error r) : ∃ help, r.help = some help := by
  fun_cases operandStep t ts with
  | case3 kind hnone =>
    simp only [operandStep, kind, hnone] at h
    exact exists_help_of_error h rfl
  | case10 =>
    simp only [operandStep] at h
    exact exists_help_of_error h rfl
  | _ => simp_all [operandStep]

/-- What a routine rejects by itself, it rejects with a help. -/
theorem exists_help (hlegible : Token.Legible ts) (h : q.step ts = .error r) :
    ∃ help, r.help = some help := by
  obtain rfl | ⟨kind, help, rfl⟩ := eq_operand_or_expect h
  · cases ts with
    | nil => exact exists_help_of_error h rfl
    | cons t ts => exact exists_help_operandStep (hlegible t (List.mem_cons_self ..)) h
  · cases ts with
    | nil => exact exists_help_of_error h rfl
    | cons t ts =>
      simp only [step] at h
      split at h
      · simp at h
      · exact exists_help_of_error h rfl

/-- What a reader rejects is what the innermost call that fails rejects by itself. -/
theorem Traces.exists_stuck (h : Traces qs F ts) (hlegible : Token.Legible ts)
    (hF : F ts = .error r) : ∃ q help, Stuck (qs, ts) q r ∧ r.help = some help := by
  obtain ⟨q, own, stack, hown, hkept, hreached⟩ := h.exists_reached hF
  obtain ⟨help, hhelp⟩ := exists_help (hlegible.suffix hreached.suffix) hown
  obtain rfl := hkept.eq_of_help hhelp
  exact ⟨q, help, ⟨⟨stack, hreached⟩, hown⟩, hhelp⟩

/-- The innermost call that fails: the stack gets stuck at an operand, or at a token that has to
stand there, which rejects the token in front of it. -/
structure Fails (s : State) (q : Routine) (r : Rejection) : Prop where
  stuck : Stuck s q r
  innermost : q = .operand ∧ Expr.operand r.rest = .error r ∨
    ∃ kind help, q = .expect kind help ∧ Token.expect kind help r.rest = .error r

/-- What gets stuck with a help does so where an operand or a token is rejected with it. -/
theorem Stuck.fails (h : Stuck s q r) (hhelp : r.help = some help) : Fails s q r := by
  -- By itself the routine is stuck at once, and so its reader rejects the token.
  have hrejected : Stuck ([q], r.rest) q r := ⟨⟨[], .refl⟩, h.rejected⟩
  refine ⟨h, ?_⟩
  obtain rfl | ⟨kind, help, rfl⟩ := eq_operand_or_expect h.rejected
  · exact .inl ⟨rfl, Reader.of_eq_error_iff.1
      ((Expr.expressions_traced.1 r.rest).error_of_stuck hrejected hhelp)⟩
  · exact .inr ⟨kind, help, rfl, Reader.of_eq_error_iff.1
      ((traces_expect kind help r.rest).error_of_stuck hrejected hhelp)⟩

end Routine

/-! ## Programs -/

namespace Program

/-- A script at which the routines get stuck with a help is rejected with it. -/
theorem ofTokens_of_stuck {tokens : List Token} {q : Routine} {help : String}
    (h : Stuck ([.program], Token.script tokens) q r) (hhelp : r.help = some help) :
    ofTokens tokens = .error (r.error (Token.finish tokens)) := by
  have hwhole := (Stmt.traces_whole (Token.script tokens)).error_of_stuck h hhelp
  unfold ofTokens
  rw [Stmt.whole_eq_error_iff.1 hwhole]

/-- No text is rejected as a program without a help.  The help is that of the innermost call that
fails, an operand or a token that has to stand there, which is the only place at which the routines
get stuck.  Operators in front of it never put another help in its place: every float can be read,
and what is rejected as an operand of theirs, anywhere in the script, has a help already. -/
theorem ofTokens_error_helped {source : String} {tokens : List Token}
    (lexes : Token.ofText source = .ok tokens) :
    (∀ e, ofTokens tokens = .error e → ∃ q r help,
      Routine.Fails ([.program], Token.script tokens) q r ∧
      (∀ q' r', Stuck ([.program], Token.script tokens) q' r' → q' = q ∧ r' = r) ∧
      e = r.error (Token.finish tokens) ∧ r.help = some help ∧ e.help = some help) ∧
    (∀ t ∈ tokens, t.kind = .float → ∃ x, Decimal.ofText? t.lexeme.toList = some x) ∧
    ∀ floor ts r, ts <:+ Token.script tokens → Expr.climb floor ts = .error r →
      ∃ q help, Routine.Fails ([.climb floor], ts) q r ∧ r.help = some help := by
  have hlegible := Token.legible_of_ofText lexes
  refine ⟨fun e he => ?_, hlegible, fun floor ts r hsuffix hr => ?_⟩
  · unfold ofTokens at he
    cases hall : Stmt.all (Token.script tokens) with
    | ok ss => simp [hall] at he
    | error r =>
      simp only [hall, Except.error.injEq] at he
      obtain ⟨q, help, hstuck, hhelp⟩ := (Stmt.traces_whole (Token.script tokens)).exists_stuck
        hlegible.script (Stmt.whole_eq_error_iff.2 hall)
      refine ⟨q, r, help, hstuck.fails hhelp, fun q' r' hstuck' => hstuck'.unique hstuck, he.symm,
        hhelp, ?_⟩
      rw [← he, Rejection.help_error, hhelp]
  · obtain ⟨q, help, hstuck, hhelp⟩ := (Expr.expressions_traced.2.1 floor ts).exists_stuck
      (hlegible.script.suffix hsuffix) (Reader.of_eq_error_iff.2 hr)
    exact ⟨q, help, hstuck.fails hhelp, hhelp⟩

/-- A group that is never closed, behind an operator: `purr(a * (b + f(c) 8.5`. -/
def openGroup : List Token :=
  [⟨.purr, "purr", ⟨0, 4, 1, 1⟩⟩, ⟨.leftParen, "(", ⟨4, 5, 1, 5⟩⟩,
    ⟨.identifier, "a", ⟨5, 6, 1, 6⟩⟩, ⟨.star, "*", ⟨7, 8, 1, 8⟩⟩,
    ⟨.leftParen, "(", ⟨9, 10, 1, 10⟩⟩, ⟨.identifier, "b", ⟨10, 11, 1, 11⟩⟩,
    ⟨.plus, "+", ⟨12, 13, 1, 13⟩⟩, ⟨.identifier, "f", ⟨14, 15, 1, 15⟩⟩,
    ⟨.leftParen, "(", ⟨15, 16, 1, 16⟩⟩, ⟨.identifier, "c", ⟨16, 17, 1, 17⟩⟩,
    ⟨.rightParen, ")", ⟨17, 18, 1, 18⟩⟩, ⟨.float, "8.5", ⟨19, 22, 1, 20⟩⟩,
    ⟨.endOfInput, "", ⟨22, 23, 1, 23⟩⟩]

/-- The routines get stuck behind `f(c)`, at the parenthesis of the group. -/
theorem stuck_openGroup :
    Stuck ([.program], Token.script openGroup) (.expect .rightParen groupHelp)
      ⟨.token .rightParen, [⟨.float, "8.5", ⟨19, 22, 1, 20⟩⟩], some groupHelp⟩ := by
  refine ⟨⟨[.chain 2, .chain 0,
    .expect .rightParen "Close the argument of 'purr' with ')'.", .program], ?_⟩, rfl⟩
  iterate 22 apply Relation.ReflTransGen.head (.call rfl _)
  exact .refl

/-- What is said about the open group is what its parenthesis says, not the operator before it. -/
theorem ofTokens_error_helped_openGroup :
    Token.ofText "purr(a * (b + f(c) 8.5" = .ok openGroup ∧
      (∃ e, ofTokens openGroup = .error e ∧ e.help = some groupHelp) ∧
      Token.expect .rightParen groupHelp [⟨.float, "8.5", ⟨19, 22, 1, 20⟩⟩] =
        .error ⟨.token .rightParen, [⟨.float, "8.5", ⟨19, 22, 1, 20⟩⟩], some groupHelp⟩ ∧
      ∃ x, Decimal.ofText? "8.5".toList = some x := by
  have hlexes : Token.ofText "purr(a * (b + f(c) 8.5" = .ok openGroup := by cbv
  have herror := ofTokens_of_stuck stuck_openGroup rfl
  obtain ⟨hhelped, hfloats, -⟩ := ofTokens_error_helped hlexes
  obtain ⟨q, r, help, hfails, hunique, -, hr, he⟩ := hhelped _ herror
  obtain ⟨rfl, rfl⟩ := hunique _ _ stuck_openGroup
  obtain ⟨hoperand, -⟩ | ⟨_, _, ⟨⟩, hexpect⟩ := hfails.innermost
  · exact absurd hoperand (by simp)
  have hfloat : ⟨.float, "8.5", ⟨19, 22, 1, 20⟩⟩ ∈ openGroup := by simp [openGroup]
  have hreads := hfloats _ hfloat rfl
  exact ⟨hlexes, ⟨_, herror, he.trans hr.symm⟩, hexpect, hreads⟩

end Program

end CatScript
