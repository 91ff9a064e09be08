import CatScript.Proofs.Syntax.Reader

/-!
# Reading as a stack of routines

What reads a piece of a script calls others that read the parts of the piece.  Here all calls are
made one at a time, and those that are still to be made are kept on a stack: the topmost routine
takes tokens, or puts the routines that it calls in its place (`Routine.step`).  Only two of them
ever reject a token: an operand, and a token that has to stand here.  No routine sees what another
one rejects, so the routine at which the stack gets stuck (`Routine.Stuck`) is the innermost call
that fails, and what it says is final.

`Routine.Traces` says that routines do what a reader does.  Where the reader rejects a token, the
stack gets stuck in front of this token, and the reader has nothing to add to what is said there,
unless it is said without a help.
-/

set_option autoImplicit false

open CatScript.Expr (helpFor rangeHelp callHelp groupHelp)

namespace CatScript

open Reader (of)

/-- A rejection with a help keeps it. -/
theorem Rejection.orHelp_eq_self {r : Rejection} {own : String} (h : r.help = some own)
    (help : String) : r.orHelp help = r := by
  obtain ⟨expected, rest, _⟩ := r
  obtain rfl := h
  rfl

/-- What can be called while a script is read. -/
inductive Routine
  | program
  | statement
  | body
  | parameters
  | arguments
  | comma
  | climb (floor : Nat)
  | chain (floor : Nat)
  | operand
  | expect (kind : TokenKind) (help : String)

namespace Routine

/-- Whether a list of things ends here: at the token that closes it, or at the end of the input. -/
def closes (kind : TokenKind) (ts : List Token) : Bool := ts.head?.all (·.kind = kind)

/-- A list of things ends in front of its closing token, and in front of no token. -/
theorem closes_iff {kind : TokenKind} {ts : List Token} :
    closes kind ts = true ↔ ∀ t ∈ ts.head?, t.kind = kind := by
  simp [closes, Option.all_eq_true]

/-- What a statement calls, and in front of which tokens. -/
def statementCalls (t : Token) (ts : List Token) : List Routine × List Token :=
  match t.kind with
  | .purr =>
    ([.expect .leftParen "'purr' takes its argument in parentheses: purr(\"hello\")", .climb 0,
      .expect .rightParen "Close the argument of 'purr' with ')'."], ts)
  | .meow =>
    ([.expect .identifier "Variables are declared as: meow name = value",
      .expect .equal "A declaration needs '=' followed by a value: meow name = value",
      .climb 0], ts)
  | .woof => ([.expect .identifier "'woof' is followed by the name of a variable: woof name"], ts)
  | .trick =>
    ([.expect .identifier "Functions are declared as: trick name(a, b) \x7b ... \x7d",
      .expect .leftParen "The parameter list of a function starts with '('.", .parameters,
      .expect .leftBrace "A function body is enclosed in braces: \x7b ... \x7d", .body], ts)
  | .identifier => if Token.opensCall ts then ([.arguments], ts.tail) else ([], ts)
  | _ => ([.climb 0], t :: ts)

/-- What an operand calls, and in front of which tokens, or its rejection. -/
def operandStep (t : Token) (ts : List Token) : Except Rejection (List Routine × List Token) :=
  match t.kind with
  | .minus => .ok ([.operand], ts)
  | .integer =>
    match Integer64.ofText? t.lexeme.toList with
    | some _ => .ok ([], ts)
    | none => .error ⟨.integerInRange, t :: ts, some rangeHelp⟩
  | .float =>
    match Decimal.ofText? t.lexeme.toList with
    | some _ => .ok ([], ts)
    | none => .error ⟨.expression, t :: ts, none⟩
  | .string => .ok ([], ts)
  | .identifier => if Token.opensCall ts then .ok ([.arguments], ts.tail) else .ok ([], ts)
  | .leftParen => .ok ([.climb 0, .expect .rightParen groupHelp], ts)
  | kind => .error ⟨.expression, t :: ts, some (helpFor kind)⟩

/-- One step of a routine: those that it calls, one behind the other, and the tokens in front of
which it calls them, or its rejection of the first token. -/
def step : Routine → List Token → Except Rejection (List Routine × List Token)
  | .program, [] => .ok ([], [])
  | .program, t :: ts => .ok ([.statement, .program], t :: ts)
  | .statement, [] => .ok ([.climb 0], [])
  | .statement, t :: ts => .ok (statementCalls t ts)
  | .body, ts =>
    if closes .rightBrace ts then
      .ok ([.expect .rightBrace "Close the function body with '\x7d'."], ts)
    else .ok ([.statement, .body], ts)
  | .parameters, ts =>
    if closes .rightParen ts then
      .ok ([.expect .rightParen "Close the parameter list with ')'."], ts)
    else
      .ok ([.expect .identifier "Parameters are plain names separated by commas or spaces.",
        .comma, .parameters], ts)
  | .arguments, ts =>
    if closes .rightParen ts then .ok ([.expect .rightParen callHelp], ts)
    else .ok ([.climb 0, .comma, .arguments], ts)
  | .comma, ts => .ok ([], Token.skipComma ts)
  | .climb floor, ts => .ok ([.operand, .chain floor], ts)
  | .chain _, [] => .ok ([], [])
  | .chain floor, t :: ts =>
    match t.kind.operator? with
    | none => .ok ([], t :: ts)
    | some op =>
      if floor < op.precedence then .ok ([.climb op.precedence, .chain floor], ts)
      else .ok ([], t :: ts)
  | .operand, [] => .error ⟨.expression, [], some (helpFor .endOfInput)⟩
  | .operand, t :: ts => operandStep t ts
  | .expect kind help, [] => .error ⟨.token kind, [], some help⟩
  | .expect kind help, t :: ts =>
    if t.kind = kind then .ok ([], ts) else .error ⟨.token kind, t :: ts, some help⟩

/-- The routines that are still to be called, the next one first, and the tokens in front. -/
abbrev State := List Routine × List Token

/-- The topmost routine makes its step. -/
inductive Step : State → State → Prop
  | call {q : Routine} {ts us : List Token} {qs : List Routine} (h : q.step ts = .ok (qs, us))
      (stack : List Routine) : Step (q :: stack, ts) (qs ++ stack, us)

/-- A statement calls what its first token says. -/
theorem step_statement (t : Token) (ts : List Token) :
    statement.step (t :: ts) = .ok (statementCalls t ts) := rfl

/-- Steps one behind the other. -/
abbrev Steps : State → State → Prop := Relation.ReflTransGen Step

/-- From a state on, a routine gets on top of the stack that rejects the token in front of it. -/
structure Stuck (s : State) (q : Routine) (r : Rejection) : Prop where
  reached : ∃ stack, Steps s (q :: stack, r.rest)
  rejected : q.step r.rest = .error r

variable {q q' : Routine} {qs qs' : List Routine} {ts us rest : List Token} {s s' : State}
variable {r r' : Rejection}

/-- Only operands and tokens that have to stand here are rejected. -/
theorem eq_operand_or_expect (h : q.step ts = .error r) :
    q = .operand ∨ ∃ kind help, q = .expect kind help := by
  cases q with
  | operand => exact .inl rfl
  | expect kind help => exact .inr ⟨kind, help, rfl⟩
  | program => cases ts <;> simp [step] at h
  | statement => cases ts <;> simp [step] at h
  | body => simp only [step] at h; split at h <;> simp at h
  | parameters => simp only [step] at h; split at h <;> simp at h
  | arguments => simp only [step] at h; split at h <;> simp at h
  | comma => simp [step] at h
  | climb floor => simp [step] at h
  | chain floor =>
    cases ts with
    | nil => simp [step] at h
    | cons t ts =>
      simp only [step] at h
      split at h
      · simp at h
      · split at h <;> simp at h

/-- There is no choice between steps. -/
theorem Step.unique {s₁ s₂ : State} (h₁ : Step s s₁) (h₂ : Step s s₂) : s₁ = s₂ := by
  obtain ⟨hstep₁, stack⟩ := h₁
  obtain ⟨hstep₂, -⟩ := h₂
  obtain ⟨rfl, rfl⟩ := Prod.mk.inj (Except.ok.inj (hstep₁.symm.trans hstep₂))
  rfl

/-- Runs from one state to where no step is left end alike. -/
theorem Steps.unique {s₁ s₂ : State} (h₁ : Steps s s₁) (h₂ : Steps s s₂)
    (hfinal₁ : ∀ s', ¬ Step s₁ s') (hfinal₂ : ∀ s', ¬ Step s₂ s') : s₁ = s₂ := by
  -- On the first run, from its start: as steps are unique, the second run keeps up with it.
  induction h₁ using Relation.ReflTransGen.head_induction_on with
  | refl =>
    obtain rfl | ⟨_, hstep, -⟩ := h₂.cases_head
    · rfl
    · exact absurd hstep (hfinal₁ _)
  | head hstep _ ih =>
    obtain rfl | ⟨_, hstep', hsteps⟩ := h₂.cases_head
    · exact absurd hstep (hfinal₂ _)
    · exact ih (hstep.unique hstep' ▸ hsteps)

/-- Without a routine to be called there is no step. -/
theorem not_step_nil (ts : List Token) (s : State) : ¬ Step ([], ts) s := nofun

/-- A stack makes no step where its topmost routine rejects a token. -/
theorem not_step_of_rejected (h : q.step ts = .error r) (stack : List Routine) (s : State) :
    ¬ Step (q :: stack, ts) s := by
  rintro ⟨hstep, -⟩
  rw [h] at hstep
  simp at hstep

/-- The stack gets stuck at one routine only. -/
theorem Stuck.unique (h : Stuck s q r) (h' : Stuck s q' r') : q = q' ∧ r = r' := by
  obtain ⟨⟨stack, hsteps⟩, hrejected⟩ := h
  obtain ⟨⟨stack', hsteps'⟩, hrejected'⟩ := h'
  have hsame := hsteps.unique hsteps' (not_step_of_rejected hrejected stack)
    (not_step_of_rejected hrejected' stack')
  obtain ⟨hstack, hrest⟩ := Prod.mk.inj hsame
  obtain ⟨rfl, -⟩ := List.cons.inj hstack
  rw [hrest, hrejected'] at hrejected
  exact ⟨rfl, (Except.error.inj hrejected).symm⟩

/-! ## Tokens in front -/

/-- What is left behind a comma are the last of the tokens. -/
theorem skipComma_suffix (ts : List Token) : Token.skipComma ts <:+ ts := by
  fun_cases Token.skipComma ts with
  | case1 => exact List.suffix_refl []
  | case2 t ts => exact List.suffix_cons t ts
  | case3 t ts => exact List.suffix_refl (t :: ts)

/-- A statement calls its routines in front of the last of its tokens. -/
theorem statementCalls_suffix (t : Token) (ts : List Token) :
    (statementCalls t ts).2 <:+ t :: ts := by
  have hbehind : ts <:+ t :: ts := List.suffix_cons t ts
  fun_cases statementCalls t ts with
  | case5 => exact (List.tail_suffix ts).trans hbehind
  | case7 => exact List.suffix_refl (t :: ts)
  | _ => exact hbehind

/-- An operand that is not rejected takes a token or two. -/
theorem operandStep_suffix {t : Token} (h : operandStep t ts = .ok (qs, us)) : us <:+ t :: ts := by
  have htail : ts.tail <:+ t :: ts := (List.tail_suffix ts).trans (List.suffix_cons t ts)
  fun_cases operandStep t ts <;> simp_all [operandStep]

/-- A routine takes tokens from the front. -/
theorem step_suffix (h : q.step ts = .ok (qs, us)) : us <:+ ts := by
  fun_cases step q ts with
  | case4 t ts =>
    obtain rfl : (statementCalls t ts).2 = us := congrArg Prod.snd (Except.ok.inj h)
    exact statementCalls_suffix t ts
  | case11 =>
    obtain rfl : Token.skipComma ts = us := congrArg Prod.snd (Except.ok.inj h)
    exact skipComma_suffix ts
  | case16 floor t ts op kind loose => simp_all [step, if_neg loose]
  | case18 t ts => exact operandStep_suffix h
  | _ => simp_all [step]

/-- Steps only ever leave the last of the tokens. -/
theorem Steps.suffix (h : Steps s s') : s'.2 <:+ s.2 := by
  induction h with
  | refl => exact List.suffix_refl _
  | tail _ hstep ih =>
    cases hstep with
    | call hstep stack => exact (step_suffix hstep).trans ih

/-! ## Routines and readers -/

/-- What a call says itself is what comes of it in the end, unless it is said without a help. -/
def Kept (own r : Rejection) : Prop := own.help = none ∨ r = own

/-- A help for rejections without one does not touch what is kept. -/
theorem Kept.orHelp {own r : Rejection} (h : Kept own r) (help : String) :
    Kept own (r.orHelp help) := by
  obtain hnone | rfl := h
  · exact .inl hnone
  · cases hhelp : r.help with
    | none => exact .inl hhelp
    | some own => exact .inr (Rejection.orHelp_eq_self hhelp help)

/-- What is said with a help is what comes of it. -/
theorem Kept.eq_of_help {own r : Rejection} (h : Kept own r) {help : String}
    (hhelp : own.help = some help) : r = own :=
  h.resolve_left (by simp [hhelp])

variable {α β : Type} {F F' : Reader α} {G : α → Reader β} {value : α}

/-- Routines that are called one behind the other do what a reader does. -/
structure Traces (qs : List Routine) (F : Reader α) (ts : List Token) : Prop where
  reads : ∀ value rest, F ts = .ok (value, rest) →
    ∀ stack, Steps (qs ++ stack, ts) (stack, rest)
  rejects : ∀ r, F ts = .error r →
    ∃ q own stack, q.step r.rest = .error own ∧ Kept own r ∧
      ∀ stack', Steps (qs ++ stack', ts) (q :: (stack ++ stack'), r.rest)

/-- What a reader rejects, a routine rejects that is reached, or else it rejects it without a
help. -/
theorem Traces.exists_reached (h : Traces qs F ts) (hF : F ts = .error r) :
    ∃ q own stack, q.step r.rest = .error own ∧ Kept own r ∧
      Steps (qs, ts) (q :: stack, r.rest) := by
  obtain ⟨q, own, stack, hown, hkept, hsteps⟩ := h.rejects r hF
  have hreached := hsteps []
  rw [List.append_nil, List.append_nil] at hreached
  exact ⟨q, own, stack, hown, hkept, hreached⟩

/-- Where the stack gets stuck with a help, the reader rejects the same token with it. -/
theorem Traces.error_of_stuck (h : Traces qs F ts) (hstuck : Stuck (qs, ts) q r) {help : String}
    (hhelp : r.help = some help) : F ts = .error r := by
  obtain ⟨⟨stack, hsteps⟩, hrejected⟩ := hstuck
  have hfinal := not_step_of_rejected hrejected stack
  cases hF : F ts with
  | ok result =>
    have hread := h.reads result.1 result.2 hF []
    rw [List.append_nil] at hread
    exact absurd (hread.unique hsteps (not_step_nil _) hfinal) (by simp)
  | error r' =>
    obtain ⟨q', own, stack', hown, hkept, hreached⟩ := h.exists_reached hF
    have hsame := hreached.unique hsteps (not_step_of_rejected hown stack') hfinal
    obtain ⟨hstack, hrest⟩ := Prod.mk.inj hsame
    obtain ⟨rfl, -⟩ := List.cons.inj hstack
    rw [hrest, hrejected] at hown
    obtain rfl := Except.error.inj hown
    rw [hkept.eq_of_help hhelp]

/-- Routines behind routines do what a reader behind a reader does. -/
theorem Traces.andThen (h : Traces qs F ts)
    (h' : ∀ value rest, F ts = .ok (value, rest) → Traces qs' (G value) rest) :
    Traces (qs ++ qs') (F.andThen G) ts := by
  cases hF : F ts with
  | error r =>
    have hboth : F.andThen G ts = .error r := by
      rw [Reader.andThen, hF]
      rfl
    refine ⟨fun _ _ hok => by simp [hboth] at hok, fun r' hr => ?_⟩
    obtain rfl := Except.error.inj (hboth.symm.trans hr)
    obtain ⟨q, own, stack, hstep, hkept, hsteps⟩ := h.rejects r hF
    -- What the second reader calls is left below the routine that rejects the token.
    refine ⟨q, own, stack ++ qs', hstep, hkept, fun stack' => ?_⟩
    rw [List.append_assoc, List.append_assoc]
    exact hsteps (qs' ++ stack')
  | ok result =>
    obtain ⟨value, mid⟩ := result
    have hboth : F.andThen G ts = G value mid := by
      rw [Reader.andThen, hF]
      rfl
    have hfirst := h.reads value mid hF
    have hsecond := h' value mid hF
    refine ⟨fun other rest hok stack => ?_, fun r hr => ?_⟩
    · rw [List.append_assoc]
      exact (hfirst (qs' ++ stack)).trans (hsecond.reads other rest (hboth ▸ hok) stack)
    · obtain ⟨q, own, stack, hstep, hkept, hsteps⟩ := hsecond.rejects r (hboth ▸ hr)
      refine ⟨q, own, stack, hstep, hkept, fun stack' => ?_⟩
      rw [List.append_assoc]
      exact (hfirst (qs' ++ stack')).trans (hsteps stack')

/-- A reader that reads nothing calls nothing. -/
theorem Traces.pure (value : α) : Traces [] (Reader.pure value) ts where
  reads _ _ h stack := by
    obtain ⟨-, rfl⟩ := Prod.mk.inj (Except.ok.inj h)
    exact .refl
  rejects _ h := by simp [Reader.pure] at h

/-- What is made of what was read does not matter to the routines. -/
theorem Traces.map (h : Traces qs F ts) (f : α → β) : Traces qs (F.map f) ts := by
  have hmap := h.andThen fun value rest _ => @Traces.pure rest β (f value)
  rwa [List.append_nil] at hmap

/-- A help for rejections touches those only that are without one. -/
theorem Traces.orHelp (h : Traces qs F ts) (help : String) : Traces qs (F.orHelp help) ts := by
  refine ⟨fun value rest hok => h.reads value rest (Reader.orHelp_eq_ok_iff.1 hok), fun r hr => ?_⟩
  unfold Reader.orHelp at hr
  cases hF : F ts with
  | ok result => simp [hF, Except.mapError] at hr
  | error r' =>
    rw [hF] at hr
    obtain rfl := Except.error.inj hr
    obtain ⟨q, own, stack, hstep, hkept, hsteps⟩ := h.rejects r' hF
    refine ⟨q, own, stack, hstep, ?_, hsteps⟩
    exact hkept.orHelp help

/-- A routine does what those that it calls do. -/
theorem Traces.call (hstep : q.step ts = .ok (qs, us)) (hF : F ts = F' us) (h : Traces qs F' us) :
    Traces [q] F ts := by
  have hfirst (stack : List Routine) : Step (q :: stack, ts) (qs ++ stack, us) := .call hstep stack
  refine ⟨fun value rest hok stack => ?_, fun r hr => ?_⟩
  · exact .head (hfirst stack) (h.reads value rest (hF ▸ hok) stack)
  · obtain ⟨q', own, stack, hown, hkept, hsteps⟩ := h.rejects r (hF ▸ hr)
    exact ⟨q', own, stack, hown, hkept, fun stack' => .head (hfirst stack') (hsteps stack')⟩

/-- A routine that reads by itself. -/
theorem Traces.takes (hstep : q.step ts = .ok ([], us)) (hF : F ts = .ok (value, us)) :
    Traces [q] F ts :=
  .call hstep hF (Traces.pure value)

/-- A routine that rejects the first token by itself. -/
theorem Traces.refuses {expected : Expected} {help : Option String}
    (hstep : q.step ts = .error ⟨expected, ts, help⟩)
    (hF : F ts = .error ⟨expected, ts, help⟩) : Traces [q] F ts where
  reads value rest h := by simp [hF] at h
  rejects r h := by
    obtain rfl := Except.error.inj (hF.symm.trans h)
    exact ⟨q, _, [], hstep, .inr rfl, fun _ => .refl⟩

/-- The routine of a comma in front does what skipping the comma does. -/
theorem Traces.pastComma (h : Traces qs F (Token.skipComma ts)) :
    Traces (.comma :: qs) F.pastComma ts := by
  have hcomma : Traces [.comma] (fun us => Except.ok ((), Token.skipComma us)) ts := .takes rfl rfl
  exact hcomma.andThen (G := fun _ => F) fun value rest hok => by
    obtain ⟨-, rfl⟩ := Prod.mk.inj (Except.ok.inj hok)
    exact h

/-- A token that has to stand here is read by its routine. -/
theorem traces_expect (kind : TokenKind) (help : String) (ts : List Token) :
    Traces [.expect kind help] (of (Token.expect kind help)) ts := by
  cases ts with
  | nil => exact .refuses rfl (Token.of_expect_nil kind help)
  | cons t ts =>
    by_cases h : t.kind = kind
    · exact .takes (if_pos h) (Token.of_expect h help ts)
    · exact .refuses (if_neg h) (Token.of_expect_ne h help ts)

end Routine

end CatScript
