import CatScript.Proofs.Syntax.Grammar

/-!
# Derivations are unique

Two derivations from the same tokens are the same derivation, and so leave over the same tokens.
Each production is told by the kind of the token in front, and each repetition by the kind of the
token behind it: what can follow a repetition never begins one more round.  A derivation and what
it leaves over are compared together, as a pair, since the one is indexed by the other.
-/

set_option autoImplicit false

namespace CatScript.Grammar

variable {ts rest rest' : List Token}

/-! ## What stands in front -/

/-- The kinds of token that an expression can begin with. -/
def beginsExpression : TokenKind → Bool
  | .integer | .float | .string | .identifier | .leftParen | .minus => true
  | _ => false

/-- The kinds of token that a statement can begin with. -/
def beginsStatement : TokenKind → Bool
  | .purr | .meow | .woof | .trick => true
  | kind => beginsExpression kind

/-- Behind the last token the end of the input is ahead. -/
@[simp] theorem ahead_nil : ahead [] = .endOfInput := rfl

/-- The kind of the first token is ahead. -/
@[simp] theorem ahead_cons (t : Token) (ts : List Token) : ahead (t :: ts) = t.kind := rfl

/-- What is looked ahead at is the end of the input, or a token. -/
theorem exists_cons_of_ahead_eq {kind : TokenKind} (h : ahead ts = kind)
    (hkind : kind ≠ .endOfInput) : ∃ t us, ts = t :: us ∧ t.kind = kind := by
  cases ts with
  | nil => exact absurd h.symm hkind
  | cons t us => exact ⟨t, us, rfl, h⟩

/-- A primary begins like an expression. -/
theorem Primary.begins (d : Primary ts rest) : beginsExpression (ahead ts) = true := by
  cases d <;> simp_all [beginsExpression]

/-- An expression begins with its first primary. -/
theorem Expression.begins (d : Expression ts rest) : beginsExpression (ahead ts) = true := by
  obtain ⟨⟨first, _⟩, _⟩ := d
  exact first.begins

/-- A statement begins with a keyword or like an expression. -/
theorem Statement.begins (d : Statement ts rest) : beginsStatement (ahead ts) = true := by
  cases d with
  | expression _ value =>
    have h := value.begins
    revert h
    cases ahead ts <;> simp [beginsExpression, beginsStatement]
  | _ => simp_all [beginsStatement, beginsExpression]

/-! ## Expressions -/

/-- No expression begins where a closing parenthesis stands. -/
theorem Expression.ahead_ne_rightParen (d : Expression ts rest) : ahead ts ≠ .rightParen := by
  intro h
  exact absurd d.begins (by simp [h, beginsExpression])

/-- No arguments in front of a closing parenthesis begin with a comma. -/
theorem Arguments.ahead_ne_comma (d : Arguments ts rest) (h : ahead rest = .rightParen) :
    ahead ts ≠ .comma := by
  intro hcomma
  cases d with
  | none => simp [h] at hcomma
  | bare first => exact absurd first.begins (by simp [hcomma, beginsExpression])
  | comma _ _ first => exact absurd first.begins (by simp [hcomma, beginsExpression])

mutual

/-- From given tokens there is at most one primary. -/
theorem Primary.unique {ts rest : List Token} : (d : Primary ts rest) →
    ∀ {rest' : List Token} (d' : Primary ts rest'),
      (⟨rest, d⟩ : Sigma (Primary ts)) = ⟨rest', d'⟩
  | .integer t value kind reads, _, d' => by
    cases d' with
    | integer _ value' _ reads' =>
      have h : value = value' := Option.some.inj (reads.symm.trans reads')
      subst h
      rfl
    | _ => exfalso; simp_all
  | .float t value kind reads, _, d' => by
    cases d' with
    | float _ value' _ reads' =>
      have h : value = value' := Option.some.inj (reads.symm.trans reads')
      subst h
      rfl
    | _ => exfalso; simp_all
  | .string t kind, _, d' => by
    cases d' with
    | string => rfl
    | _ => exfalso; simp_all
  | .name t kind next, _, d' => by
    cases d' with
    | name => rfl
    | _ => exfalso; simp_all
  | .call name opening closing kinds arguments, _, d' => by
    have ih {rest' : List Token} (a : Arguments _ rest') := arguments.unique a
    cases d' with
    | call _ _ closing' kinds' arguments' =>
      have h := ih arguments' kinds.2.2 kinds'.2.2
      cases h
      rfl
    | _ => exfalso; simp_all
  | .group opening closing kinds inner, _, d' => by
    have ih {rest' : List Token} (e : Expression _ rest') := inner.unique e
    cases d' with
    | group _ closing' kinds' inner' =>
      have h := ih inner'
      cases h
      rfl
    | _ => exfalso; simp_all
  | .negate minus kind operand, _, d' => by
    have ih {rest' : List Token} (e : Primary _ rest') := operand.unique e
    cases d' with
    | negate _ _ operand' =>
      have h := ih operand'
      cases h
      rfl
    | _ => exfalso; simp_all

/-- There is only one way to go on with factors. -/
theorem Factors.unique {ts rest : List Token} : (d : Factors ts rest) →
    ∀ {rest' : List Token} (d' : Factors ts rest'),
      (⟨rest, d⟩ : Sigma (Factors ts)) = ⟨rest', d'⟩
  | .done next, _, d' => by
    cases d' with
    | done => rfl
    | more => exfalso; simp_all
  | .more t op kind factor others, _, d' => by
    have ihFactor {rest' : List Token} (p : Primary _ rest') := factor.unique p
    have ihOthers {rest' : List Token} (f : Factors _ rest') := others.unique f
    cases d' with
    | done => exfalso; simp_all
    | more _ op' kind' factor' others' =>
      have h : op = op' := Option.some.inj (kind.symm.trans kind')
      have hf := ihFactor factor'
      subst h
      cases hf
      have ho := ihOthers others'
      cases ho
      rfl

/-- There is only one product in front of given tokens. -/
theorem Product.unique {ts rest : List Token} : (d : Product ts rest) →
    ∀ {rest' : List Token} (d' : Product ts rest'),
      (⟨rest, d⟩ : Sigma (Product ts)) = ⟨rest', d'⟩
  | .mk first others, _, .mk first' others' => by
    have ih {rest' : List Token} (f : Factors _ rest') := others.unique f
    have hf := first.unique first'
    cases hf
    have ho := ih others'
    cases ho
    rfl

/-- There is only one way to go on with products. -/
theorem Summands.unique {ts rest : List Token} : (d : Summands ts rest) →
    ∀ {rest' : List Token} (d' : Summands ts rest'),
      (⟨rest, d⟩ : Sigma (Summands ts)) = ⟨rest', d'⟩
  | .done next, _, d' => by
    cases d' with
    | done => rfl
    | more => exfalso; simp_all
  | .more t op kind summand others, _, d' => by
    have ihSummand {rest' : List Token} (p : Product _ rest') := summand.unique p
    have ihOthers {rest' : List Token} (s : Summands _ rest') := others.unique s
    cases d' with
    | done => exfalso; simp_all
    | more _ op' kind' summand' others' =>
      have h : op = op' := Option.some.inj (kind.symm.trans kind')
      have hs := ihSummand summand'
      subst h
      cases hs
      have ho := ihOthers others'
      cases ho
      rfl

/-- There is only one expression in front of given tokens. -/
theorem Expression.unique {ts rest : List Token} : (d : Expression ts rest) →
    ∀ {rest' : List Token} (d' : Expression ts rest'),
      (⟨rest, d⟩ : Sigma (Expression ts)) = ⟨rest', d'⟩
  | .mk first others, _, .mk first' others' => by
    have ih {rest' : List Token} (s : Summands _ rest') := others.unique s
    have hf := first.unique first'
    cases hf
    have ho := ih others'
    cases ho
    rfl

/-- From given tokens there is at most one list of arguments that ends in front of a closing
parenthesis. -/
theorem Arguments.unique {ts rest : List Token} : (d : Arguments ts rest) →
    ∀ {rest' : List Token} (d' : Arguments ts rest'), ahead rest = .rightParen →
      ahead rest' = .rightParen → (⟨rest, d⟩ : Sigma (Arguments ts)) = ⟨rest', d'⟩
  | .none, _, d', h, _ => by
    cases d' with
    | none => rfl
    | bare first' => exact absurd h first'.ahead_ne_rightParen
    | comma _ _ first' => exact absurd h first'.ahead_ne_rightParen
  | .bare first others, _, d', h, h' => by
    have ihFirst {rest' : List Token} (e : Expression _ rest') := first.unique e
    have ihOthers {rest' : List Token} (a : Arguments _ rest') := others.unique a
    cases d' with
    | none => exact absurd h' first.ahead_ne_rightParen
    | bare first' others' =>
      have hf := ihFirst first'
      cases hf
      have ho := ihOthers others' h h'
      cases ho
      rfl
    | comma comma kind first' others' =>
      -- The other derivation finds a comma where this one goes on.
      have hf := ihFirst first'
      cases hf
      exact absurd kind (others.ahead_ne_comma h)
  | .comma comma kind first others, _, d', h, h' => by
    have ihFirst {rest' : List Token} (e : Expression _ rest') := first.unique e
    have ihOthers {rest' : List Token} (a : Arguments _ rest') := others.unique a
    cases d' with
    | none => exact absurd h' first.ahead_ne_rightParen
    | bare first' others' =>
      have hf := ihFirst first'
      cases hf
      exact absurd kind (others'.ahead_ne_comma h')
    | comma comma' kind' first' others' =>
      have hf := ihFirst first'
      cases hf
      have ho := ihOthers others' h h'
      cases ho
      rfl

end

/-! ## Statements -/

/-- No parameters in front of a closing parenthesis begin with a comma. -/
theorem Parameters.ahead_ne_comma (d : Parameters ts rest) (h : ahead rest = .rightParen) :
    ahead ts ≠ .comma := by
  intro hcomma
  cases d with
  | none => simp [h] at hcomma
  | bare _ kind => exact absurd (kind.symm.trans hcomma) (by decide)
  | comma _ _ kinds => exact absurd (kinds.1.symm.trans hcomma) (by decide)

/-- From given tokens there is at most one list of parameters that ends in front of a closing
parenthesis. -/
theorem Parameters.unique (d : Parameters ts rest) (d' : Parameters ts rest')
    (h : ahead rest = .rightParen) (h' : ahead rest' = .rightParen) :
    (⟨rest, d⟩ : Sigma (Parameters ts)) = ⟨rest', d'⟩ := by
  induction d with
  | none =>
    cases d' with
    | none => rfl
    | _ => simp_all
  | bare name kind others ih =>
    cases d' with
    | none => simp_all
    | bare _ _ others' =>
      have ho := ih others' h
      cases ho
      rfl
    | comma _ comma kinds others' => exact absurd kinds.2 (others.ahead_ne_comma h)
  | comma name comma kinds others ih =>
    cases d' with
    | none => simp_all
    | bare _ _ others' => exact absurd kinds.2 (others'.ahead_ne_comma h')
    | comma _ _ _ others' =>
      have ho := ih others' h
      cases ho
      rfl

mutual

/-- There is only one statement in front of given tokens. -/
theorem Statement.unique {ts rest : List Token} : (d : Statement ts rest) →
    ∀ {rest' : List Token} (d' : Statement ts rest'),
      (⟨rest, d⟩ : Sigma (Statement ts)) = ⟨rest', d'⟩
  | .print purr opening closing kinds argument, _, d' => by
    cases d' with
    | print _ _ closing' kinds' argument' =>
      have h := argument.unique argument'
      cases h
      rfl
    | expression _ value => exact absurd value.begins (by simp [kinds.1, beginsExpression])
    | _ => exfalso; simp_all
  | .declare meow name equal kinds value, _, d' => by
    cases d' with
    | declare _ _ _ _ value' =>
      have h := value.unique value'
      cases h
      rfl
    | expression _ value' => exact absurd value'.begins (by simp [kinds.1, beginsExpression])
    | _ => exfalso; simp_all
  | .ask woof name kinds, _, d' => by
    cases d' with
    | ask => rfl
    | expression _ value => exact absurd value.begins (by simp [kinds.1, beginsExpression])
    | _ => exfalso; simp_all
  | .trick trick name opening closing left right head parameters kinds body, _, d' => by
    have ih {rest' : List Token} (b : Statements _ rest') := body.unique b
    cases d' with
    | trick _ _ _ closing' left' right' head' parameters' kinds' body' =>
      have hp := parameters.unique parameters' kinds.1 kinds'.1
      cases hp
      have hb := ih body' (by simp [kinds.2.2, beginsStatement, beginsExpression])
        (by simp [kinds'.2.2, beginsStatement, beginsExpression])
      cases hb
      rfl
    | expression _ value => exact absurd value.begins (by simp [head.1, beginsExpression])
    | _ => exfalso; simp_all
  | .call name opening closing kinds arguments, _, d' => by
    cases d' with
    | call _ _ closing' kinds' arguments' =>
      have h := arguments.unique arguments' kinds.2.2 kinds'.2.2
      cases h
      rfl
    | _ => exfalso; simp_all
  | .name t kind next, _, d' => by
    cases d' with
    | name => rfl
    | _ => exfalso; simp_all
  | .expression first value, _, d' => by
    have begins := value.begins
    cases d' with
    | expression _ value' =>
      have h := value.unique value'
      cases h
      rfl
    | _ => exfalso; simp_all [beginsExpression]

/-- From given tokens there is at most one list of statements that ends where no statement
begins. -/
theorem Statements.unique {ts rest : List Token} : (d : Statements ts rest) →
    ∀ {rest' : List Token} (d' : Statements ts rest'), beginsStatement (ahead rest) = false →
      beginsStatement (ahead rest') = false →
      (⟨rest, d⟩ : Sigma (Statements ts)) = ⟨rest', d'⟩
  | .none, _, d', h, _ => by
    cases d' with
    | none => rfl
    | more first' => exact absurd first'.begins (by simp [h])
  | .more first others, _, d', h, h' => by
    have ihFirst {rest' : List Token} (s : Statement _ rest') := first.unique s
    have ihOthers {rest' : List Token} (s : Statements _ rest') := others.unique s
    cases d' with
    | none => exact absurd first.begins (by simp [h'])
    | more first' others' =>
      have hf := ihFirst first'
      cases hf
      have ho := ihOthers others' h h'
      cases ho
      rfl

end

/-- A list of tokens has at most one derivation. -/
theorem Script.unique (d d' : Script ts) : d = d' := by
  obtain ⟨rest, statements, next⟩ := d
  obtain ⟨rest', statements', next'⟩ := d'
  have h := statements.unique statements' (by simp [next, beginsStatement, beginsExpression])
    (by simp [next', beginsStatement, beginsExpression])
  cases h
  rfl

end CatScript.Grammar
