import CatScript.Proofs.Syntax.Grammar.Spanned
import CatScript.Proofs.Syntax.Yields

/-!
# What is read has a derivation

Whenever a reading succeeds, what it has read is the expression or the statement of some
derivation.  The grammar knows sums and products, and the climbing knows only floors: at the floor
zero it reads a sum, at the floor one a product, and above that a primary.  `Climbed` and `Chained`
say so, and the induction follows the functions that read.

Readings see the tokens before the first end of the input, and derivations see all of them, so
every derivation here goes on with a `tail` that begins with an end of the input.
-/

set_option autoImplicit false

namespace CatScript.Grammar

open Reading (Yields)

/-! ## Floors and layers -/

/-- The operators of a sum have the lower precedence. -/
theorem operator?_of_sumOp? {kind : TokenKind} {op : BinaryOp} (h : sumOp? kind = some op) :
    kind.operator? = some op ∧ op.precedence = 1 := by
  cases kind <;> simp_all [sumOp?, TokenKind.operator?] <;> subst h <;> rfl

/-- The operators of a product have the higher precedence. -/
theorem operator?_of_productOp? {kind : TokenKind} {op : BinaryOp}
    (h : productOp? kind = some op) : kind.operator? = some op ∧ op.precedence = 2 := by
  cases kind <;> simp_all [productOp?, TokenKind.operator?] <;> subst h <;> rfl

/-- An operator is one of a sum or one of a product. -/
theorem layer_of_operator? {kind : TokenKind} {op : BinaryOp} (h : kind.operator? = some op) :
    (sumOp? kind = some op ∧ productOp? kind = none ∧ op.precedence = 1) ∨
      (sumOp? kind = none ∧ productOp? kind = some op ∧ op.precedence = 2) := by
  cases kind <;> simp_all [TokenKind.operator?, sumOp?, productOp?] <;> subst h <;> rfl

/-- Every operator is one of a sum or of a product. -/
theorem operator?_eq_none_iff (kind : TokenKind) :
    kind.operator? = none ↔ sumOp? kind = none ∧ productOp? kind = none := by
  cases kind <;> simp [TokenKind.operator?, sumOp?, productOp?]

/-- A product goes on as far as it can. -/
theorem Factors.next {ts rest : List Token} : (d : Factors ts rest) →
    productOp? (ahead rest) = none
  | .done next => next
  | .more _ _ _ _ others => others.next

/-- Behind a product stands no operator of a product. -/
theorem Product.next {ts rest : List Token} (d : Product ts rest) :
    productOp? (ahead rest) = none := by
  cases d with
  | mk first others => exact others.next

/-- What climbing from a floor derives. -/
def Climbed : Nat → List Token → List Token → Expr → Prop
  | 0, ts, rest, e => ∃ d : Expression ts rest, d.expr = e
  | 1, ts, rest, e => ∃ d : Product ts rest, d.expr = e
  | _ + 2, ts, rest, e => ∃ d : Primary ts rest, d.expr = e

/-- What going on behind `left` at a floor derives. -/
def Chained : Nat → Expr → List Token → List Token → Expr → Prop
  | 0, left, ts, rest, e =>
    ∃ (mid : List Token) (f : Factors ts mid) (s : Summands mid rest), s.expr (f.expr left) = e
  | 1, left, ts, rest, e => ∃ f : Factors ts rest, f.expr left = e
  | _ + 2, left, ts, rest, e => ts = rest ∧ left = e

/-- A primary and what goes on behind it are what climbing from the floor derives. -/
theorem Climbed.mk {ts mid rest : List Token} {e : Expr} (first : Primary ts mid) :
    ∀ {floor : Nat}, Chained floor first.expr mid rest e → Climbed floor ts rest e
  | 0, ⟨_, f, s, h⟩ => ⟨.mk (.mk first f) s, h⟩
  | 1, ⟨f, h⟩ => ⟨.mk first f, h⟩
  | _ + 2, h => by
    obtain ⟨rfl, rfl⟩ := h
    exact ⟨first, rfl⟩

/-- In front of what binds no tighter than the floor nothing goes on. -/
theorem Chained.done {floor : Nat} (left : Expr) {ts : List Token}
    (next : ∀ op, (ahead ts).operator? = some op → op.precedence ≤ floor) :
    Chained floor left ts ts left := by
  match floor with
  | 0 =>
    have h : (ahead ts).operator? = none := by
      cases hop : (ahead ts).operator? with
      | none => rfl
      | some op => exact absurd (next op hop) (Nat.not_le.2 op.precedence_pos)
    have hn := (operator?_eq_none_iff _).1 h
    exact ⟨ts, .done hn.2, .done hn, rfl⟩
  | 1 =>
    have h : productOp? (ahead ts) = none := by
      cases hop : productOp? (ahead ts) with
      | none => rfl
      | some op =>
        have ho := operator?_of_productOp? hop
        have := next op ho.1
        omega
    exact ⟨.done h, rfl⟩
  | _ + 2 => exact ⟨rfl, rfl⟩

/-- One operator that binds tighter than the floor is one more summand or factor. -/
theorem Chained.more {floor : Nat} {left right e : Expr} {t : Token} {op : BinaryOp}
    {ts mid rest : List Token} (kind : t.kind.operator? = some op) (tight : floor < op.precedence)
    (hright : Climbed op.precedence ts mid right)
    (h : Chained floor (.binary op left right (left.span.through right.span)) mid rest e) :
    Chained floor left (t :: ts) rest e := by
  have hle := op.precedence_le_two
  obtain ⟨hs, hp, hprec⟩ | ⟨hs, hp, hprec⟩ := layer_of_operator? kind
  · rw [hprec] at hright tight
    obtain ⟨d, rfl⟩ := hright
    obtain rfl : floor = 0 := by omega
    obtain ⟨mid', f, s, rfl⟩ := h
    -- Behind a product there is no factor, so that the sum goes on at once.
    have hnext := d.next
    cases f with
    | done _ => exact ⟨t :: ts, .done hp, .more t op hs d s, rfl⟩
    | more _ _ hu => simp [hu] at hnext
  · rw [hprec] at hright tight
    obtain ⟨d, rfl⟩ := hright
    match floor, h with
    | 0, ⟨mid', f, s, h⟩ => exact ⟨mid', .more t op hp d f, s, h⟩
    | 1, ⟨f, h⟩ => exact ⟨.more t op hp d f, h⟩

/-! ## Expressions -/

/-- An end of the input behind the tokens changes nothing about what is ahead. -/
theorem ahead_append {tail : List Token} (h : ahead tail = .endOfInput) (ts : List Token) :
    ahead (ts ++ tail) = ahead ts := by
  cases ts with
  | nil => exact h
  | cons t ts => rfl

section Expressions

variable (tail : List Token)

/-- Every operand that is read in front of `tail` is a primary. -/
def OperandSound (ts : List Token) : Prop :=
  ∀ e rest, Yields (Expr.operand ts) e rest →
    ∃ d : Primary (ts ++ tail) (rest ++ tail), d.expr = e

/-- Everything that climbing reads in front of `tail` is what its floor says. -/
def ClimbSound (floor : Nat) (ts : List Token) : Prop :=
  ∀ e rest, Yields (Expr.climb floor ts) e rest → Climbed floor (ts ++ tail) (rest ++ tail) e

/-- Everything that a chain reads in front of `tail` is what its floor says. -/
def ChainSound (floor : Nat) (left : Expr) (ts : List Token) : Prop :=
  ∀ e rest, Yields (Expr.chain floor left ts) e rest →
    Chained floor left (ts ++ tail) (rest ++ tail) e

/-- All arguments that are read in front of `tail` are arguments, up to a closing parenthesis. -/
def ArgumentsSound (ts : List Token) : Prop :=
  ∀ args rest, Yields (Expr.arguments ts) args rest →
    ∃ (c : Token) (d : Arguments (ts ++ tail) (c :: (rest ++ tail))),
      c.kind = .rightParen ∧ (d.exprs, c.span) = args

variable {tail}

/-- Arguments are sound if the first one is, and the others behind any reading of it are. -/
theorem argumentsSound_cons {ts : List Token} (next : ahead ts ≠ .rightParen)
    (ihFirst : ClimbSound tail 0 ts)
    (ihOthers : ∀ first : Reading Expr ts.length,
      ArgumentsSound tail (Token.skipComma first.rest)) :
    ArgumentsSound tail ts := by
  intro args rest h
  obtain ⟨x, mid, hx, others, mid', ho, rfl, rfl⟩ := (Expr.yields_arguments_cons next args).1 h
  obtain ⟨d, rfl⟩ := ihFirst x mid hx
  have ih := ihOthers ⟨d.expr, mid, hx.length_lt⟩
  dsimp only at ih
  by_cases hcomma : ahead mid = .comma
  · obtain ⟨comma, us, rfl, hcomma⟩ := exists_cons_of_ahead_eq hcomma (by decide)
    rw [Token.skipComma_cons_of_comma hcomma] at ho ih
    obtain ⟨c, a, hc, ha⟩ := ih others rest ho
    subst ha
    exact ⟨c, .comma comma hcomma d a, hc, rfl⟩
  · rw [Token.skipComma_of_ahead_ne hcomma] at ho ih
    obtain ⟨c, a, hc, ha⟩ := ih others rest ho
    subst ha
    exact ⟨c, .bare d a, hc, rfl⟩

/-- What is read as an expression in front of `tail` has a derivation. -/
theorem expressions_sound (h : ahead tail = .endOfInput) :
    (∀ ts, OperandSound tail ts) ∧ (∀ floor ts, ClimbSound tail floor ts) ∧
      (∀ floor left ts, ChainSound tail floor left ts) ∧ ∀ ts, ArgumentsSound tail ts := by
  apply Expr.operand.mutual_induct (OperandSound tail) (ClimbSound tail) (ChainSound tail)
    (ArgumentsSound tail)
  -- The token that is looked at picks the production, and what is rejected has no reading.
  case case1 =>
    intro e rest hy
    exact absurd hy (Reading.not_yields_of_error Expr.of_operand_nil)
  case case2 =>
    intro t ts kind ih e rest hy
    obtain ⟨x, mid, hx, rfl, rfl⟩ := (Expr.yields_operand_minus kind).1 hy
    obtain ⟨d, rfl⟩ := ih x rest hx
    exact ⟨.negate t kind d, rfl⟩
  case case3 =>
    intro t ts kind i reads e rest hy
    obtain ⟨j, reads', rfl, rfl⟩ := (Expr.yields_operand_integer kind).1 hy
    exact ⟨.integer t j kind reads', rfl⟩
  case case4 =>
    intro t ts kind reads e rest hy
    obtain ⟨j, reads', -, -⟩ := (Expr.yields_operand_integer kind).1 hy
    simp [reads] at reads'
  case case5 =>
    intro t ts kind x reads e rest hy
    obtain ⟨y, reads', rfl, rfl⟩ := (Expr.yields_operand_float kind).1 hy
    exact ⟨.float t y kind reads', rfl⟩
  case case6 =>
    intro t ts kind reads e rest hy
    obtain ⟨y, reads', -, -⟩ := (Expr.yields_operand_float kind).1 hy
    simp [reads] at reads'
  case case7 =>
    intro t ts kind e rest hy
    obtain ⟨rfl, rfl⟩ := (Expr.yields_operand_string kind).1 hy
    exact ⟨.string t kind, rfl⟩
  case case8 =>
    intro t ts kind opens ih e rest hy
    have next := (Token.opensCall_iff ts).1 opens
    obtain ⟨args, mid, ha, rfl, rfl⟩ := (Expr.yields_operand_call kind next).1 hy
    obtain ⟨c, a, hc, rfl⟩ := ih args rest ha
    cases ts with
    | nil => cases next
    | cons o us => exact ⟨.call t o c ⟨kind, next, hc⟩ a, rfl⟩
  case case9 =>
    intro t ts kind opens e rest hy
    have next : ahead ts ≠ .leftParen := fun next => opens ((Token.opensCall_iff ts).2 next)
    obtain ⟨rfl, rfl⟩ := (Expr.yields_operand_name kind next).1 hy
    exact ⟨.name t kind (fun hn => next ((ahead_append h rest).symm.trans hn)), rfl⟩
  case case10 =>
    intro t ts kind ih e rest hy
    obtain ⟨x, mid, hx, c, mid', ⟨rfl, hc⟩, rfl, rfl⟩ := (Expr.yields_operand_group kind).1 hy
    obtain ⟨d, rfl⟩ := ih e (c :: rest) hx
    exact ⟨.group t c ⟨kind, hc⟩ d, rfl⟩
  case case11 =>
    intro t ts minus integer float string identifier leftParen e rest hy
    refine absurd hy (Expr.not_yields_operand ?_)
    cases hk : t.kind <;> simp_all [beginsExpression]
  case case12 =>
    intro floor ts ihFirst ihAll e rest hy
    obtain ⟨first, mid, hf, hc⟩ := (Expr.yields_climb floor).1 hy
    obtain ⟨d, rfl⟩ := ihFirst first mid hf
    exact .mk d (ihAll ⟨_, mid, hf.length_lt⟩ e rest hc)
  case case13 =>
    intro floor left e rest hy
    obtain ⟨rfl, rfl⟩ := (Expr.yields_chain_done (by simp [TokenKind.operator?])).1 hy
    exact .done e (by simp [h, TokenKind.operator?])
  case case14 =>
    intro floor left t ts kind e rest hy
    have next : ∀ op, (ahead (t :: ts)).operator? = some op → op.precedence ≤ floor := by
      simp [kind]
    obtain ⟨rfl, rfl⟩ := (Expr.yields_chain_done next).1 hy
    exact .done e next
  case case15 =>
    intro floor left t ts op kind tight ihRight ihAll e rest hy
    obtain ⟨right, mid, hr, hc⟩ := (Expr.yields_chain_more kind tight).1 hy
    exact .more kind tight (ihRight right mid hr) (ihAll ⟨right, mid, hr.length_lt⟩ e rest hc)
  case case16 =>
    intro floor left t ts op kind loose e rest hy
    have next : ∀ op, (ahead (t :: ts)).operator? = some op → op.precedence ≤ floor := by
      intro op' h'
      obtain rfl : op = op' := Option.some.inj (kind.symm.trans h')
      exact Nat.le_of_not_lt loose
    obtain ⟨rfl, rfl⟩ := (Expr.yields_chain_done next).1 hy
    exact .done e next
  case case17 =>
    intro args rest hy
    exact absurd hy (Reading.not_yields_of_error Expr.of_arguments_nil)
  case case18 =>
    intro t ts kind args rest hy
    obtain ⟨rfl, rfl⟩ := (Expr.yields_arguments_close kind args).1 hy
    exact ⟨t, .none, kind, rfl⟩
  case case19 =>
    intro t ts kind ihFirst ihOthers
    exact argumentsSound_cons kind ihFirst ihOthers

end Expressions

/-! ## Statements -/

section Statements

variable (tail : List Token)

/-- All parameters that are read in front of `tail` are parameters, up to a closing
parenthesis. -/
def ParametersSound (ts : List Token) : Prop :=
  ∀ params rest, Yields (Stmt.parameters ts) params rest →
    ∃ (c : Token) (d : Parameters (ts ++ tail) (c :: (rest ++ tail))),
      c.kind = .rightParen ∧ d.parameters = params

/-- Every statement that is read in front of `tail` is a statement. -/
def StatementSound (ts : List Token) : Prop :=
  ∀ s rest, Yields (Stmt.ofTokens ts) s rest →
    ∃ d : Statement (ts ++ tail) (rest ++ tail), d.stmt = s

/-- Every body that is read in front of `tail` consists of statements, up to a closing brace. -/
def BodySound (ts : List Token) : Prop :=
  ∀ block rest, Yields (Stmt.body ts) block rest →
    ∃ (c : Token) (d : Statements (ts ++ tail) (c :: (rest ++ tail))),
      c.kind = .rightBrace ∧ (d.stmts, c.span) = block

variable {tail}

/-- What is read as parameters in front of `tail` has a derivation. -/
theorem parameters_sound (ts : List Token) : ParametersSound tail ts := by
  induction ts using Stmt.parameters.induct with
  | case1 =>
    intro params rest hy
    exact absurd hy (Reading.not_yields_of_error Stmt.of_parameters_nil)
  | case2 t ts kind =>
    intro params rest hy
    obtain ⟨rfl, rfl⟩ := (Stmt.yields_parameters_close kind params).1 hy
    exact ⟨t, .none, kind, rfl⟩
  | case3 t ts close kind ih =>
    intro params rest hy
    obtain ⟨others, mid, ho, rfl, rfl⟩ := (Stmt.yields_parameters_cons kind params).1 hy
    by_cases hcomma : ahead ts = .comma
    · obtain ⟨comma, us, rfl, hcomma⟩ := exists_cons_of_ahead_eq hcomma (by decide)
      rw [Token.skipComma_cons_of_comma hcomma] at ho ih
      obtain ⟨c, d, hc, rfl⟩ := ih others rest ho
      exact ⟨c, .comma t comma ⟨kind, hcomma⟩ d, hc, rfl⟩
    · rw [Token.skipComma_of_ahead_ne hcomma] at ho ih
      obtain ⟨c, d, hc, rfl⟩ := ih others rest ho
      exact ⟨c, .bare t kind d, hc, rfl⟩
  | case4 t ts close kind =>
    intro params rest hy
    exact absurd hy (Stmt.not_yields_parameters close kind params)

/-- What is read as an expression statement has a derivation, if it begins with no name. -/
theorem expression_statement_sound (h : ahead tail = .endOfInput) {ts rest : List Token} {e : Expr}
    (name : ahead ts ≠ .identifier) (hy : Yields (Expr.climb 0 ts) e rest) :
    ∃ d : Statement (ts ++ tail) (rest ++ tail), d.stmt = .expression e e.span := by
  obtain ⟨d, rfl⟩ := (expressions_sound h).2.1 0 ts e rest hy
  exact ⟨.expression (fun hn => name ((ahead_append h ts).symm.trans hn)) d, rfl⟩

/-- What is read as a statement or as a body in front of `tail` has a derivation. -/
theorem statements_sound (h : ahead tail = .endOfInput) :
    (∀ ts, StatementSound tail ts) ∧ ∀ ts, BodySound tail ts := by
  have hclimb : ∀ ts, ClimbSound tail 0 ts := (expressions_sound h).2.1 0
  have harguments : ∀ ts, ArgumentsSound tail ts := (expressions_sound h).2.2.2
  apply Stmt.ofTokens.mutual_induct (StatementSound tail) (BodySound tail)
  case case1 =>
    intro s rest hy
    rw [Stmt.yields_expression (by simp [beginsStatement]) (by simp)] at hy
    obtain ⟨e, mid, he, -, -⟩ := hy
    exact absurd he Expr.not_yields_climb_nil
  case case2 =>
    intro t ts kind s rest hy
    obtain ⟨o, mid₁, ⟨rfl, ho⟩, e, mid₂, he, c, mid₃, ⟨rfl, hc⟩, rfl, rfl⟩ :=
      (Stmt.yields_print kind).1 hy
    obtain ⟨d, rfl⟩ := hclimb mid₁ e (c :: rest) he
    exact ⟨.print t o c ⟨kind, ho, hc⟩ d, rfl⟩
  case case3 =>
    intro t ts kind s rest hy
    obtain ⟨n, mid₁, ⟨rfl, hn⟩, q, mid₂, ⟨rfl, hq⟩, e, mid₃, he, rfl, rfl⟩ :=
      (Stmt.yields_declare kind).1 hy
    obtain ⟨d, rfl⟩ := hclimb mid₂ e rest he
    exact ⟨.declare t n q ⟨kind, hn, hq⟩ d, rfl⟩
  case case4 =>
    intro t ts kind s rest hy
    obtain ⟨n, mid, ⟨rfl, hn⟩, rfl, rfl⟩ := (Stmt.yields_ask kind).1 hy
    exact ⟨.ask t n ⟨kind, hn⟩, rfl⟩
  case case5 =>
    intro t ts kind ih s rest hy
    obtain ⟨head, mid₁, hh, block, mid₂, hb, rfl, rfl⟩ := (Stmt.yields_trick kind).1 hy
    obtain ⟨right, body, hright, rfl⟩ := ih ⟨head, mid₁, hh.length_lt⟩ block rest hb
    obtain ⟨n, _, ⟨rfl, hn⟩, o, mid₃, ⟨rfl, ho⟩, params, mid₄, hp, left, _, ⟨rfl, hleft⟩, rfl,
      rfl⟩ := (Stmt.yields_trickHead head).1 hh
    have hparameters : ParametersSound tail mid₃ := parameters_sound mid₃
    obtain ⟨c, params, hc, rfl⟩ := hparameters params _ hp
    exact ⟨.trick t n o c left right ⟨kind, hn, ho⟩ params ⟨hc, hleft, hright⟩ body, rfl⟩
  case case6 =>
    intro t ts kind opens s rest hy
    have next := (Token.opensCall_iff ts).1 opens
    obtain ⟨args, mid, ha, rfl, rfl⟩ := (Stmt.yields_call kind next).1 hy
    obtain ⟨c, a, hc, rfl⟩ := harguments ts.tail args rest ha
    obtain ⟨o, us, rfl, ho⟩ := exists_cons_of_ahead_eq next (by decide)
    exact ⟨.call t o c ⟨kind, ho, hc⟩ a, rfl⟩
  case case7 =>
    intro t ts kind opens s rest hy
    have next : ahead ts ≠ .leftParen := fun next => opens ((Token.opensCall_iff ts).2 next)
    obtain ⟨rfl, rfl⟩ := (Stmt.yields_name kind next).1 hy
    exact ⟨.name t kind (fun hn => next ((ahead_append h rest).symm.trans hn)), rfl⟩
  case case8 =>
    intro t ts purr meow woof trick name s rest hy
    have keyword : beginsStatement (ahead (t :: ts)) = true →
        beginsExpression (ahead (t :: ts)) = true := by
      rw [ahead_cons]
      cases hk : t.kind <;> simp_all [beginsStatement]
    obtain ⟨e, mid, he, rfl, rfl⟩ := (Stmt.yields_expression keyword name).1 hy
    exact expression_statement_sound h name he
  case case9 =>
    intro block rest hy
    exact absurd hy (Reading.not_yields_of_error Stmt.of_body_nil)
  case case10 =>
    intro t ts kind block rest hy
    obtain ⟨rfl, rfl⟩ := (Stmt.yields_body_close kind block).1 hy
    exact ⟨t, .none, kind, rfl⟩
  case case11 =>
    intro t ts kind ihFirst ihOthers block rest hy
    have next : ahead (t :: ts) ≠ .rightBrace := kind
    obtain ⟨first, mid₁, hf, others, mid₂, ho, rfl, rfl⟩ :=
      (Stmt.yields_body_cons next block).1 hy
    obtain ⟨d, rfl⟩ := ihFirst first mid₁ hf
    obtain ⟨c, ds, hc, rfl⟩ := ihOthers ⟨d.stmt, mid₁, hf.length_lt⟩ others rest ho
    exact ⟨c, .more d ds, hc, rfl⟩

/-- What is read as the statements of a script in front of `tail` has a derivation. -/
theorem all_sound (h : ahead tail = .endOfInput) (ts : List Token) :
    ∀ ss, Stmt.all ts = .ok ss → ∃ d : Statements (ts ++ tail) tail, d.stmts = ss := by
  induction ts using Stmt.all.induct with
  | case1 =>
    intro ss hs
    rw [Stmt.all] at hs
    cases hs
    exact ⟨.none, rfl⟩
  | case2 t ts ih =>
    intro ss hs
    obtain ⟨first, mid, hf, others, ho, rfl⟩ := (Stmt.all_eq_ok_iff (List.cons_ne_nil t ts) ss).1 hs
    obtain ⟨d, rfl⟩ := (statements_sound h).1 (t :: ts) first mid hf
    obtain ⟨ds, rfl⟩ := ih ⟨d.stmt, mid, hf.length_lt⟩ others ho
    exact ⟨.more d ds, rfl⟩

end Statements

end CatScript.Grammar
