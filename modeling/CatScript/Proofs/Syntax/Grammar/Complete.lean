import CatScript.Proofs.Syntax.Grammar.Sound

/-!
# What has a derivation is read

The reading of the tokens before the first end of the input succeeds with what a derivation of all
tokens stands for, and leaves what the derivation leaves.  The induction is on derivations.  A
chain is followed backwards: what a chain yields behind the factors of a product it also yields in
front of them, at both of the floors at which factors are read.
-/

set_option autoImplicit false

namespace CatScript.Grammar

open Reading (Yields)
open Token (script)

variable {ts rest : List Token}

/-- The end of the input is ahead of a script that is over. -/
@[simp] theorem ahead_script (ts : List Token) : ahead (script ts) = ahead ts := by
  cases ts with
  | nil => rfl
  | cons t ts =>
    by_cases h : t.kind = .endOfInput
    · simp [script, h]
    · simp [script, h]

/-- A token of a known kind other than the end of the input belongs to the script. -/
theorem script_cons {t : Token} {kind : TokenKind} (h : t.kind = kind)
    (hkind : kind ≠ .endOfInput) (ts : List Token) : script (t :: ts) = t :: script ts := by
  subst h
  simp [script, hkind]

/-- No token of the script is an end of the input. -/
theorem kind_ne_of_mem_script {t : Token} (h : t ∈ script ts) : t.kind ≠ .endOfInput := by
  simpa using List.mem_takeWhile_imp h

/-- Tokens without an end of the input belong to the script, whatever stands behind them. -/
theorem script_append {before : List Token} (h : ∀ t ∈ before, t.kind ≠ .endOfInput)
    (ts : List Token) : script (before ++ ts) = before ++ script ts :=
  List.takeWhile_append_of_pos (by simpa using h)

/-- Tokens without an end of the input are a script. -/
theorem script_eq_self (h : ∀ t ∈ ts, t.kind ≠ .endOfInput) : script ts = ts := by
  rw [script, List.takeWhile_eq_self_iff]
  simpa using h

/-- In front of an end of the input there is nothing more of the script. -/
theorem script_eq_nil (h : ahead ts = .endOfInput) : script ts = [] := by
  cases ts with
  | nil => rfl
  | cons t ts => simp_all [script]

/-- At the floor two a chain ends at once, so that climbing reads one primary. -/
theorem yields_climb_two {e : Expr} (h : Yields (Expr.operand ts) e rest) :
    Yields (Expr.climb 2 ts) e rest :=
  (Expr.yields_climb 2).2
    ⟨e, rest, h, (Expr.yields_chain_done fun op _ => op.precedence_le_two).2 ⟨rfl, rfl⟩⟩

/-- At the floor one a chain ends in front of what is no operator of a product. -/
theorem yields_chain_one {left : Expr} (next : productOp? (ahead ts) = none) :
    Yields (Expr.chain 1 left ts) left ts := by
  refine (Expr.yields_chain_done fun op h => ?_).2 ⟨rfl, rfl⟩
  obtain ⟨-, -, hprec⟩ | ⟨-, hp, -⟩ := layer_of_operator? h
  · exact Nat.le_of_eq hprec
  · simp [next] at hp

/-- At the floor zero a chain ends in front of what is no operator. -/
theorem yields_chain_zero {left : Expr}
    (next : sumOp? (ahead ts) = none ∧ productOp? (ahead ts) = none) :
    Yields (Expr.chain 0 left ts) left ts := by
  have h := (operator?_eq_none_iff _).2 next
  exact (Expr.yields_chain_done (by simp [h])).2 ⟨rfl, rfl⟩

mutual

/-- A primary is read as an operand. -/
theorem Primary.yields {ts rest : List Token} : (d : Primary ts rest) →
    Yields (Expr.operand (script ts)) d.expr (script rest)
  | .integer t value kind reads => by
    rw [script_cons kind (by decide)]
    exact (Expr.yields_operand_integer kind).2 ⟨value, reads, rfl, rfl⟩
  | .float t value kind reads => by
    rw [script_cons kind (by decide)]
    exact (Expr.yields_operand_float kind).2 ⟨value, reads, rfl, rfl⟩
  | .string t kind => by
    rw [script_cons kind (by decide)]
    exact (Expr.yields_operand_string kind).2 ⟨rfl, rfl⟩
  | .name t kind next => by
    rw [script_cons kind (by decide)]
    exact (Expr.yields_operand_name kind (by rwa [ahead_script])).2 ⟨rfl, rfl⟩
  | .call name opening closing kinds arguments => by
    have h := arguments.yields rfl kinds.2.2
    rw [script_cons kinds.1 (by decide), script_cons kinds.2.1 (by decide)]
    exact (Expr.yields_operand_call kinds.1 (by simpa using kinds.2.1)).2 ⟨_, _, h, rfl, rfl⟩
  | .group opening closing kinds inner => by
    have h := inner.yields
    rw [script_cons kinds.2 (by decide)] at h
    rw [script_cons kinds.1 (by decide)]
    exact (Expr.yields_operand_group kinds.1).2
      ⟨_, _, h, closing, _, ⟨rfl, kinds.2⟩, rfl, rfl⟩
  | .negate minus kind operand => by
    rw [script_cons kind (by decide)]
    exact (Expr.yields_operand_minus kind).2 ⟨_, _, operand.yields, rfl, rfl⟩

/-- What a chain yields behind the factors of a product it yields in front of them. -/
theorem Factors.yields {ts rest : List Token} : (d : Factors ts rest) →
    ∀ {floor : Nat} {left e : Expr} {stop : List Token}, floor < 2 →
      Yields (Expr.chain floor (d.expr left) (script rest)) e stop →
        Yields (Expr.chain floor left (script ts)) e stop
  | .done _, _, _, _, _, _, h => h
  | .more t op kind factor others, floor, left, e, stop, hfloor, h => by
    obtain ⟨hop, hprec⟩ := operator?_of_productOp? kind
    have hclimb := yields_climb_two factor.yields
    rw [← hprec] at hclimb
    have hkind : t.kind ≠ .endOfInput := by
      intro ht
      simp [ht, productOp?] at kind
    rw [script_cons rfl hkind]
    exact (Expr.yields_chain_more hop (by omega)).2 ⟨_, _, hclimb, others.yields hfloor h⟩

/-- A product is read by climbing from the floor one. -/
theorem Product.yields {ts rest : List Token} : (d : Product ts rest) →
    Yields (Expr.climb 1 (script ts)) d.expr (script rest)
  | .mk first others => by
    have hdone : Yields (Expr.chain 1 (others.expr first.expr) (script rest)) _ _ :=
      yields_chain_one (by rw [ahead_script]; exact others.next)
    exact (Expr.yields_climb 1).2 ⟨_, _, first.yields, others.yields (by decide) hdone⟩

/-- The further products of a sum are read by a chain at the floor zero. -/
theorem Summands.yields {ts rest : List Token} : (d : Summands ts rest) → ∀ left : Expr,
    Yields (Expr.chain 0 left (script ts)) (d.expr left) (script rest)
  | .done next, left => yields_chain_zero (by rwa [ahead_script])
  | .more t op kind summand others, left => by
    obtain ⟨hop, hprec⟩ := operator?_of_sumOp? kind
    have hclimb := summand.yields
    rw [← hprec] at hclimb
    have hkind : t.kind ≠ .endOfInput := by
      intro ht
      simp [ht, sumOp?] at kind
    rw [script_cons rfl hkind]
    exact (Expr.yields_chain_more hop op.precedence_pos).2 ⟨_, _, hclimb, others.yields _⟩

/-- An expression is read by climbing from the floor zero. -/
theorem Expression.yields {ts rest : List Token} : (d : Expression ts rest) →
    Yields (Expr.climb 0 (script ts)) d.expr (script rest)
  | .mk (.mk first factors) summands =>
    (Expr.yields_climb 0).2
      ⟨_, _, first.yields, factors.yields (by decide) (summands.yields _)⟩

/-- Arguments in front of a closing parenthesis are read up to the latter. -/
theorem Arguments.yields {ts stop : List Token} : (d : Arguments ts stop) →
    ∀ {closing : Token} {rest : List Token}, stop = closing :: rest →
      closing.kind = .rightParen →
        Yields (Expr.arguments (script ts)) (d.exprs, closing.span) (script rest)
  | .none, _, _, hstop, kind => by
    subst hstop
    rw [script_cons kind (by decide)]
    exact (Expr.yields_arguments_close kind _).2 ⟨rfl, rfl⟩
  | .bare first others, _, _, hstop, kind => by
    have next := first.ahead_ne_rightParen
    have hothers := others.yields hstop kind
    subst hstop
    have hcomma := others.ahead_ne_comma kind
    rw [← ahead_script] at next hcomma
    refine (Expr.yields_arguments_cons next _).2
      ⟨_, _, first.yields, (others.exprs, _), _, ?_, rfl, rfl⟩
    rwa [Token.skipComma_of_ahead_ne hcomma]
  | .comma comma hcomma first others, _, _, hstop, kind => by
    have next := first.ahead_ne_rightParen
    have hfirst := first.yields
    have hothers := others.yields hstop kind
    rw [script_cons hcomma (by decide)] at hfirst
    rw [← ahead_script] at next
    refine (Expr.yields_arguments_cons next _).2 ⟨_, _, hfirst, (others.exprs, _), _, ?_, rfl, rfl⟩
    rwa [Token.skipComma_cons_of_comma hcomma]

end

/-- Parameters in front of a closing parenthesis are read up to the latter. -/
theorem Parameters.yields {stop : List Token} (d : Parameters ts stop) {closing : Token}
    (hstop : stop = closing :: rest) (kind : closing.kind = .rightParen) :
    Yields (Stmt.parameters (script ts)) d.parameters (script rest) := by
  induction d with
  | none =>
    subst hstop
    rw [script_cons kind (by decide)]
    exact (Stmt.yields_parameters_close kind _).2 ⟨rfl, rfl⟩
  | bare name hname others ih =>
    have hothers := ih hstop
    subst hstop
    have hcomma := others.ahead_ne_comma kind
    rw [← ahead_script] at hcomma
    rw [script_cons hname (by decide)]
    refine (Stmt.yields_parameters_cons hname _).2 ⟨_, _, ?_, rfl, rfl⟩
    rwa [Token.skipComma_of_ahead_ne hcomma]
  | comma name comma kinds others ih =>
    rw [script_cons kinds.1 (by decide), script_cons kinds.2 (by decide)]
    refine (Stmt.yields_parameters_cons kinds.1 _).2 ⟨_, _, ?_, rfl, rfl⟩
    rw [Token.skipComma_cons_of_comma kinds.2]
    exact ih hstop

mutual

/-- A statement is read as one. -/
theorem Statement.yields {ts rest : List Token} : (d : Statement ts rest) →
    Yields (Stmt.ofTokens (script ts)) d.stmt (script rest)
  | .print purr opening closing kinds argument => by
    have h := argument.yields
    rw [script_cons kinds.2.2 (by decide)] at h
    rw [script_cons kinds.1 (by decide), script_cons kinds.2.1 (by decide)]
    exact (Stmt.yields_print kinds.1).2
      ⟨opening, _, ⟨rfl, kinds.2.1⟩, _, _, h, closing, _, ⟨rfl, kinds.2.2⟩, rfl, rfl⟩
  | .declare meow name equal kinds value => by
    rw [script_cons kinds.1 (by decide), script_cons kinds.2.1 (by decide),
      script_cons kinds.2.2 (by decide)]
    exact (Stmt.yields_declare kinds.1).2
      ⟨name, _, ⟨rfl, kinds.2.1⟩, equal, _, ⟨rfl, kinds.2.2⟩, _, _, value.yields, rfl, rfl⟩
  | .ask woof name kinds => by
    rw [script_cons kinds.1 (by decide), script_cons kinds.2 (by decide)]
    exact (Stmt.yields_ask kinds.1).2 ⟨name, _, ⟨rfl, kinds.2⟩, rfl, rfl⟩
  | .trick trick name opening closing left right head parameters kinds body => by
    have hp := parameters.yields rfl kinds.1
    have hb := body.yields_body rfl kinds.2.2
    rw [script_cons kinds.2.1 (by decide)] at hp
    rw [script_cons head.1 (by decide), script_cons head.2.1 (by decide),
      script_cons head.2.2 (by decide)]
    refine (Stmt.yields_trick head.1).2
      ⟨(name.lexeme, parameters.parameters), _, ?_, _, _, hb, rfl, rfl⟩
    exact (Stmt.yields_trickHead _).2
      ⟨name, _, ⟨rfl, head.2.1⟩, opening, _, ⟨rfl, head.2.2⟩, _, _, hp, left, _,
        ⟨rfl, kinds.2.1⟩, rfl, rfl⟩
  | .call name opening closing kinds arguments => by
    have h := arguments.yields rfl kinds.2.2
    rw [script_cons kinds.1 (by decide), script_cons kinds.2.1 (by decide)]
    exact (Stmt.yields_call kinds.1 (by simpa using kinds.2.1)).2 ⟨_, _, h, rfl, rfl⟩
  | .name t kind next => by
    rw [script_cons kind (by decide)]
    exact (Stmt.yields_name kind (by rwa [ahead_script])).2 ⟨rfl, rfl⟩
  | .expression name value => by
    have begins := value.begins
    rw [← ahead_script] at name begins
    exact (Stmt.yields_expression (fun _ => begins) name).2 ⟨_, _, value.yields, rfl, rfl⟩

/-- Statements in front of a closing brace are read as a body up to the latter. -/
theorem Statements.yields_body {ts stop : List Token} : (d : Statements ts stop) →
    ∀ {closing : Token} {rest : List Token}, stop = closing :: rest →
      closing.kind = .rightBrace →
        Yields (Stmt.body (script ts)) (d.stmts, closing.span) (script rest)
  | .none, _, _, hstop, kind => by
    subst hstop
    rw [script_cons kind (by decide)]
    exact (Stmt.yields_body_close kind _).2 ⟨rfl, rfl⟩
  | .more first others, _, _, hstop, kind => by
    have hothers := others.yields_body hstop kind
    have begins := first.begins
    have next : ahead (script ts) ≠ .rightBrace := by
      intro h
      rw [ahead_script] at h
      simp [h, beginsStatement, beginsExpression] at begins
    exact (Stmt.yields_body_cons next _).2
      ⟨_, _, first.yields, _, _, hothers, rfl, rfl⟩

end

/-- Statements in front of the end of the input are read as a whole script. -/
theorem Statements.all_eq_ok {ts stop : List Token} : (d : Statements ts stop) →
    ahead stop = .endOfInput → Stmt.all (script ts) = .ok d.stmts
  | .none, h => by
    rw [script_eq_nil h, Stmt.all]
    rfl
  | .more first others, h => by
    have begins := first.begins
    have hts : script ts ≠ [] := by
      intro hnil
      rw [← ahead_script, hnil] at begins
      simp [beginsStatement, beginsExpression] at begins
    exact (Stmt.all_eq_ok_iff hts _).2 ⟨_, _, first.yields, _, others.all_eq_ok h, rfl⟩

/-! ## Scripts -/

/-- The tokens behind the script begin with an end of the input, if there are any. -/
theorem exists_eq_script_append (tokens : List Token) :
    ∃ tail, tokens = script tokens ++ tail ∧ ahead tail = .endOfInput := by
  induction tokens with
  | nil => exact ⟨[], rfl, rfl⟩
  | cons t ts ih =>
    by_cases h : t.kind = .endOfInput
    · exact ⟨t :: ts, by simp [script, h], h⟩
    · obtain ⟨tail, hts, htail⟩ := ih
      refine ⟨tail, ?_, htail⟩
      rw [script_cons rfl h, List.cons_append, ← hts]

/-- Tokens are read as exactly the program that a derivation stands for, spans included. -/
theorem ofTokens_eq_ok_iff (tokens : List Token) (program : Program) :
    Program.ofTokens tokens = .ok program ↔ ∃ d : Script tokens, d.program = program := by
  unfold Program.ofTokens
  constructor
  · intro h
    cases hs : Stmt.all (script tokens) with
    | error r => simp [hs] at h
    | ok ss =>
      obtain ⟨tail, htokens, htail⟩ := exists_eq_script_append tokens
      have hd := all_sound htail (script tokens) ss hs
      rw [← htokens] at hd
      obtain ⟨d, rfl⟩ := hd
      rw [hs] at h
      cases h
      exact ⟨⟨tail, d, htail⟩, rfl⟩
  · rintro ⟨d, rfl⟩
    rw [d.statements.all_eq_ok d.next]
    rfl

/-- Reading and the grammar agree: what is read is the tree of a derivation, whatever has a
derivation is read as its tree, and no list of tokens has two derivations. -/
theorem ofTokens_agrees_with_grammar (tokens : List Token) :
    (∀ program, Program.ofTokens tokens = .ok program →
      ∃ d : Script tokens, d.tree = program.shape) ∧
    (∀ d : Script tokens, ∃ program, Program.ofTokens tokens = .ok program ∧
      program.shape = d.tree) ∧
    ∀ d d' : Script tokens, d = d' := by
  refine ⟨?_, ?_, Script.unique⟩
  · intro program h
    obtain ⟨d, rfl⟩ := (ofTokens_eq_ok_iff tokens program).1 h
    exact ⟨d, d.shape_program.symm⟩
  · intro d
    exact ⟨d.program, (ofTokens_eq_ok_iff tokens _).2 ⟨d, rfl⟩, d.shape_program⟩

end CatScript.Grammar
