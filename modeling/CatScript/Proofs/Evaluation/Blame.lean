import CatScript.Proofs.Evaluation.Kinds
import CatScript.Proofs.Evaluation.Steps
import CatScript.Proofs.Syntax.Node

/-!
# Where errors of a run arise

Every error of a run points at a node of the program: the variable, call or operator that fails, or
the statement whose output fails.  An expression is blamed for what fails in it, a statement for
what fails in its expression, and a program for what fails in its statements.  Only the flush
behind a program without statements points at no node; it points at the beginning of the text.
-/

set_option autoImplicit false

namespace CatScript

/-- An error of a run that points at something in a node. -/
def Error.ArisesIn (e : Error) (n : Node) : Prop :=
  e.cause.stage = .runtime ∧ ∃ m, n.Contains m ∧ e.span = m.span

namespace Error.ArisesIn

variable {e : Error} {n child : Node}

/-- An error that arises in a child of a node arises in the node. -/
theorem deeper (h : e.ArisesIn child) (hchild : child ∈ n.children) : e.ArisesIn n := by
  obtain ⟨hstage, m, hm, hspan⟩ := h
  exact ⟨hstage, m, .deeper hchild hm, hspan⟩

/-- An error that points at a node itself. -/
theorem here {cause : Cause} {span : Span} (hcause : cause.stage = .runtime)
    (hspan : span = n.span) : (Error.of cause span).ArisesIn n :=
  ⟨hcause, n, .here n, hspan⟩

end Error.ArisesIn

/-! ## Expressions -/

/-- What is wrong with an opposite is wrong with the evaluation. -/
theorem Value.stage_of_negate {v : Value} {cause : Cause} (h : v.negate = .error cause) :
    cause.stage = .runtime := by
  cases hkind : v.kind with
  | number =>
    obtain ⟨w, hw, -⟩ := Value.negate_of_number hkind
    exact absurd (hw.symm.trans h) (by simp)
  | text =>
    obtain ⟨operation, hop⟩ := Value.negate_of_text hkind
    rw [← Except.error.inj (hop.symm.trans h)]
    rfl

/-- What is wrong with an operation is wrong with the evaluation. -/
theorem BinaryOp.stage_of_apply {op : BinaryOp} {l r : Value} {cause : Cause}
    (h : op.apply l r = .error cause) : cause.stage = .runtime := by
  cases hkind : op.kind? l.kind r.kind with
  | none =>
    obtain ⟨operation, hop⟩ := apply_of_kind?_eq_none hkind
    rw [← Except.error.inj (hop.symm.trans h)]
    rfl
  | some kind =>
    obtain ⟨v, hv, -⟩ | ⟨-, hzero⟩ := apply_of_kind? hkind
    · exact absurd (hv.symm.trans h) (by simp)
    · rw [← Except.error.inj (hzero.symm.trans h)]
      rfl

/-- The cause of an operation that fails, put at a span. -/
theorem exists_cause_of_mapError {x : Except Cause Value} {span : Span} {e : Error}
    (h : x.mapError (Error.of · span) = .error e) :
    ∃ cause, x = .error cause ∧ e = .of cause span := by
  cases x with
  | ok v => simp [Except.mapError] at h
  | error cause => exact ⟨cause, rfl, (Except.error.inj h).symm⟩

/-- Looking up a variable fails only for want of it, at the place where it is looked up. -/
theorem Scope.lookup_error {scope : Scope} {name : String} {span : Span} {e : Error}
    (h : scope.lookup name span = .error e) : e = .of (.undefinedVariable name) span := by
  unfold Scope.lookup at h
  split at h
  · simp at h
  · exact (Except.error.inj h).symm

/-- An expression that fails is blamed for it. -/
theorem Expr.eval_error {scope : Scope} : (e : Expr) → ∀ {failure : Error},
    e.eval scope = .error failure → failure.ArisesIn (.expression e)
  | .string _ _, _, h => by simp [eval] at h
  | .integer _ _, _, h => by simp [eval] at h
  | .float _ _, _, h => by simp [eval] at h
  | .identifier name span, _, h => by
    rw [eval] at h
    rw [Scope.lookup_error h]
    exact .here rfl rfl
  | .call name _ span, _, h => by
    rw [eval] at h
    rw [← Except.error.inj h]
    refine .here ?_ rfl
    unfold Scope.callCause
    split <;> rfl
  | .negate operand span, failure, h => by
    rw [eval_negate] at h
    cases hoperand : operand.eval scope with
    | error e =>
      rw [hoperand] at h
      cases h
      exact (operand.eval_error hoperand).deeper (by simp [Node.children])
    | ok v =>
      rw [hoperand] at h
      obtain ⟨cause, hcause, rfl⟩ := exists_cause_of_mapError h
      exact .here (Value.stage_of_negate hcause) rfl
  | .binary op left right span, failure, h => by
    rw [eval_binary] at h
    cases hleft : left.eval scope with
    | error e =>
      rw [hleft] at h
      cases h
      exact (left.eval_error hleft).deeper (by simp [Node.children])
    | ok l =>
      cases hright : right.eval scope with
      | error e =>
        rw [hleft, hright] at h
        cases h
        exact (right.eval_error hright).deeper (by simp [Node.children])
      | ok r =>
        rw [hleft, hright] at h
        obtain ⟨cause, hcause, rfl⟩ := exists_cause_of_mapError h
        exact .here (BinaryOp.stage_of_apply hcause) rfl

/-! ## Statements and programs -/

namespace Session

variable {s after : Session} {e : Error} {span : Span}

/-- A failure of the sink has one cause and points where the session was told. -/
theorem print_error {text : String} (h : s.print text span = (some e, after)) :
    ∃ reason, e = .of (.outputFailed reason) span := by
  obtain ⟨reason, -, hreason⟩ := Option.map_eq_some_iff.1 (congrArg Prod.fst h)
  exact ⟨reason, hreason.symm⟩

/-- A flush fails only where the sink refuses it, at the place that is blamed for it. -/
theorem flush_error (h : s.flush span = (some e, after)) :
    ∃ reason, e = .of (.outputFailed reason) span := by
  obtain ⟨reason, -, hreason⟩ := Option.map_eq_some_iff.1 (congrArg Prod.fst h)
  exact ⟨reason, hreason.symm⟩

/-- A statement that fails is blamed for it. -/
theorem exec_error {statement : Stmt} (h : s.exec statement = (some e, after)) :
    e.ArisesIn (.statement statement) := by
  cases statement with
  | print argument span =>
    cases hargument : argument.eval s.scope with
    | error failure =>
      simp only [exec, hargument, Prod.mk.injEq, Option.some.injEq] at h
      rw [← h.1]
      exact (argument.eval_error hargument).deeper (by simp [Node.children])
    | ok v =>
      simp only [exec, hargument] at h
      obtain ⟨reason, rfl⟩ := print_error h
      exact .here rfl rfl
  | declare name value span =>
    cases hvalue : value.eval s.scope with
    | error failure =>
      simp only [exec, hvalue, Prod.mk.injEq, Option.some.injEq] at h
      rw [← h.1]
      exact (value.eval_error hvalue).deeper (by simp [Node.children])
    | ok v => simp [exec, hvalue] at h
  | access name span =>
    cases hname : s.scope.lookup name span with
    | error failure =>
      simp only [exec, hname, Prod.mk.injEq, Option.some.injEq] at h
      rw [← h.1, Scope.lookup_error hname]
      exact .here rfl rfl
    | ok v => simp [exec, hname] at h
  | trick name parameters body span => simp [exec] at h
  | expression value span =>
    cases hvalue : value.eval s.scope with
    | error failure =>
      simp only [exec, hvalue, Prod.mk.injEq, Option.some.injEq] at h
      rw [← h.1]
      exact (value.eval_error hvalue).deeper (by simp [Node.children])
    | ok v => simp [exec, hvalue] at h

/-- Among statements, the one that fails is blamed for it. -/
theorem execAll_error {statements : List Stmt} :
    ∀ {s : Session}, s.execAll statements = (some e, after) →
      ∃ statement ∈ statements, e.ArisesIn (.statement statement) := by
  induction statements with
  | nil =>
    intro s h
    simp [execAll] at h
  | cons statement rest ih =>
    intro s h
    rw [execAll_cons] at h
    obtain hstatement | ⟨mid, hrest⟩ := andThen_eq_error h
    · exact ⟨statement, List.mem_cons_self .., exec_error hstatement⟩
    · obtain ⟨found, hfound, hblame⟩ := ih hrest
      exact ⟨found, List.mem_cons_of_mem _ hfound, hblame⟩

/-- An error of a run arises in a topmost node of the program, or it is the flush behind a program
without statements that fails, and points at the beginning of the text. -/
theorem run_error {program : Program} (h : s.run program = (some e, after)) :
    (∃ top ∈ program.children, e.ArisesIn top) ∨
      e.cause.stage = .runtime ∧ e.span = Span.point Position.start := by
  rw [run_eq_andThen] at h
  obtain hstatements | ⟨mid, hflush⟩ := andThen_eq_error h
  · obtain ⟨statement, hmem, hblame⟩ := execAll_error hstatements
    exact .inl ⟨.statement statement, List.mem_map_of_mem hmem, hblame⟩
  · obtain ⟨reason, rfl⟩ := flush_error hflush
    cases hlast : program.statements.getLast? with
    | none => exact .inr ⟨rfl, by simp [Program.lastSpan, hlast, Error.of]⟩
    | some statement =>
      have hmem := List.mem_map_of_mem (f := Node.statement) (List.mem_of_getLast? hlast)
      exact .inl ⟨.statement statement, hmem,
        .here rfl (by simp [Program.lastSpan, hlast, Node.span])⟩

end Session

end CatScript
