import CatScript.Proofs.Evaluation.Blame
import CatScript.Proofs.Number.Converted
import CatScript.Proofs.Syntax.Placed

/-!
# The first fault of an expression

An evaluation visits the nodes of an expression in post-order, and it goes on to a node only if all
nodes before it have values.  Whether such a node has a value too is its own affair: a name may be
unbound, a call always fails, and an operator fails for what it is given (`Expr.Fails`).  The error
of an expression is therefore that of the first node that fails.  No two nodes are the first, since
the nodes before either of them have values, and so the statement holds in both directions.
-/

set_option autoImplicit false

namespace CatScript

/-! ## The nodes of an expression -/

/-- The nodes of an expression that an evaluation visits, in its order: the operands of an operator
from left to right, and then the operator.  The arguments of a call are not among them. -/
def Expr.postorder : Expr → List Expr
  | .string s span => [.string s span]
  | .integer i span => [.integer i span]
  | .float x span => [.float x span]
  | .identifier name span => [.identifier name span]
  | .call name arguments span => [.call name arguments span]
  | .negate operand span => operand.postorder ++ [.negate operand span]
  | .binary op left right span =>
    left.postorder ++ right.postorder ++ [.binary op left right span]

/-! ## What operators do not take -/

/-- An operator takes two numbers, and a sum also two strings. -/
def BinaryOp.Takes (op : BinaryOp) (l r : Value) : Prop :=
  (l.kind = .number ∧ r.kind = .number) ∨ (op = .add ∧ l.kind = .text ∧ r.kind = .text)

/-- A number that divides nothing. -/
def Value.IsZero : Value → Prop
  | .string _ => False
  | .integer i => i.toInt = 0
  | .float x => (x == 0.0) = true

namespace BinaryOp

variable {op : BinaryOp} {cause : Cause}

/-- An operation on floats fails only as a division by a zero of either sign. -/
theorem applyFloats_eq_error_iff {l r : Float} :
    op.applyFloats l r = .error cause ↔
      op = .divide ∧ (r == 0.0) = true ∧ cause = .divisionByZero := by
  unfold applyFloats
  split
  next h => simp [h.1, h.2, eq_comm]
  next h =>
    simp only [reduceCtorEq, false_iff]
    rintro ⟨hop, hzero, -⟩
    exact h ⟨hop, hzero⟩

/-- Two integers that leave the integers do not meet a zero among the floats. -/
theorem applyIntegers_eq_error_iff {l r : Int64} :
    op.applyIntegers l r = .error cause ↔
      op = .divide ∧ r.toInt = 0 ∧ cause = .divisionByZero := by
  unfold applyIntegers
  split
  next h => simp [h.1, h.2, eq_comm]
  next h =>
    split
    next n hn =>
      simp only [reduceCtorEq, false_iff]
      rintro ⟨hop, hzero, -⟩
      exact h ⟨hop, hzero⟩
    next => rw [applyFloats_eq_error_iff, Integer64.toFloat_eq_zero_iff]

/-- An operator fails for values that it does not take, and a quotient for a divisor that is
zero. -/
theorem apply_eq_error_iff {l r : Value} :
    op.apply l r = .error cause ↔
      (¬ op.Takes l r ∧ cause = op.unsupported l r) ∨
        (op = .divide ∧ l.kind = .number ∧ r.IsZero ∧ cause = .divisionByZero) := by
  cases l with
  | string a =>
    cases r with
    | string b =>
      unfold apply
      by_cases hop : op = .add <;> simp [hop, Takes, Value.kind, Value.IsZero, eq_comm]
    | integer j => simp [apply, Takes, Value.kind, eq_comm]
    | float y => simp [apply, Takes, Value.kind, eq_comm]
  | integer i =>
    cases r with
    | string b => simp [apply, Takes, Value.kind, Value.IsZero, eq_comm]
    | integer j => simp [apply, applyIntegers_eq_error_iff, Takes, Value.kind, Value.IsZero]
    | float y => simp [apply, applyFloats_eq_error_iff, Takes, Value.kind, Value.IsZero]
  | float x =>
    cases r with
    | string b => simp [apply, Takes, Value.kind, Value.IsZero, eq_comm]
    | integer j =>
      simp [apply, applyFloats_eq_error_iff, Integer64.toFloat_eq_zero_iff, Takes, Value.kind,
        Value.IsZero]
    | float y => simp [apply, applyFloats_eq_error_iff, Takes, Value.kind, Value.IsZero]

end BinaryOp

/-- A minus fails in front of a string only. -/
theorem Value.negate_eq_error_iff {v : Value} {cause : Cause} :
    v.negate = .error cause ↔ v.kind = .text ∧ cause = .unsupportedOperator s!"-{v.typeName}" := by
  cases v with
  | string s => simp [negate, kind, eq_comm]
  | integer i =>
    unfold negate
    dsimp only
    split <;> simp [kind]
  | float x => simp [negate, kind]

/-! ## Nodes that fail -/

/-- A node fails of itself, while its operands have values: an unbound name, any call, an operator
that does not take the values of its operands, and a quotient by zero. -/
inductive Expr.Fails (scope : Scope) : Expr → Cause → Prop
  | unbound {name : String} {span : Span} (hname : scope.bindings.get? name = none) :
      Fails scope (.identifier name span) (.undefinedVariable name)
  | undeclared {name : String} {arguments : List Expr} {span : Span}
      (hname : scope.functions.contains name = false) :
      Fails scope (.call name arguments span) (.undefinedFunction name)
  | uncallable {name : String} {arguments : List Expr} {span : Span}
      (hname : scope.functions.contains name = true) :
      Fails scope (.call name arguments span) (.unsupportedCall name)
  | operand {operand : Expr} {span : Span} {v : Value} (hv : operand.eval scope = .ok v)
      (hkind : v.kind = .text) :
      Fails scope (.negate operand span) (.unsupportedOperator s!"-{v.typeName}")
  | operands {op : BinaryOp} {left right : Expr} {span : Span} {l r : Value}
      (hl : left.eval scope = .ok l) (hr : right.eval scope = .ok r) (htakes : ¬ op.Takes l r) :
      Fails scope (.binary op left right span)
        (.unsupportedOperator s!"{l.typeName} {op.symbol} {r.typeName}")
  | divisor {left right : Expr} {span : Span} {l r : Value}
      (hl : left.eval scope = .ok l) (hr : right.eval scope = .ok r) (hkind : l.kind = .number)
      (hzero : r.IsZero) :
      Fails scope (.binary .divide left right span) .divisionByZero

/-- The first of some nodes that fails, and why: the nodes before it have values. -/
def FirstFault (scope : Scope) (nodes : List Expr) (node : Expr) (cause : Cause) : Prop :=
  ∃ before after, nodes = before ++ node :: after ∧
    (∀ m ∈ before, ∃ v, m.eval scope = .ok v) ∧ node.Fails scope cause

section Faults

variable {scope : Scope} {nodes others : List Expr} {node other : Expr} {cause cause' : Cause}
  {failure : Error}

/-- A node that fails of itself is an expression that fails there. -/
theorem Expr.Fails.eval_eq (h : node.Fails scope cause) :
    node.eval scope = .error (.of cause node.span) := by
  cases h with
  | unbound hname => simp [eval, Scope.lookup, hname, Expr.span]
  | undeclared hname => simp [eval, Scope.callCause, hname, Expr.span]
  | uncallable hname => simp [eval, Scope.callCause, hname, Expr.span]
  | operand hv hkind =>
    have hcause := Value.negate_eq_error_iff.2 ⟨hkind, rfl⟩
    simp only [eval, hv, hcause, Except.mapError, Expr.span]
  | operands hl hr htakes =>
    have hcause := BinaryOp.apply_eq_error_iff.2 (.inl ⟨htakes, rfl⟩)
    simp only [eval, hl, hr, hcause, Except.mapError, Expr.span, BinaryOp.unsupported]
  | divisor hl hr hkind hzero =>
    have hcause := BinaryOp.apply_eq_error_iff.2 (.inr ⟨rfl, hkind, hzero, rfl⟩)
    simp only [eval, hl, hr, hcause, Except.mapError, Expr.span]

/-- If an expression has a value, so have all its nodes. -/
theorem Expr.exists_eval_of_mem_postorder : (e : Expr) → ∀ {v : Value}, e.eval scope = .ok v →
    ∀ m ∈ e.postorder, ∃ w, m.eval scope = .ok w
  | .string s span, v, h => by simp [postorder, h]
  | .integer i span, v, h => by simp [postorder, h]
  | .float x span, v, h => by simp [postorder, h]
  | .identifier name span, v, h => by simp [postorder, h]
  | .call name arguments span, v, h => by simp [postorder, h]
  | .negate operand span, v, h => by
    intro m hm
    obtain hm | hm := List.mem_append.1 hm
    · rw [eval_negate] at h
      cases hoperand : operand.eval scope with
      | error e => simp [hoperand, bind, Except.bind] at h
      | ok w => exact operand.exists_eval_of_mem_postorder hoperand m hm
    · rw [List.mem_singleton.1 hm]
      exact ⟨v, h⟩
  | .binary op left right span, v, h => by
    intro m hm
    obtain hm | hm := List.mem_append.1 hm
    · rw [eval_binary] at h
      cases hleft : left.eval scope with
      | error e => simp [hleft, bind, Except.bind] at h
      | ok l =>
        cases hright : right.eval scope with
        | error e => simp [hleft, hright, bind, Except.bind] at h
        | ok r =>
          obtain hm | hm := List.mem_append.1 hm
          · exact left.exists_eval_of_mem_postorder hleft m hm
          · exact right.exists_eval_of_mem_postorder hright m hm
    · rw [List.mem_singleton.1 hm]
      exact ⟨v, h⟩

namespace FirstFault

/-- A node that fails, with nothing else beside it, is the first fault. -/
theorem alone (h : node.Fails scope cause) : FirstFault scope [node] node cause :=
  ⟨[], [], rfl, by simp, h⟩

/-- What comes behind the first fault does not matter. -/
theorem append (h : FirstFault scope nodes node cause) :
    FirstFault scope (nodes ++ others) node cause := by
  obtain ⟨before, after, rfl, hbefore, hfails⟩ := h
  exact ⟨before, after ++ others, by simp, hbefore, hfails⟩

/-- Nodes in front that have values leave the first fault where it is. -/
theorem behind (h : FirstFault scope nodes node cause)
    (hothers : ∀ m ∈ others, ∃ v, m.eval scope = .ok v) :
    FirstFault scope (others ++ nodes) node cause := by
  obtain ⟨before, after, rfl, hbefore, hfails⟩ := h
  refine ⟨others ++ before, after, by simp, ?_, hfails⟩
  intro m hm
  exact (List.mem_append.1 hm).elim (hothers m) (hbefore m)

/-- A node that fails does not stand before another node that is only reached over values. -/
theorem eq_of_reached {middle after after' : List Expr} (hfails : node.Fails scope cause)
    (hmiddle : ∀ m ∈ middle, ∃ v, m.eval scope = .ok v)
    (h : node :: after = middle ++ other :: after') : node = other := by
  cases middle with
  | nil => exact (List.cons.inj h).1
  | cons first middle =>
    obtain rfl := (List.cons.inj h).1
    obtain ⟨v, hv⟩ := hmiddle node (List.mem_cons_self ..)
    exact absurd (hfails.eval_eq.symm.trans hv) (by simp)

/-- There is only one first fault. -/
theorem unique (h : FirstFault scope nodes node cause) (h' : FirstFault scope nodes other cause') :
    node = other := by
  obtain ⟨before, after, rfl, hbefore, hfails⟩ := h
  obtain ⟨before', after', hnodes, hbefore', hfails'⟩ := h'
  obtain ⟨middle, rfl, hmiddle⟩ | ⟨middle, rfl, hmiddle⟩ := List.append_eq_append_iff.1 hnodes
  · exact eq_of_reached hfails (fun m hm => hbefore' m (List.mem_append_right _ hm)) hmiddle
  · exact (eq_of_reached hfails' (fun m hm => hbefore m (List.mem_append_right _ hm)) hmiddle).symm

end FirstFault

/-- An expression that fails has a first fault, and its error is that of the fault. -/
theorem Expr.exists_firstFault : (e : Expr) → ∀ {failure : Error}, e.eval scope = .error failure →
    ∃ node cause, FirstFault scope e.postorder node cause ∧ failure = .of cause node.span
  | .string s span, _, h => by simp [eval] at h
  | .integer i span, _, h => by simp [eval] at h
  | .float x span, _, h => by simp [eval] at h
  | .identifier name span, _, h => by
    rw [eval] at h
    have hname : scope.bindings.get? name = none := by
      unfold Scope.lookup at h
      split at h
      · simp at h
      · assumption
    exact ⟨_, _, .alone (.unbound hname), Scope.lookup_error h⟩
  | .call name arguments span, _, h => by
    rw [eval, Except.error.injEq] at h
    cases hname : scope.functions.contains name with
    | false =>
      refine ⟨_, _, .alone (.undeclared hname), ?_⟩
      simp [← h, Scope.callCause, hname, Expr.span]
    | true =>
      refine ⟨_, _, .alone (.uncallable hname), ?_⟩
      simp [← h, Scope.callCause, hname, Expr.span]
  | .negate operand span, failure, h => by
    rw [eval_negate] at h
    cases hoperand : operand.eval scope with
    | error e =>
      rw [hoperand] at h
      cases h
      obtain ⟨node, cause, hfault, hfailure⟩ := operand.exists_firstFault hoperand
      exact ⟨node, cause, hfault.append, hfailure⟩
    | ok v =>
      rw [hoperand] at h
      obtain ⟨cause, hcause, rfl⟩ := exists_cause_of_mapError h
      obtain ⟨hkind, rfl⟩ := Value.negate_eq_error_iff.1 hcause
      have hvalues := operand.exists_eval_of_mem_postorder hoperand
      exact ⟨_, _, (FirstFault.alone (.operand hoperand hkind)).behind hvalues, rfl⟩
  | .binary op left right span, failure, h => by
    rw [eval_binary] at h
    cases hleft : left.eval scope with
    | error e =>
      rw [hleft] at h
      cases h
      obtain ⟨node, cause, hfault, hfailure⟩ := left.exists_firstFault hleft
      exact ⟨node, cause, hfault.append.append, hfailure⟩
    | ok l =>
      -- The nodes of the left operand come first, and all of them have values.
      have hvalues := left.exists_eval_of_mem_postorder hleft
      cases hright : right.eval scope with
      | error e =>
        rw [hleft, hright] at h
        cases h
        obtain ⟨node, cause, hfault, hfailure⟩ := right.exists_firstFault hright
        exact ⟨node, cause, (hfault.behind hvalues).append, hfailure⟩
      | ok r =>
        rw [hleft, hright] at h
        obtain ⟨cause, hcause, rfl⟩ := exists_cause_of_mapError h
        have hvalues' : ∀ m ∈ left.postorder ++ right.postorder, ∃ v, m.eval scope = .ok v := by
          intro m hm
          exact (List.mem_append.1 hm).elim (hvalues m)
            (right.exists_eval_of_mem_postorder hright m)
        obtain ⟨htakes, rfl⟩ | ⟨rfl, hkind, hzero, rfl⟩ := BinaryOp.apply_eq_error_iff.1 hcause
        · exact ⟨_, _, (FirstFault.alone (.operands hleft hright htakes)).behind hvalues', rfl⟩
        · exact ⟨_, _, (FirstFault.alone (.divisor hleft hright hkind hzero)).behind hvalues', rfl⟩

/-- The error of an expression is that of its first fault. -/
theorem Expr.eval_eq_error_iff (scope : Scope) (e : Expr) (failure : Error) :
    e.eval scope = .error failure ↔
      ∃ node cause, FirstFault scope e.postorder node cause ∧ failure = .of cause node.span := by
  constructor
  · exact e.exists_firstFault
  · rintro ⟨node, cause, hfault, rfl⟩
    have ⟨before, after, hnodes, _, hfails⟩ := hfault
    cases heval : e.eval scope with
    | ok v =>
      have hmem : node ∈ e.postorder := by simp [hnodes]
      obtain ⟨w, hw⟩ := e.exists_eval_of_mem_postorder heval node hmem
      exact absurd (hfails.eval_eq.symm.trans hw) (by simp)
    | error found =>
      obtain ⟨other, cause', hother, rfl⟩ := e.exists_firstFault heval
      obtain rfl := hfault.unique hother
      have ⟨_, _, _, _, hfails'⟩ := hother
      rw [← hfails'.eval_eq, hfails.eval_eq]

end Faults

/-! ## Statements -/

/-- A node contains the children of the nodes that it contains. -/
theorem Node.Contains.child {n m child : Node} (h : n.Contains m) (hchild : child ∈ m.children) :
    n.Contains child := by
  induction h with
  | here n => exact .deeper hchild (.here child)
  | deeper hbetween _ ih => exact .deeper hbetween (ih hchild)

/-- A program contains the children of the nodes that it contains. -/
theorem Program.Contains.child {program : Program} {n child : Node} (h : program.Contains n)
    (hchild : child ∈ n.children) : program.Contains child := by
  obtain ⟨top, htop, hbelow⟩ := h
  exact ⟨top, htop, hbelow.child hchild⟩

/-- What a node of the program of a text contains lies inside it. -/
theorem Program.within_of_contains {source : String} {program : Program}
    (hprogram : Program.ofText source = .ok program) {n m : Node} (hn : program.Contains n)
    (hm : n.Contains m) : n.span.start ≤ m.span.start ∧ m.span.stop ≤ n.span.stop := by
  obtain ⟨tokens, htokens, htree⟩ := Program.exists_tokens hprogram
  have hplaced := (Program.ofText_placed source tokens program htokens htree).1
  induction hm with
  | here n => exact ⟨le_rfl, le_rfl⟩
  | deeper hchild _ ih =>
    have hfirst := (hplaced _ hn).within _ hchild
    have hrest := ih (hn.child hchild)
    exact ⟨hfirst.1.trans hrest.1, hrest.2.trans hfirst.2⟩

/-- A statement fails with the error of its expression and changes nothing. -/
theorem Session.exec_of_eval_error {s : Session} {statement : Stmt} {e : Expr} {failure : Error}
    (he : .expression e ∈ (Node.statement statement).children)
    (hfailure : e.eval s.scope = .error failure) : s.exec statement = (some failure, s) := by
  cases statement with
  | print argument span =>
    simp only [Node.children, List.mem_singleton, Node.expression.injEq] at he
    simp [exec, ← he, hfailure]
  | declare name value span =>
    simp only [Node.children, List.mem_singleton, Node.expression.injEq] at he
    simp [exec, ← he, hfailure]
  | access name span => simp [Node.children] at he
  | trick name parameters body span => simp [Node.children] at he
  | expression value span =>
    simp only [Node.children, List.mem_singleton, Node.expression.injEq] at he
    simp [exec, ← he, hfailure]

/-- An expression fails if and only if one of its nodes in post-order fails of itself while those
before it have values, and then its error is that of this node: the cause that the values of the
node's operands give, at the span of the node.  The statement around the expression fails with the
same error, and in the program of a text, whatever a statement fails with points into the
statement. -/
theorem Expr.eval_error_is_first_fault :
    (∀ (scope : Scope) (e : Expr) (failure : Error), e.eval scope = .error failure ↔
      ∃ node cause, FirstFault scope e.postorder node cause ∧ failure = .of cause node.span) ∧
    (∀ (s : Session) (statement : Stmt) (e : Expr) (failure : Error),
      .expression e ∈ (Node.statement statement).children →
        e.eval s.scope = .error failure → s.exec statement = (some failure, s)) ∧
    ∀ (source : String) (program : Program), Program.ofText source = .ok program →
      ∀ statement, program.Contains (.statement statement) →
        ∀ (s after : Session) (failure : Error), s.exec statement = (some failure, after) →
          statement.span.start ≤ failure.span.start ∧ failure.span.stop ≤ statement.span.stop := by
  refine ⟨eval_eq_error_iff, fun s statement e failure he h => Session.exec_of_eval_error he h, ?_⟩
  intro source program hprogram statement hstatement s after failure hfailed
  obtain ⟨-, node, hnode, hspan⟩ := Session.exec_error hfailed
  rw [hspan]
  exact Program.within_of_contains hprogram hstatement hnode

/-- An expression with three faults: a division by zero, a name that is not bound, and a difference
between a string and whatever these two would give. -/
def faultyExpression : Expr :=
  .binary .subtract (.string "cat" ⟨5, 10, 1, 6⟩)
    (.binary .multiply
      (.binary .divide (.integer 1 ⟨14, 15, 1, 15⟩) (.integer 0 ⟨18, 19, 1, 19⟩) ⟨14, 19, 1, 15⟩)
      (.identifier "x" ⟨22, 23, 1, 23⟩) ⟨14, 23, 1, 15⟩) ⟨5, 23, 1, 6⟩

/-- A statement that prints it. -/
def faultyStatement : Stmt := .print faultyExpression ⟨0, 25, 1, 1⟩

/-- The statement fails with the division by zero, which stands inside it. -/
theorem Expr.eval_error_is_first_fault_of_three :
    Program.ofText "purr(\"cat\" - (1 / 0 * x))" = .ok ⟨[faultyStatement]⟩ ∧
      (∃ node cause, FirstFault Scope.empty faultyExpression.postorder node cause ∧
        Error.of .divisionByZero ⟨14, 19, 1, 15⟩ = .of cause node.span) ∧
      (Session.start .working).exec faultyStatement =
        (some (.of .divisionByZero ⟨14, 19, 1, 15⟩), Session.start .working) ∧
      faultyStatement.span.start ≤ 14 ∧ 19 ≤ faultyStatement.span.stop := by
  have hprogram : Program.ofText "purr(\"cat\" - (1 / 0 * x))" = .ok ⟨[faultyStatement]⟩ := by cbv
  have hfailure : faultyExpression.eval Scope.empty =
      .error (.of .divisionByZero ⟨14, 19, 1, 15⟩) := rfl
  obtain ⟨hfault, hexec, hwithin⟩ := Expr.eval_error_is_first_fault
  have hfailed := hexec (Session.start .working) faultyStatement faultyExpression _
    (List.mem_singleton_self _) hfailure
  exact ⟨hprogram, (hfault _ _ _).1 hfailure, hfailed,
    hwithin _ _ hprogram _ ⟨_, List.mem_singleton_self _, .here _⟩ _ _ _ hfailed⟩

end CatScript
