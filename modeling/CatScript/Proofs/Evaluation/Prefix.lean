import CatScript.Proofs.Evaluation.Blame
import CatScript.Proofs.Evaluation.Deeds

/-!
# What a failed run leaves

A run that fails has executed some statements, which succeeded, and then met one that did not, or
has executed them all and could not flush.  The variables and the functions are then those behind
the statements that succeeded (`Session.run_error_cases`), and so is the output, but for the first
part of a line that the sink did not take as a whole.  What a variable stands for behind statements
that succeeded is said by `Session.get?_execAll`: what the last declaration of it among them
computed, or what it stood for before.
-/

set_option autoImplicit false

namespace CatScript.Session

variable {s mid after : Session} {e : Error}

/-! ## A statement that fails -/

/-- What a statement that fails leaves: the variables and the functions are as they were, and so is
the output, unless the sink failed at the line that the statement prints; then the sink may hold a
first part of that line. -/
structure LeavesIntact (s : Session) (statement : Stmt) (e : Error) (after : Session) : Prop where
  scope : after.scope = s.scope
  output : after.sink.held = s.sink.held ∨
    ∃ argument span v reason taken, statement = .print argument span ∧
      argument.eval s.scope = .ok v ∧ e = .of (.outputFailed reason) span ∧
      after.sink.held = s.sink.held ++ (v.text ++ "\n").toUTF8.extract 0 taken

/-- A statement that fails leaves the scope as it was, and at most the front of its line in the
output. -/
theorem leavesIntact_of_exec {statement : Stmt} (h : s.exec statement = (some e, after)) :
    s.LeavesIntact statement e after := by
  rw [exec_eq_settle] at h
  cases hdeed : statement.deed s.scope with
  | error found =>
    rw [hdeed] at h
    obtain ⟨-, rfl⟩ := Prod.mk.inj h
    exact ⟨rfl, .inl rfl⟩
  | ok deed =>
    rw [hdeed] at h
    obtain ⟨text, reason, taken, rfl, rfl, hscope, hheld⟩ := perform_error h
    obtain ⟨argument, span, v, rfl, hv, rfl⟩ := Stmt.deed_eq_print_iff.1 hdeed
    exact ⟨hscope, .inr ⟨argument, span, v, reason, taken, rfl, hv, rfl, hheld⟩⟩

/-- Statements that do not all succeed have a first one that fails, behind others that succeed. -/
theorem exists_of_execAll_error {statements : List Stmt} :
    ∀ {s : Session}, s.execAll statements = (some e, after) →
      ∃ before statement rest mid, statements = before ++ statement :: rest ∧
        s.execAll before = (none, mid) ∧ mid.exec statement = (some e, after) := by
  induction statements with
  | nil =>
    intro s h
    simp [execAll] at h
  | cons statement rest ih =>
    intro s h
    rw [execAll_cons] at h
    rcases hfirst : s.exec statement with ⟨_ | e', mid⟩
    · rw [hfirst] at h
      obtain ⟨before, failing, others, last, rfl, hbefore, hfails⟩ := ih h
      refine ⟨statement :: before, failing, others, last, rfl, ?_, hfails⟩
      rw [execAll_cons, hfirst]
      exact hbefore
    · rw [hfirst] at h
      exact ⟨[], statement, rest, s, rfl, rfl, hfirst.trans h⟩

/-- Behind a statement that fails nothing matters. -/
theorem run_of_exec_error {before : List Stmt} {statement : Stmt}
    (hbefore : s.execAll before = (none, mid)) (h : mid.exec statement = (some e, after))
    (others : List Stmt) : s.run ⟨before ++ statement :: others⟩ = (some e, after) := by
  rw [run_eq_andThen, execAll_append, hbefore]
  change andThen (mid.execAll (statement :: others)) _ = _
  rw [execAll_cons, h]
  rfl

/-- A run fails at a statement behind others that succeed, or at the flush behind all of them, which
touches neither the scope nor the output. -/
theorem run_error_cases {program : Program} (h : s.run program = (some e, after)) :
    (∃ before statement rest mid, program.statements = before ++ statement :: rest ∧
      s.execAll before = (none, mid) ∧ mid.exec statement = (some e, after)) ∨
    ∃ mid reason, s.execAll program.statements = (none, mid) ∧
      e = .of (.outputFailed reason) program.lastSpan ∧
      after.scope = mid.scope ∧ after.sink.held = mid.sink.held := by
  rw [run_eq_andThen] at h
  rcases hall : s.execAll program.statements with ⟨_ | e', mid⟩
  · rw [hall] at h
    obtain ⟨reason, rfl⟩ := flush_error h
    obtain rfl : (mid.flush program.lastSpan).2 = after := congrArg Prod.snd h
    exact .inr ⟨mid, reason, rfl, rfl, rfl, rfl⟩
  · rw [hall] at h
    obtain ⟨rfl, rfl⟩ : e' = e ∧ mid = after := by simpa [andThen] using h
    exact .inl (exists_of_execAll_error hall)

/-! ## Statements that succeed -/

/-- The last declaration of a variable among statements computed a value for it, in the scope behind
the statements in front of that declaration. -/
def Binds (s : Session) (statements : List Stmt) (name : String) (v : Value) : Prop :=
  ∃ before value span rest mid, statements = before ++ .declare name value span :: rest ∧
    s.execAll before = (none, mid) ∧ value.eval mid.scope = .ok v ∧
    ∀ value' span', Stmt.declare name value' span' ∉ rest

/-- A statement that succeeds binds the variable that it declares and no other. -/
theorem get?_exec {statement : Stmt} (h : s.exec statement = (none, after)) (name : String) :
    (∃ value span v, statement = .declare name value span ∧ value.eval s.scope = .ok v ∧
      after.scope.bindings.get? name = some v) ∨
    (∀ value span, statement ≠ .declare name value span) ∧
      after.scope.bindings.get? name = s.scope.bindings.get? name := by
  rw [exec_eq_settle] at h
  cases hdeed : statement.deed s.scope with
  | error found => simp [hdeed, settle] at h
  | ok deed =>
    rw [hdeed] at h
    have hscope := scope_perform s statement.span deed
    rw [show s.perform statement.span deed = (none, after) from h] at hscope
    -- A declaration of the variable that succeeds finds a value to bind it to.
    have hother (hname : ∀ v, deed ≠ .define name v) (value : Expr) (span : Span) :
        statement ≠ .declare name value span := by
      rintro rfl
      cases hv : value.eval s.scope with
      | error e => simp [Stmt.deed, hv, Except.map] at hdeed
      | ok v => exact hname v (by simpa [Stmt.deed, hv, Except.map, eq_comm] using hdeed)
    cases deed with
    | nothing => exact .inr ⟨hother (by simp), congrArg (·.bindings.get? name) hscope⟩
    | print text => exact .inr ⟨hother (by simp), congrArg (·.bindings.get? name) hscope⟩
    | declare function arity =>
      exact .inr ⟨hother (by simp), congrArg (·.bindings.get? name) hscope⟩
    | define bound v =>
      have hget : after.scope.bindings.get? name =
          if name = bound then some v else s.scope.bindings.get? name := by
        rw [show after.scope = _ from hscope]
        exact Bindings.get?_bind s.scope.bindings bound v name
      by_cases hname : name = bound
      · subst hname
        obtain ⟨value, span, rfl, hv⟩ := Stmt.deed_eq_define_iff.1 hdeed
        exact .inl ⟨value, span, v, rfl, hv, by rw [hget, if_pos rfl]⟩
      · refine .inr ⟨hother fun w hw => hname (Deed.define.inj hw).1.symm, ?_⟩
        rw [hget, if_neg hname]

/-- Behind statements that succeed a variable stands for what its last declaration among them
computed, or for what it stood for before if there is none. -/
theorem get?_execAll {statements : List Stmt} (name : String) :
    ∀ {s : Session}, s.execAll statements = (none, after) →
      (∃ v, s.Binds statements name v ∧ after.scope.bindings.get? name = some v) ∨
      (∀ value span, Stmt.declare name value span ∉ statements) ∧
        after.scope.bindings.get? name = s.scope.bindings.get? name := by
  induction statements with
  | nil =>
    intro s h
    obtain rfl : s = after := congrArg Prod.snd h
    exact .inr ⟨by simp, rfl⟩
  | cons statement rest ih =>
    intro s h
    rw [execAll_cons] at h
    rcases hfirst : s.exec statement with ⟨_ | e, mid⟩
    · rw [hfirst] at h
      obtain ⟨v, ⟨before, value, span, others, last, rfl, hbefore, hv, hlast⟩, hget⟩ |
        ⟨hnone, hget⟩ := ih h
      · -- The last declaration is among the others, and stays the last one.
        refine .inl ⟨v, ⟨statement :: before, value, span, others, last, rfl, ?_, hv, hlast⟩, hget⟩
        rw [execAll_cons, hfirst]
        exact hbefore
      · obtain ⟨value, span, v, rfl, hv, hbound⟩ | ⟨hother, hkept⟩ := get?_exec hfirst name
        · exact .inl ⟨v, ⟨[], value, span, rest, s, rfl, rfl, hv, hnone⟩, hget.trans hbound⟩
        · refine .inr ⟨fun value span hmem => ?_, hget.trans hkept⟩
          obtain hhead | htail := List.mem_cons.1 hmem
          · exact hother value span hhead.symm
          · exact hnone value span htail
    · rw [hfirst] at h
      simp [andThen] at h

end CatScript.Session
