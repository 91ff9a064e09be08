import Mathlib.Data.Finset.Card
import CatScript.Proofs.Conversation.Step
import CatScript.Proofs.Evaluation.Pruned

/-!
# What a session remembers

A session that was begun afresh remembers the declarations that were completed in it, and nothing
else.  Its history lists the statements that succeeded, each with the scope in front of it, through
programs, scripts and lines, whether these went on to fail or not.  A variable is bound exactly if
the history has a declaration of it, and stands for what the latest of these computed in the scope
in front of it; the functions are those of the `trick` statements in the history.  `Scope.Remembers`
says this of a scope.  One statement that succeeds keeps it (`Scope.Remembers.exec`), and so does
every step (`Scope.Remembers.advance`).  The top theorem is `Session.remembers_history`.
-/

set_option autoImplicit false

namespace CatScript

/-! ## Histories -/

/-- A statement that succeeded, and the scope in front of it. -/
structure Completion where
  scope : Scope
  statement : Stmt

namespace Completion

/-- What the declaration of a variable computed in the scope in front of it. -/
def value? (c : Completion) : Option Value :=
  match c.statement with
  | .declare _ value _ => (value.eval c.scope).toOption
  | _ => none

end Completion

namespace Session

/-- The statements that succeed among some that are executed in order, up to the first failure. -/
def completed (s : Session) : List Stmt → List Completion
  | [] => []
  | statement :: rest =>
    match s.exec statement with
    | (none, after) => ⟨s.scope, statement⟩ :: after.completed rest
    | (some _, _) => []

/-- The statements that succeed in a step.  A line that is a question has its value computed and
executes nothing. -/
def completedBy (s : Session) : Step → List Completion
  | .program program => s.completed program.statements
  | .script source =>
    match s.read source with
    | (.ok program, mid) => mid.completed program.statements
    | (.error _, _) => []
  | .line text =>
    match s.read text with
    | (.ok program, mid) =>
      match program.echoed? with
      | some _ => []
      | none => mid.completed program.statements
    | (.error _, _) => []
  | .expression _ | .printLine _ _ => []

/-- The statements that succeed in steps, in the order in which they do. -/
def history (s : Session) : List Step → List Completion
  | [] => []
  | step :: rest => s.completedBy step ++ (s.advance step).2.history rest

/-- A statement that succeeds declares a function if it is a `trick` statement, and no other. -/
theorem functions_exec {s after : Session} {statement : Stmt}
    (h : s.exec statement = (none, after)) (name : String) :
    after.scope.functions.contains name ↔
      s.scope.functions.contains name ∨ statement.functionName? = some name := by
  obtain ⟨deed, hdeed, -, hscope, -⟩ := exists_deed_of_exec h
  rw [hscope, Deed.contains_scope, Bool.or_eq_true, or_comm, Stmt.declares_deed hdeed]

/-- A line that is a question leaves the scope as it is, whatever becomes of its answer. -/
theorem scope_submit_of_question (s : Session) {line : String} {program : Program}
    (h : Program.ofText line = .ok program) (hquestion : program.IsQuestion) :
    (s.submit line).2.scope = s.scope := by
  obtain ⟨expression, hecho⟩ := program.isQuestion_iff.1 hquestion
  obtain ⟨mid, hread, hscope, -⟩ := s.exists_read line
  have hprint (v : Value) := scope_printLine mid v.text expression.span
  rw [submit, hread, h, ← hscope]
  simp only [hecho]
  cases expression.eval mid.scope with
  | error e => rfl
  | ok v =>
    rw [← hprint v]
    dsimp only
    rcases mid.printLine v.text expression.span with ⟨_ | e, last⟩ <;> rfl

/-- A line that is a program and no question leaves the scope that the run of the program leaves. -/
theorem scope_submit_of_plain {s mid : Session} {line : String} {program : Program}
    (hread : s.read line = (.ok program, mid)) (hecho : program.echoed? = none) :
    (s.submit line).2.scope = (mid.run program).2.scope := by
  rw [submit, hread]
  simp only [hecho]
  rcases mid.run program with ⟨_ | e, last⟩ <;> rfl

end Session

/-! ## Scopes that remember -/

/-- The names in a scope have their meaning from a history: a variable is bound if it was declared,
it stands for what its latest declaration computed, and a function is declared if it was. -/
structure Scope.Remembers (scope : Scope) (past : List Completion) : Prop where
  bound : ∀ name, scope.bindings.contains name ↔ ∃ c ∈ past, c.statement.variableName? = some name
  latest : ∀ name, scope.bindings.get? name =
    (past.reverse.find? (·.statement.variableName? = some name)).bind Completion.value?
  functions : ∀ name, scope.functions.contains name ↔
    ∃ c ∈ past, c.statement.functionName? = some name

namespace Scope.Remembers

variable {s after : Session} {scope : Scope} {past : List Completion}

/-- The empty scope remembers that nothing was declared. -/
theorem empty : Scope.empty.Remembers [] where
  bound name := by simp [Scope.empty, Bindings.contains, Bindings.empty, Bindings.get?]
  latest name := rfl
  functions name := by simp [Scope.empty, Bindings.contains, Bindings.empty, Bindings.get?]

/-- The bound variables are as many as the names that were declared. -/
theorem size (h : scope.Remembers past) :
    scope.bindings.size = (past.filterMap (·.statement.variableName?)).toFinset.card := by
  have hnames : (past.filterMap (·.statement.variableName?)).toFinset =
      (scope.bindings.entries.map Prod.fst).toFinset := by
    ext name
    rw [List.mem_toFinset, List.mem_toFinset, List.mem_filterMap, ← h.bound,
      Bindings.contains, Bindings.isSome_get?_iff]
  rw [hnames, List.toFinset_card_of_nodup scope.bindings.nodup, List.length_map]
  rfl

/-- A statement that succeeds is added to what is remembered. -/
theorem exec {statement : Stmt} (hs : s.scope.Remembers past)
    (h : s.exec statement = (none, after)) :
    after.scope.Remembers (past ++ [⟨s.scope, statement⟩]) where
  bound name := by
    obtain ⟨value, span, v, rfl, -, hget⟩ | ⟨hother, hget⟩ := Session.get?_exec h name
    · simp [Bindings.contains, hget, Stmt.variableName?]
    · have hname := Stmt.variableName?_ne_some_iff.2 hother
      have hbound := hs.bound name
      rw [Bindings.contains] at hbound ⊢
      rw [hget, hbound]
      simp [hname]
  latest name := by
    obtain ⟨value, span, v, rfl, hv, hget⟩ | ⟨hother, hget⟩ := Session.get?_exec h name
    · simp [hget, Stmt.variableName?, Completion.value?, hv, Except.toOption]
    · have hname := Stmt.variableName?_ne_some_iff.2 hother
      rw [hget, hs.latest name]
      simp [hname]
  functions name := by
    rw [Session.functions_exec h name, hs.functions name]
    simp

/-- What succeeds among statements is added to what is remembered. -/
theorem execAll (statements : List Stmt) : ∀ {s : Session} {past : List Completion},
    s.scope.Remembers past →
      (s.execAll statements).2.scope.Remembers (past ++ s.completed statements) := by
  induction statements with
  | nil =>
    intro s past hs
    rw [Session.completed, List.append_nil]
    exact hs
  | cons statement rest ih =>
    intro s past hs
    rw [Session.execAll_cons, Session.completed]
    rcases hfirst : s.exec statement with ⟨_ | e, mid⟩
    · rw [List.append_cons]
      exact ih (hs.exec hfirst)
    · rw [List.append_nil]
      change mid.scope.Remembers past
      rw [(Session.leavesIntact_of_exec hfirst).scope]
      exact hs

/-- What succeeds in a run is added to what is remembered. -/
theorem run (hs : s.scope.Remembers past) (program : Program) :
    (s.run program).2.scope.Remembers (past ++ s.completed program.statements) := by
  rw [Session.scope_run]
  exact hs.execAll program.statements

/-- What succeeds in a step is added to what is remembered. -/
theorem advance (hs : s.scope.Remembers past) (step : Session.Step) :
    (s.advance step).2.scope.Remembers (past ++ s.completedBy step) := by
  cases step with
  | program program => exact hs.run program
  | script source =>
    obtain ⟨hscope, -, -⟩ := Session.read_keeps s source
    rw [Session.advance, Session.runText, Session.completedBy]
    rcases hread : s.read source with ⟨e | program, mid⟩
    · rw [hread] at hscope
      rw [List.append_nil]
      exact hscope ▸ hs
    · rw [hread] at hscope
      exact Scope.Remembers.run (hscope ▸ hs) program
  | expression expression =>
    rw [Session.completedBy, List.append_nil, Session.advance]
    cases expression.eval s.scope <;> exact hs
  | line text =>
    obtain ⟨mid, hread, hscope, -⟩ := s.exists_read text
    rw [Session.advance_line, Session.completedBy, hread]
    cases hprogram : Program.ofText text with
    | error e =>
      obtain ⟨-, -, -, -, hkept, -⟩ := s.unread_keeps hprogram
      rw [List.append_nil, hkept]
      exact hs
    | ok program =>
      cases hecho : program.echoed? with
      | some question =>
        have hquestion : program.IsQuestion := program.isQuestion_iff.2 ⟨question, hecho⟩
        simp only [hecho, List.append_nil]
        rw [s.scope_submit_of_question hprogram hquestion]
        exact hs
      | none =>
        rw [hprogram] at hread
        simp only [hecho]
        rw [Session.scope_submit_of_plain hread hecho]
        exact Scope.Remembers.run (hscope ▸ hs) program
  | printLine text span =>
    rw [Session.completedBy, List.append_nil, Session.advance, Session.scope_printLine]
    exact hs

/-- What succeeds in steps is added to what is remembered. -/
theorem advanceAll (steps : List Session.Step) : ∀ {s : Session} {past : List Completion},
    s.scope.Remembers past → (s.advanceAll steps).scope.Remembers (past ++ s.history steps) := by
  induction steps with
  | nil =>
    intro s past hs
    rw [Session.history, List.append_nil]
    exact hs
  | cons step rest ih =>
    intro s past hs
    rw [Session.history, ← List.append_assoc]
    exact ih (hs.advance step)

end Scope.Remembers

namespace Session

/-- In a session that was begun afresh the names have their meaning from its history. -/
theorem remembers_of_start (sink : Sink) (steps : List Step) :
    ((start sink).advanceAll steps).scope.Remembers ((start sink).history steps) := by
  have hstart : (start sink).scope.Remembers [] := .empty
  simpa using hstart.advanceAll steps

/-! ## Statements that declare nothing -/

/-- Only the declaration of a variable changes the variables. -/
theorem bindings_exec (s : Session) {statement : Stmt}
    (h : ∀ name value span, statement ≠ .declare name value span) :
    (s.exec statement).2.scope.bindings = s.scope.bindings := by
  rcases hexec : s.exec statement with ⟨_ | e, after⟩
  · obtain ⟨deed, hdeed, -, hscope, -⟩ := exists_deed_of_exec hexec
    change after.scope.bindings = _
    rw [hscope]
    cases deed with
    | nothing => rfl
    | print text => rfl
    | define name v =>
      obtain ⟨value, span, hdeclare, -⟩ := Stmt.deed_eq_define_iff.1 hdeed
      exact absurd hdeclare (h name value span)
    | declare name arity => rfl
  · exact congrArg Scope.bindings (leavesIntact_of_exec hexec).scope

/-- The declaration of a variable leaves the functions as they are. -/
theorem functions_exec_declare (s : Session) (name : String) (value : Expr) (span : Span) :
    (s.exec (.declare name value span)).2.scope.functions = s.scope.functions := by
  rw [exec]
  cases value.eval s.scope <;> rfl

/-- What names mean after any steps of a session that was begun afresh, whether the steps fail or
not and whatever the sink does.  A variable is bound exactly if a declaration of it was completed,
and stands for what the latest of these computed in the scope in front of it; as many variables are
bound as there are names that were declared.  None of them is ever lost, so that their number never
falls.  In any session, a statement that declares no variable changes no variable, and neither does
an expression, a line that is printed, or a line that is a question; the session behind a line is
the one that its submission leaves.  Variables and functions are kept apart: the functions are those
that a `trick` statement declared, a declaration of a variable has no effect on what becomes of a
call, and a declaration of a function none on what a variable stands for. -/
theorem remembers_history (sink : Sink) (steps : List Step) :
    let s := (start sink).advanceAll steps
    let past := (start sink).history steps
    s.scope.Remembers past ∧
      s.scope.bindings.size = (past.filterMap (·.statement.variableName?)).toFinset.card ∧
      (∀ more name, s.scope.bindings.contains name →
        (s.advanceAll more).scope.bindings.contains name) ∧
      (∀ more, s.scope.bindings.size ≤ (s.advanceAll more).scope.bindings.size) ∧
      ∀ t : Session,
        (∀ statement, (∀ name value span, statement ≠ .declare name value span) →
          (t.exec statement).2.scope.bindings = t.scope.bindings) ∧
        (∀ expression, (t.advance (.expression expression)).2 = t) ∧
        (∀ text span, (t.advance (.printLine text span)).2.scope = t.scope) ∧
        (∀ line, (t.advance (.line line)).2 = (t.submit line).2) ∧
        (∀ line program, Program.ofText line = .ok program → program.IsQuestion →
          (t.submit line).2.scope = t.scope) ∧
        (∀ name value span function,
          (t.exec (.declare name value span)).2.scope.callCause function =
            t.scope.callCause function) ∧
        ∀ name parameters body span other place,
          (t.exec (.trick name parameters body span)).2.scope.lookup other place =
            t.scope.lookup other place := by
  intro s past
  have hs : s.scope.Remembers past := remembers_of_start sink steps
  -- What comes later only adds to the history.
  have hlater (more : List Step) :
      (s.advanceAll more).scope.Remembers (past ++ s.history more) := hs.advanceAll more
  refine ⟨hs, hs.size, fun more name hbound => ?_, fun more => ?_,
    fun t => ⟨?_, ?_, ?_, ?_, ?_, ?_, ?_⟩⟩
  · obtain ⟨c, hc, hname⟩ := (hs.bound name).1 hbound
    exact ((hlater more).bound name).2 ⟨c, List.mem_append_left _ hc, hname⟩
  · rw [hs.size, (hlater more).size, List.filterMap_append, List.toFinset_append]
    exact Finset.card_le_card Finset.subset_union_left
  · exact fun statement => t.bindings_exec
  · intro expression
    rw [advance]
    cases expression.eval t.scope <;> rfl
  · exact fun text span => scope_printLine t text span
  · exact t.advance_line
  · exact fun line program => t.scope_submit_of_question
  · intro name value span function
    rw [Scope.callCause, Scope.callCause, functions_exec_declare]
  · intro name parameters body span other place
    rw [Scope.lookup, Scope.lookup, t.bindings_exec (by simp)]

/-- Steps in which a variable is declared in terms of itself, and a program fails in front of the
declaration of another one; then a function of the same name is declared. -/
def rebinding : List Step :=
  [.script "meow x = 1\nmeow x = x + x\npurr(ghost)\nmeow y = x", .line "trick x(y) \x7b\x7d"]

/-- The session behind these steps. -/
def rebound : Session := (start Sink.working).advanceAll rebinding

/-- The variable stands for what its second declaration computed, and is still bound behind a line
that asks for it; the other variable is not bound, and neither is the parameter. -/
theorem remembers_history_rebinding :
    rebound.scope.bindings.get? "x" = some (.integer 2) ∧
      ((start Sink.working).history rebinding).length = 3 ∧
      rebound.scope.bindings.size = 1 ∧ rebound.scope.bindings.contains "y" = false ∧
      rebound.scope.functions.contains "x" ∧
      (rebound.advanceAll [.line "x"]).scope.bindings.contains "x" := by
  have hbound : rebound.scope.bindings.contains "x" := by cbv
  obtain ⟨-, -, hkept, -⟩ := remembers_history Sink.working rebinding
  exact ⟨by cbv, by cbv, by cbv, by cbv, by cbv, hkept [.line "x"] "x" hbound⟩

end Session

end CatScript
