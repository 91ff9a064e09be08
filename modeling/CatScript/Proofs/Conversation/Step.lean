import CatScript.Proofs.Conversation.Echo
import CatScript.Proofs.Evaluation.Prefix

/-!
# A session step by step

Whoever holds a session can run a program or a script in it, ask for the value of an expression,
submit a line, or print a line of his own, in any order and however often one of these fails.  A
step that fails leaves the variables and the functions behind those of its statements that had
succeeded, and nothing else: no variable is lost, and none stands for anything but what it stood for
before or what a declaration that was completed computed.  The top theorem is
`Session.failure_leaves_prefix`.
-/

set_option autoImplicit false

namespace CatScript.Session

variable {s after : Session} {e : Error}

/-! ## Lines before their report -/

/-- What a line comes to before its error is reported: its answer, if it is asked for one, or the
error. -/
def attempt (s : Session) (line : String) : Except Error (Option String) × Session :=
  match s.read line with
  | (.error e, s) => (.error e, s)
  | (.ok program, s) =>
    match program.echoed? with
    | some expression =>
      match expression.eval s.scope with
      | .error e => (.error e, s)
      | .ok v =>
        match s.printLine v.text expression.span with
        | (none, s) => (.ok (some v.text), s)
        | (some e, s) => (.error e, s)
    | none =>
      match s.run program with
      | (none, s) => (.ok none, s)
      | (some e, s) => (.error e, s)

/-- A line answers what it comes to, or reports its error. -/
theorem submit_eq_attempt (s : Session) (line : String) :
    s.submit line =
      match s.attempt line with
      | (.ok answer, after) => (answer, after)
      | (.error e, after) => (none, after.report e line none) := by
  unfold submit attempt
  rcases s.read line with ⟨e | program, mid⟩
  · rfl
  · dsimp only
    cases program.echoed? with
    | some expression =>
      dsimp only
      cases expression.eval mid.scope with
      | error e => rfl
      | ok v =>
        dsimp only
        rcases mid.printLine v.text expression.span with ⟨_ | e, last⟩ <;> rfl
    | none =>
      dsimp only
      rcases mid.run program with ⟨_ | e, last⟩ <;> rfl

/-! ## Steps -/

/-- What can be done with a session. -/
inductive Step
  | program (program : Program)
  | script (source : String)
  | expression (expression : Expr)
  | line (text : String)
  | printLine (text : String) (span : Span)

/-- The statements that a step sets out to execute. -/
def Step.statements : Step → List Stmt
  | .program p => p.statements
  | .script text | .line text =>
    match Program.ofText text with
    | .ok p => p.statements
    | .error _ => []
  | .expression _ | .printLine _ _ => []

/-- Takes a step.  The error of a line is the one that the line reports. -/
def advance (s : Session) : Step → Option Error × Session
  | .program program => s.run program
  | .script source => s.runText source
  | .expression expression =>
    match expression.eval s.scope with
    | .error e => (some e, s)
    | .ok _ => (none, s)
  | .line text =>
    match s.attempt text with
    | (.error e, after) => (some e, after.report e text none)
    | (.ok _, after) => (none, after)
  | .printLine text span => s.printLine text span

/-- The session behind steps, whether they fail or not. -/
def advanceAll (s : Session) (steps : List Step) : Session :=
  steps.foldl (fun s step => (s.advance step).2) s

/-- A step that is a line leaves the session that the line leaves. -/
theorem advance_line (s : Session) (text : String) :
    (s.advance (.line text)).2 = (s.submit text).2 := by
  rw [advance, submit_eq_attempt]
  rcases s.attempt text with ⟨e | answer, after⟩ <;> rfl

/-! ## Steps that fail -/

/-- Reading a text comes to the program that it is, or to its error, and adds to the journal
only. -/
theorem exists_read (s : Session) (source : String) : ∃ mid,
    s.read source = (Program.ofText source, mid) ∧ mid.scope = s.scope ∧ mid.sink = s.sink := by
  obtain ⟨hscope, hsink, -⟩ := read_keeps s source
  exact ⟨_, Prod.ext (read_fst s source) rfl, hscope, hsink⟩

/-- A text that is no program leaves the variables, the functions and the sink as they are, whether
it is run as a script or submitted as a line. -/
theorem unread_keeps (s : Session) {source : String} (h : Program.ofText source = .error e) :
    (s.runText source).1 = some e ∧ (s.runText source).2.scope = s.scope ∧
      (s.runText source).2.sink = s.sink ∧
      (s.submit source).1 = none ∧ (s.submit source).2.scope = s.scope ∧
      (s.submit source).2.sink = s.sink := by
  obtain ⟨mid, hread, hscope, hsink⟩ := s.exists_read source
  rw [h] at hread
  unfold runText submit
  rw [hread]
  exact ⟨rfl, hscope, hsink, rfl, hscope, hsink⟩

/-- Printing leaves the scope as it is, whether it fails or not. -/
theorem scope_printLine (s : Session) (text : String) (span : Span) :
    (s.printLine text span).2.scope = s.scope := by
  have hprint : (s.print text span).2.scope = s.scope := rfl
  unfold printLine
  rcases hp : s.print text span with ⟨_ | e, mid⟩
  · rw [hp] at hprint
    exact hprint
  · rw [hp] at hprint
    exact hprint

/-- Some of the statements, from the first one on, have succeeded in a session like this one, and
have left the given scope. -/
def Succeeded (s : Session) (statements : List Stmt) (left : Scope) : Prop :=
  ∃ (done : List Stmt) (first last : Session), done <+: statements ∧
    first.scope = s.scope ∧ first.sink = s.sink ∧
    first.execAll done = (Option.none, last) ∧ left = last.scope

/-- Where nothing was executed the scope is the one that was there. -/
theorem Succeeded.none {statements : List Stmt} {left : Scope} (h : left = s.scope) :
    s.Succeeded statements left :=
  ⟨[], s, s, List.nil_prefix, rfl, rfl, rfl, h⟩

/-- A run that fails leaves the scope behind those of its statements that succeeded. -/
theorem succeeded_of_run {start : Session} (hscope : start.scope = s.scope)
    (hsink : start.sink = s.sink) {program : Program} (h : start.run program = (some e, after)) :
    s.Succeeded program.statements after.scope := by
  obtain ⟨before, statement, rest, mid, hstatements, hbefore, hfails⟩ |
    ⟨mid, reason, hall, -, hkept, -⟩ := run_error_cases h
  · refine ⟨before, start, mid, ?_, hscope, hsink, hbefore, (leavesIntact_of_exec hfails).scope⟩
    rw [hstatements]
    exact List.prefix_append before _
  · exact ⟨program.statements, start, mid, List.prefix_rfl, hscope, hsink, hall, hkept⟩

/-- A line that fails leaves the scope behind those of its statements that succeeded. -/
theorem succeeded_of_attempt {line : String} (h : s.attempt line = (.error e, after)) :
    s.Succeeded (Step.line line).statements after.scope := by
  obtain ⟨mid, hread, hscope, hsink⟩ := s.exists_read line
  unfold attempt at h
  rw [hread] at h
  cases htext : Program.ofText line with
  | error failure =>
    simp only [htext, Prod.mk.injEq] at h
    exact .none (h.2 ▸ hscope)
  | ok program =>
    have hstatements : (Step.line line).statements = program.statements := by
      rw [Step.statements, htext]
    simp only [htext] at h
    cases hecho : program.echoed? with
    | some expression =>
      simp only [hecho] at h
      cases heval : expression.eval mid.scope with
      | error failure =>
        simp only [heval, Prod.mk.injEq] at h
        exact .none (h.2 ▸ hscope)
      | ok v =>
        have hprint := scope_printLine mid v.text expression.span
        rcases hp : mid.printLine v.text expression.span with ⟨_ | failure, last⟩
        · simp [heval, hp] at h
        · rw [hp] at hprint
          simp only [heval, hp, Prod.mk.injEq] at h
          exact .none (h.2 ▸ hprint.trans hscope)
    | none =>
      rcases hrun : mid.run program with ⟨_ | failure, last⟩
      · simp [hecho, hrun] at h
      · simp only [hecho, hrun, Prod.mk.injEq] at h
        rw [hstatements, ← h.2]
        exact succeeded_of_run hscope hsink hrun

/-- A step that fails leaves the scope behind those of its statements that succeeded. -/
theorem succeeded_of_advance {step : Step} (h : s.advance step = (some e, after)) :
    s.Succeeded step.statements after.scope := by
  cases step with
  | program program => exact succeeded_of_run rfl rfl h
  | script source =>
    obtain ⟨mid, hread, hscope, hsink⟩ := s.exists_read source
    rw [advance, runText, hread] at h
    cases htext : Program.ofText source with
    | error failure =>
      simp only [htext, Prod.mk.injEq] at h
      exact .none (h.2 ▸ hscope)
    | ok program =>
      rw [Step.statements, htext]
      rw [htext] at h
      exact succeeded_of_run hscope hsink h
  | expression expression =>
    rw [advance] at h
    cases heval : expression.eval s.scope with
    | error failure =>
      simp only [heval, Prod.mk.injEq] at h
      exact .none (congrArg scope h.2.symm)
    | ok v => simp [heval] at h
  | line text =>
    rw [advance] at h
    rcases hattempt : s.attempt text with ⟨failure | answer, last⟩
    · simp only [hattempt, Prod.mk.injEq] at h
      have hscope : last.scope = after.scope := by
        rw [← h.2]
        rfl
      rw [← hscope]
      exact succeeded_of_attempt hattempt
    · simp [hattempt] at h
  | printLine text span =>
    refine .none ?_
    rw [← scope_printLine s text span]
    exact congrArg (fun x => x.2.scope) h.symm

/-- Behind statements that succeeded a variable stands for what it stood for before, or for what
the last declaration of it among them computed; so none of them is lost. -/
theorem Succeeded.bindings {statements : List Stmt} {left : Scope}
    (h : s.Succeeded statements left) (name : String) :
    (left.bindings.get? name = s.scope.bindings.get? name ∨
      ∃ (done : List Stmt) (first : Session) (v : Value), done <+: statements ∧
        first.scope = s.scope ∧ first.Binds done name v ∧ left.bindings.get? name = some v) ∧
    (s.scope.bindings.contains name → left.bindings.contains name) := by
  obtain ⟨done, first, last, hdone, hscope, -, hexec, rfl⟩ := h
  obtain ⟨v, hbinds, hget⟩ | ⟨-, hget⟩ := get?_execAll name hexec
  · refine ⟨.inr ⟨done, first, v, hdone, hscope, hbinds, hget⟩, fun _ => ?_⟩
    simp [Bindings.contains, hget]
  · rw [hscope] at hget
    refine ⟨.inl hget, fun hbound => ?_⟩
    rwa [Bindings.contains, hget]

/-- What failures leave.  A program that fails does so at a statement behind others that succeed,
and leaves what these leave, but for the first part of a line that the sink did not take as a whole;
whatever stands behind that statement has no effect.  Or it fails at the flush behind all of its
statements, and leaves what they leave.  A text that is no program leaves everything as it is, as a
script and as a line.  In a session of any steps, where a line leaves what its submission leaves, a
step that fails leaves the variables and the functions behind those of its statements that had
succeeded, so that no variable is lost, and every variable stands for what it stood for before the
step or for what a declaration that was completed in it computed. -/
theorem failure_leaves_prefix (s : Session) :
    (∀ program e after, s.run program = (some e, after) →
      (∃ before statement rest mid, program.statements = before ++ statement :: rest ∧
        s.execAll before = (none, mid) ∧ mid.exec statement = (some e, after) ∧
        mid.LeavesIntact statement e after ∧
        ∀ others, s.run ⟨before ++ statement :: others⟩ = (some e, after)) ∨
      ∃ mid reason, s.execAll program.statements = (none, mid) ∧
        e = .of (.outputFailed reason) program.lastSpan ∧
        after.scope = mid.scope ∧ after.sink.held = mid.sink.held) ∧
    (∀ source e, Program.ofText source = .error e →
      (s.runText source).1 = some e ∧ (s.runText source).2.scope = s.scope ∧
        (s.runText source).2.sink = s.sink ∧
        (s.submit source).1 = none ∧ (s.submit source).2.scope = s.scope ∧
        (s.submit source).2.sink = s.sink) ∧
    (∀ text, (s.advance (.line text)).2 = (s.submit text).2) ∧
    ∀ steps step e after, (s.advanceAll steps).advance step = (some e, after) →
      (s.advanceAll steps).Succeeded step.statements after.scope ∧
      ∀ name,
        (after.scope.bindings.get? name = (s.advanceAll steps).scope.bindings.get? name ∨
          ∃ (done : List Stmt) (first : Session) (v : Value), done <+: step.statements ∧
            first.scope = (s.advanceAll steps).scope ∧ first.Binds done name v ∧
            after.scope.bindings.get? name = some v) ∧
        ((s.advanceAll steps).scope.bindings.contains name →
          after.scope.bindings.contains name) := by
  refine ⟨fun program e after h => ?_, fun source e h => s.unread_keeps h, s.advance_line,
    fun steps step e after h => ?_⟩
  · refine (run_error_cases h).imp_left ?_
    rintro ⟨before, statement, rest, mid, hstatements, hbefore, hfails⟩
    exact ⟨before, statement, rest, mid, hstatements, hbefore, hfails,
      leavesIntact_of_exec hfails, run_of_exec_error hbefore hfails⟩
  · have hsucceeded := succeeded_of_advance h
    exact ⟨hsucceeded, hsucceeded.bindings⟩

/-- A session with room for four bytes of output. -/
def tight : Session := start (Sink.ofPolicy (.buffer (some 4) true))

/-- A program that binds a variable, prints more than there is room for, and binds the variable
again. -/
def spilling : Program :=
  ⟨[.declare "x" (.integer 1 ⟨9, 10, 1, 10⟩) ⟨0, 10, 1, 1⟩,
    .print (.string "catnip" ⟨16, 24, 2, 6⟩) ⟨11, 25, 2, 1⟩,
    .declare "x" (.integer 2 ⟨35, 36, 3, 10⟩) ⟨26, 36, 3, 1⟩]⟩

/-- The program stops in the middle of its line, with the variable at its first value; a text that
is no program changes nothing; and a line that fails afterwards loses nothing. -/
theorem failure_leaves_prefix_tight :
    (tight.run spilling).1 = some (.of (.outputFailed "sink full") ⟨11, 25, 2, 1⟩) ∧
      (tight.run spilling).2.scope.bindings.get? "x" = some (.integer 1) ∧
      (tight.run spilling).2.sink.held = "catn".toUTF8 ∧
      (∃ before statement rest mid, spilling.statements = before ++ statement :: rest ∧
        tight.execAll before = (none, mid) ∧ (tight.run spilling).2.scope = mid.scope) ∧
      (tight.runText "meow x").2.scope = tight.scope ∧
      ((tight.advanceAll [.program spilling]).advance (.line "x")).2.scope.bindings.contains
        "x" := by
  have herror : (tight.run spilling).1 =
      some (.of (.outputFailed "sink full") ⟨11, 25, 2, 1⟩) := by cbv
  have hunread : Program.ofText "meow x" = .error ⟨.unexpectedToken (.token .equal) .endOfInput,
      ⟨6, 7, 1, 7⟩, some "A declaration needs '=' followed by a value: meow name = value"⟩ := by cbv
  have hline : ((tight.advanceAll [.program spilling]).advance (.line "x")).1 =
      some (.of (.outputFailed "sink full") ⟨0, 1, 1, 1⟩) := by cbv
  have hbound : (tight.advanceAll [.program spilling]).scope.bindings.contains "x" := by cbv
  obtain ⟨hprogram, htext, -, hstep⟩ := failure_leaves_prefix tight
  refine ⟨herror, by cbv, by cbv, ?_, (htext _ _ hunread).2.1, ?_⟩
  · obtain ⟨before, statement, rest, mid, hstatements, hbefore, -, hintact, -⟩ |
      ⟨mid, reason, hall, -⟩ := hprogram spilling _ _ (Prod.ext herror rfl)
    · exact ⟨before, statement, rest, mid, hstatements, hbefore, hintact.scope⟩
    · have hfails : (tight.execAll spilling.statements).1 =
          some (.of (.outputFailed "sink full") ⟨11, 25, 2, 1⟩) := by cbv
      rw [hall] at hfails
      exact absurd hfails (by simp)
  · exact ((hstep [.program spilling] _ _ _ (Prod.ext hline rfl)).2 "x").2 hbound

end CatScript.Session
