import CatScript.Interface.Repl
import CatScript.Proofs.Evaluation.Scan
import CatScript.Proofs.Evaluation.Steps

/-!
# A line of a conversation is a script

A line of a conversation is run as a script is, but for a line that is nothing else than an
expression or a variable: there the value is computed apart and printed.  On a sink that never
fails the two agree.  They leave the same variables and functions, the line is reported exactly if
the script fails, and with its error, and the output is that of the script, with the value behind it
where one was asked for.  The top theorem is `Session.submit_agrees`.
-/

set_option autoImplicit false

namespace CatScript

/-- The program is exactly one expression, or exactly one access to a variable. -/
def Program.IsQuestion (program : Program) : Prop :=
  (∃ e span, program.statements = [.expression e span]) ∨
    ∃ name span, program.statements = [.access name span]

/-- The program is exactly one expression or one access to a variable, and this is its value. -/
def Program.AsksFor (program : Program) (scope : Scope) (v : Value) : Prop :=
  (∃ e span, program.statements = [.expression e span] ∧ e.eval scope = .ok v) ∨
    ∃ name span, program.statements = [.access name span] ∧ scope.bindings.get? name = some v

/-- The reports of errors in a session, in order. -/
def Session.diagnostics (s : Session) : List Diagnostic :=
  s.journal.toList.filterMap fun
    | .diagnostic d => some d
    | _ => none

/-- The errors that were reported in a session, in order. -/
def Session.reported (s : Session) : List Error := s.diagnostics.map (·.error)

/-! ## Reports -/

namespace Session

variable {s : Session} {span : Span}

/-- A record is no report. -/
@[simp] theorem diagnostics_record (s : Session) (level : Level) (topic : Topic)
    (message : String) : (s.record level topic message).diagnostics = s.diagnostics := by
  simp [diagnostics, record, note]

/-- A report is added behind those that are there. -/
@[simp] theorem diagnostics_report (s : Session) (e : Error) (source : String)
    (file : Option String) :
    (s.report e source file).diagnostics = s.diagnostics ++ [e.diagnose source file] := by
  simp [diagnostics, report, note]

/-- No statement reports anything, whether it fails or not. -/
theorem diagnostics_exec (s : Session) (statement : Stmt) :
    (s.exec statement).2.diagnostics = s.diagnostics := by
  cases statement with
  | print argument span =>
    cases h : argument.eval s.scope with
    | error e => simp only [exec, h]
    | ok v =>
      simp only [exec, h]
      exact diagnostics_record s _ _ _
  | declare name value span =>
    cases h : value.eval s.scope with
    | error e => simp only [exec, h]
    | ok v =>
      simp only [exec, h]
      exact diagnostics_record s _ _ _
  | access name span =>
    cases h : s.scope.lookup name span with
    | error e => simp only [exec, h]
    | ok v => simp only [exec, h]
  | trick name parameters body span => exact diagnostics_record s _ _ _
  | expression value span =>
    cases h : value.eval s.scope with
    | error e => simp only [exec, h]
    | ok v => simp only [exec, h]

/-- No run reports anything. -/
theorem diagnostics_run (s : Session) (program : Program) :
    (s.run program).2.diagnostics = s.diagnostics :=
  run_keeps diagnostics_exec (fun _ _ => rfl) program s

/-! ## Reading a line -/

/-- Reading a script leaves the variables, the functions, the sink and the reports as they are. -/
theorem read_keeps (s : Session) (source : String) :
    (s.read source).2.scope = s.scope ∧ (s.read source).2.sink = s.sink ∧
      (s.read source).2.diagnostics = s.diagnostics := by
  unfold read
  cases Token.ofText source with
  | error e => exact ⟨rfl, rfl, rfl⟩
  | ok tokens =>
    dsimp only
    cases Program.ofTokens tokens with
    | error e => exact ⟨rfl, rfl, diagnostics_record s _ _ _⟩
    | ok program =>
      exact ⟨rfl, rfl, (diagnostics_record _ _ _ _).trans (diagnostics_record s _ _ _)⟩

/-- What is read is the program of the script. -/
theorem read_fst (s : Session) (source : String) : (s.read source).1 = Program.ofText source := by
  unfold read Program.ofText
  cases Token.ofText source with
  | error e => rfl
  | ok tokens =>
    simp only [bind, Except.bind]
    cases Program.ofTokens tokens <;> rfl

/-- No script reports anything by itself. -/
theorem diagnostics_runText (s : Session) (source : String) :
    (s.runText source).2.diagnostics = s.diagnostics := by
  obtain ⟨-, -, hread⟩ := read_keeps s source
  unfold runText
  rcases hresult : s.read source with ⟨outcome, mid⟩
  rw [hresult] at hread
  cases outcome with
  | error e => exact hread
  | ok program => exact (diagnostics_run mid program).trans hread

/-! ## Printing on a sink that never fails -/

/-- A line that is printed on a sink that never fails is in the output, and nothing else changes but
the counts of the sink. -/
theorem printLine_of_neverFails (h : s.sink.NeverFails) (text : String) (span : Span) :
    ∃ after, s.printLine text span = (none, after) ∧ after.scope = s.scope ∧
      after.journal = s.journal ∧ after.sink.held = s.sink.held ++ (text ++ "\n").toUTF8 := by
  let held := s.sink.held ++ (text ++ "\n").toUTF8
  refine ⟨{ s with sink := ⟨s.sink.policy, s.sink.writes + 1, s.sink.flushes + 1, held⟩ }, ?_,
    rfl, rfl, rfl⟩
  simp only [printLine, print, Sink.write, h.1, Option.map_none, flush, Sink.flush, h.2 _ _ _, held]

end Session

/-! ## Questions -/

/-- The expression whose value is printed is the only statement, or the variable that is the only
one. -/
theorem Program.echoed?_eq_some_iff (program : Program) (expression : Expr) :
    program.echoed? = some expression ↔
      (∃ span, program.statements = [.expression expression span]) ∨
        ∃ name span, program.statements = [.access name span] ∧
          expression = .identifier name span := by
  unfold echoed?
  split
  next e span h => simp [h]
  next name span h => simp [h, eq_comm]
  next hexpression haccess =>
    constructor
    · simp
    · rintro (⟨span, h⟩ | ⟨name, span, h, -⟩)
      · exact absurd h (hexpression _ _)
      · exact absurd h (haccess _ _)

/-- A question is a program that has a value to be printed. -/
theorem Program.isQuestion_iff (program : Program) :
    program.IsQuestion ↔ ∃ expression, program.echoed? = some expression := by
  simp only [echoed?_eq_some_iff]
  constructor
  · rintro (⟨e, span, h⟩ | ⟨name, span, h⟩)
    · exact ⟨e, .inl ⟨span, h⟩⟩
    · exact ⟨_, .inr ⟨name, span, h, rfl⟩⟩
  · rintro ⟨e, ⟨span, h⟩ | ⟨name, span, h, -⟩⟩
    · exact .inl ⟨e, span, h⟩
    · exact .inr ⟨name, span, h⟩

/-- The value of the expression that a question is about is the one that it asks for. -/
theorem Program.asksFor_of_eval {program : Program} {expression : Expr} {scope : Scope} {v : Value}
    (hecho : program.echoed? = some expression) (h : expression.eval scope = .ok v) :
    program.AsksFor scope v := by
  obtain ⟨span, hstatements⟩ | ⟨name, span, hstatements, rfl⟩ :=
    (program.echoed?_eq_some_iff expression).1 hecho
  · exact .inl ⟨expression, span, hstatements, h⟩
  · refine .inr ⟨name, span, hstatements, ?_⟩
    rw [Expr.eval, Scope.lookup] at h
    cases hget : scope.bindings.get? name with
    | none => simp [hget] at h
    | some w => simpa [hget] using h

namespace Session

variable {s : Session}

/-- The run of a question evaluates its expression and has nothing to print. -/
theorem run_of_echoed {program : Program} {expression : Expr}
    (h : program.echoed? = some expression) (s : Session) :
    s.run program =
      match expression.eval s.scope with
      | .error e => (some e, s)
      | .ok _ => s.flush program.lastSpan := by
  have hexec : s.execAll program.statements =
      match expression.eval s.scope with
      | .error e => (some e, s)
      | .ok _ => (none, s) := by
    obtain ⟨span, hstatements⟩ | ⟨name, span, hstatements, rfl⟩ :=
      (program.echoed?_eq_some_iff expression).1 h
    · rw [hstatements, execAll, exec]
      cases expression.eval s.scope <;> rfl
    · rw [hstatements, execAll, exec, Expr.eval]
      cases s.scope.lookup name span <;> rfl
  rw [run, hexec]
  cases expression.eval s.scope <;> rfl

/-! ## Lines -/

/-- A line that is no program, or a program that is no question, is run and its error reported. -/
theorem submit_of_not_echoed (s : Session) {line : String}
    (h : ∀ program, Program.ofText line = .ok program → program.echoed? = none) :
    s.submit line =
      match s.runText line with
      | (none, after) => (none, after)
      | (some e, after) => (none, after.report e line none) := by
  have hfst := read_fst s line
  unfold submit runText
  rcases hread : s.read line with ⟨outcome, mid⟩
  rw [hread] at hfst
  cases outcome with
  | error e => rfl
  | ok program =>
    have hecho := h program hfst.symm
    rcases hrun : mid.run program with ⟨_ | e, after⟩
    · simp only [hecho, hrun]
    · simp only [hecho, hrun]

/-- A script that succeeds is a program. -/
theorem exists_program_of_runText {source : String} {after : Session}
    (h : s.runText source = (none, after)) : ∃ program, Program.ofText source = .ok program := by
  have hfst := read_fst s source
  unfold runText at h
  rcases hread : s.read source with ⟨outcome, mid⟩
  rw [hread] at h hfst
  cases outcome with
  | error e => simp at h
  | ok program => exact ⟨program, hfst.symm⟩

/-- What comes of a line: the report of the error of the script, nothing but what the script does,
or the value that the script asks for. -/
inductive Outcome (s : Session) (line : String) : Prop
  | failed (e : Error) (after : Session) (run : s.runText line = (some e, after))
      (submit : s.submit line = (none, after.report e line none))
  | ran (program : Program) (after : Session) (reads : Program.ofText line = .ok program)
      (plain : ¬ program.IsQuestion) (run : s.runText line = (none, after))
      (submit : s.submit line = (none, after))
  | answered (program : Program) (v : Value) (after later : Session)
      (reads : Program.ofText line = .ok program) (question : program.IsQuestion)
      (asks : program.AsksFor s.scope v) (run : s.runText line = (none, after))
      (submit : s.submit line = (some v.text, later)) (scope : later.scope = after.scope)
      (journal : later.journal = after.journal)
      (held : later.sink.held = after.sink.held ++ (v.text ++ "\n").toUTF8)

/-- What comes of a question: its expression is evaluated once by the line, and once by the script.
-/
theorem outcome_of_echoed (hsink : s.sink.NeverFails) {line : String} {program : Program}
    {expression : Expr} (hprogram : Program.ofText line = .ok program)
    (hecho : program.echoed? = some expression) : s.Outcome line := by
  have hfst := read_fst s line
  obtain ⟨hscope, hkept, -⟩ := read_keeps s line
  rcases hread : s.read line with ⟨outcome, mid⟩
  rw [hread] at hfst hscope hkept
  obtain rfl : outcome = .ok program := hfst.trans hprogram
  have hmid : mid.sink.NeverFails := (congrArg Sink.NeverFails hkept).mpr hsink
  have hrun : s.runText line = mid.run program := by simp only [runText, hread]
  rw [run_of_echoed hecho mid] at hrun
  -- The script finds the value and flushes; the line finds the same one, prints it and flushes.
  cases heval : expression.eval mid.scope with
  | error e =>
    rw [heval] at hrun
    exact .failed e mid hrun (by simp only [submit, hread, hecho, heval])
  | ok v =>
    rw [heval] at hrun
    obtain ⟨later, hprint, hlater, hjournal, hheld⟩ :=
      printLine_of_neverFails hmid v.text expression.span
    have hasks : program.AsksFor s.scope v :=
      Program.asksFor_of_eval hecho (by rw [← hscope]; exact heval)
    exact .answered program v _ later hprogram (program.isQuestion_iff.2 ⟨expression, hecho⟩) hasks
      (hrun.trans (flush_of_granted hmid.2 _))
      (by simp only [submit, hread, hecho, heval, hprint]) hlater hjournal hheld

/-- Every line comes out in one of these ways. -/
theorem outcome (hsink : s.sink.NeverFails) (line : String) : s.Outcome line := by
  by_cases hecho : ∃ program expression,
      Program.ofText line = .ok program ∧ program.echoed? = some expression
  · obtain ⟨program, expression, hprogram, hecho⟩ := hecho
    exact outcome_of_echoed hsink hprogram hecho
  · have hnone (program : Program) (hprogram : Program.ofText line = .ok program) :
        program.echoed? = none :=
      Option.eq_none_iff_forall_ne_some.2 fun expression h =>
        hecho ⟨program, expression, hprogram, h⟩
    have hsubmit := submit_of_not_echoed s hnone
    rcases hrun : s.runText line with ⟨_ | e, after⟩
    · rw [hrun] at hsubmit
      obtain ⟨program, hprogram⟩ := exists_program_of_runText hrun
      have hplain : ¬ program.IsQuestion := by
        rw [program.isQuestion_iff, hnone program hprogram]
        simp
      exact .ran program after hprogram hplain hrun hsubmit
    · rw [hrun] at hsubmit
      exact .failed e after hrun hsubmit

/-- A line adds the report of the error of the script to those that are there, if the script
fails, and none otherwise. -/
theorem diagnostics_submit (hsink : s.sink.NeverFails) (line : String) :
    (s.submit line).2.diagnostics =
      s.diagnostics ++ ((s.runText line).1.map (·.diagnose line none)).toList := by
  have hquiet := diagnostics_runText s line
  cases outcome hsink line with
  | failed e after hrun hsubmit =>
    rw [hrun] at hquiet ⊢
    rw [hsubmit, diagnostics_report, hquiet]
    rfl
  | ran program after _ _ hrun hsubmit =>
    rw [hrun] at hquiet ⊢
    rw [hsubmit, hquiet]
    exact (List.append_nil _).symm
  | answered program v after later _ _ _ hrun hsubmit _ hjournal _ =>
    have hlater : later.diagnostics = after.diagnostics := by
      unfold diagnostics
      rw [hjournal]
    rw [hrun] at hquiet ⊢
    rw [hsubmit, hlater, hquiet]
    exact (List.append_nil _).symm

/-- The error that a line reports is the error of the script itself. -/
theorem reported_submit (hsink : s.sink.NeverFails) (line : String) :
    (s.submit line).2.reported = s.reported ++ (s.runText line).1.toList := by
  rw [reported, diagnostics_submit hsink, List.map_append]
  cases (s.runText line).1 <;> rfl

/-- A line leaves the variables and functions that the script leaves. -/
theorem scope_submit (hsink : s.sink.NeverFails) (line : String) :
    (s.submit line).2.scope = (s.runText line).2.scope := by
  cases outcome hsink line with
  | failed e after hrun hsubmit =>
    rw [hrun, hsubmit]
    rfl
  | ran program after _ _ hrun hsubmit => rw [hrun, hsubmit]
  | answered program v after later _ _ _ hrun hsubmit hscope _ _ =>
    rw [hrun, hsubmit]
    exact hscope

/-- A line of a conversation on a sink that never fails, and the same line read and run as a script
in the same session.  Both leave the same variables and functions.  The line reports the error of
the script, the same in its cause, its span and its help, once if the script fails and never
otherwise.  Where the script fails, the line prints nothing but what the script prints, and answers
nothing.  Where the script succeeds and is a question, the line prints the value that it asks for
behind what the script prints, and answers with it; where it is none, the line is no different from
the script. -/
theorem submit_agrees (s : Session) (line : String) (hsink : s.sink.NeverFails) :
    (s.submit line).2.scope = (s.runText line).2.scope ∧
    (s.submit line).2.reported = s.reported ++ (s.runText line).1.toList ∧
    (s.submit line).2.diagnostics =
      s.diagnostics ++ ((s.runText line).1.map (·.diagnose line none)).toList ∧
    (∀ e after, s.runText line = (some e, after) →
      s.submit line = (none, after.report e line none)) ∧
    ∀ after, s.runText line = (none, after) →
      ∃ program, Program.ofText line = .ok program ∧
        (¬ program.IsQuestion → s.submit line = (none, after)) ∧
        (program.IsQuestion → ∃ v later, program.AsksFor s.scope v ∧
          s.submit line = (some v.text, later) ∧
          later.sink.held = after.sink.held ++ (v.text ++ "\n").toUTF8) := by
  refine ⟨scope_submit hsink line, reported_submit hsink line, diagnostics_submit hsink line, ?_⟩
  cases outcome hsink line with
  | failed e after hrun hsubmit =>
    refine ⟨?_, by simp [hrun]⟩
    intro e' after' h
    cases hrun.symm.trans h
    exact hsubmit
  | ran program after hprogram hplain hrun hsubmit =>
    refine ⟨by simp [hrun], ?_⟩
    intro after' h
    cases hrun.symm.trans h
    exact ⟨program, hprogram, fun _ => hsubmit, fun hquestion => absurd hquestion hplain⟩
  | answered program v after later hprogram hquestion hasks hrun hsubmit _ _ hheld =>
    refine ⟨by simp [hrun], ?_⟩
    intro after' h
    cases hrun.symm.trans h
    exact ⟨program, hprogram, fun hplain => absurd hquestion hplain,
      fun _ => ⟨v, later, hasks, hsubmit, hheld⟩⟩

/-- A session in which a variable is bound to a string. -/
def asking : Session :=
  { start Sink.working with scope := Scope.empty.define "x" (.string "cat") }

/-- Asked for its variable, the session answers with the string and is left as by the script; asked
for another one, it reports the error of the script. -/
theorem submit_agrees_asking :
    asking.sink.NeverFails ∧ (asking.submit "woof x").1 = some "cat" ∧
      (asking.submit "woof x").2.scope = (asking.runText "woof x").2.scope ∧
      (asking.submit "woof x").2.reported = [] ∧
      (asking.submit "woof y").2.reported =
        [⟨.undefinedVariable "y", ⟨0, 6, 1, 1⟩, some "Declare it first with: meow y = ..."⟩] := by
  have hsink : asking.sink.NeverFails := Sink.working_neverFails
  obtain ⟨hscope, hknown, -⟩ := submit_agrees asking "woof x" hsink
  obtain ⟨-, hunknown, -⟩ := submit_agrees asking "woof y" hsink
  exact ⟨hsink, by cbv, hscope, hknown.trans (by cbv), hunknown.trans (by cbv)⟩

end Session

end CatScript
