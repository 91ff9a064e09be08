import CatScript.Interface.Invocation
import CatScript.Proofs.Conversation.Resumed

/-!
# A command on a file

A command that is given a file runs it as a script if the file can be run, and otherwise says what
is the matter with it.  The checks come in a fixed order, and the first one that fails is the one
that is reported (`Objection`), so that there is at most one report (`Objection.unique`).  What is
written is what the script writes, and a script that fails keeps what it has written until then.
The top theorem is `Invocation.respond_file`.
-/

set_option autoImplicit false

namespace CatScript

open CommandLine (Options Request)

/-! ## Running a script with its report -/

namespace Session

variable {s : Session} {source : String} {program : Program} {e : Error}

/-- A script that is a program comes out and writes as the program does in a session in which
nothing has happened. -/
theorem runText_of_ok (hscope : s.scope = Scope.empty) (hsink : s.sink = Sink.working)
    (h : Program.ofText source = .ok program) :
    (s.runText source).1 = ((start Sink.working).run program).1 ∧
      (s.runText source).2.sink.held = ((start Sink.working).run program).2.sink.held := by
  obtain ⟨mid, hread, hmidScope, hmidSink⟩ := s.exists_read source
  have hmid : Continues ByteArray.empty mid.journal (start Sink.working) mid := {
    scope := hmidScope.trans hscope
    output := by
      rw [hmidSink, hsink]
      rfl
    entries := (Array.append_empty).symm
    fresh := Sink.working_neverFails
    neverFails := by
      rw [hmidSink, hsink]
      exact Sink.working_neverFails }
  have hrun : s.runText source = mid.run program := by
    unfold runText
    rw [hread, h]
  rw [hrun]
  obtain ⟨after, after', hfresh, hbehind, hafter⟩ | ⟨e, after, after', hfresh, hbehind, hafter⟩ :=
    (hmid.run program).cases
  · rw [hfresh, hbehind]
    exact ⟨rfl, hafter.output.trans ByteArray.empty_append⟩
  · rw [hfresh, hbehind]
    exact ⟨rfl, hafter.output.trans ByteArray.empty_append⟩

end Session

namespace Script

/-- A script fails with an error: it is no program, or the program fails. -/
def FailsWith (source : String) (e : Error) : Prop :=
  Program.ofText source = .error e ∨
    ∃ program, Program.ofText source = .ok program ∧
      ((Session.start Sink.working).run program).1 = some e

/-- A script succeeds: it is a program, and the program succeeds. -/
def Succeeds (source : String) : Prop :=
  ∃ program, Program.ofText source = .ok program ∧
    ((Session.start Sink.working).run program).1 = none

variable {source : String} {e : Error}

/-- A script fails with one error only. -/
theorem FailsWith.unique {e' : Error} (h : FailsWith source e) (h' : FailsWith source e') :
    e = e' := by
  obtain h | ⟨program, h, hrun⟩ := h
  · obtain h' | ⟨program', h', -⟩ := h'
    · exact Except.error.inj (h.symm.trans h')
    · exact nomatch h.symm.trans h'
  · obtain h' | ⟨program', h', hrun'⟩ := h'
    · exact nomatch h.symm.trans h'
    · obtain rfl := Except.ok.inj (h.symm.trans h')
      exact Option.some.inj (hrun.symm.trans hrun')

/-- A script that fails does not succeed. -/
theorem FailsWith.not_succeeds (h : FailsWith source e) : ¬ Succeeds source := by
  rintro ⟨program, hprogram, hrun⟩
  obtain h | ⟨program', h, hrun'⟩ := h
  · exact nomatch h.symm.trans hprogram
  · obtain rfl := Except.ok.inj (h.symm.trans hprogram)
    exact nomatch hrun.symm.trans hrun'

/-- A script with nothing in it succeeds. -/
theorem succeeds_empty : Succeeds "" := ⟨⟨[]⟩, by cbv, by cbv⟩

/-- The report of a script that fails says where in the file. -/
theorem FailsWith.location (h : FailsWith source e) (path : String) :
    ∃ line column : Nat, (e.diagnose source (some path)).location =
      some s!"{path}:{line}:{column}" := by
  have hsource : source ≠ "" := by
    rintro rfl
    exact h.not_succeeds succeeds_empty
  exact ⟨_, _, Diagnostic.location_diagnose e hsource (some path)⟩

variable {s : Session}

/-- What comes of a script is its error, if it fails with one. -/
theorem runText_fst (hscope : s.scope = Scope.empty) (hsink : s.sink = Sink.working)
    (source : String) :
    ((s.runText source).1 = none ∧ Succeeds source) ∨
      ∃ e, (s.runText source).1 = some e ∧ FailsWith source e := by
  cases h : Program.ofText source with
  | error e => exact .inr ⟨e, (s.unread_keeps h).1, .inl h⟩
  | ok program =>
    have hfst := (Session.runText_of_ok hscope hsink h).1
    cases hrun : ((Session.start Sink.working).run program).1 with
    | none => exact .inl ⟨hfst.trans hrun, program, h, hrun⟩
    | some e => exact .inr ⟨e, hfst.trans hrun, .inr ⟨program, h, hrun⟩⟩

/-- A script that is run with its report comes out as the script does behind a record. -/
theorem runReported_eq (s : Session) (source : String) (file : Option String) :
    let name := file.getD "<inline>"
    let result := (s.record .info .runner s!"running {name}").runText source
    runReported s source file =
      (result.1, result.1.elim result.2 (result.2.report · source file)) := by
  intro name result
  unfold runReported
  dsimp only
  split
  · next after h =>
    rw [show result = (none, after) from h]
    rfl
  · next e after h =>
    rw [show result = (some e, after) from h]
    rfl

/-- A script that is run with its report is run in a session that is at the empty scope and has
printed nothing, and the report of its error is all that a reader at a quiet level sees. -/
theorem runReported_start (source : String) (file : Option String) : ∃ s : Session,
    s.scope = Scope.empty ∧ s.sink = Sink.working ∧
      (runReported (.start Sink.working) source file).1 = (s.runText source).1 ∧
      (runReported (.start Sink.working) source file).2.sink = (s.runText source).2.sink ∧
      ∀ level, Journal.Quiet level →
        (runReported (.start Sink.working) source file).2.journal.shown level =
          ((s.runText source).1.map fun e =>
            Notice.diagnostic (e.diagnose source file)).toList := by
  let name := file.getD "<inline>"
  let s := (Session.start Sink.working).record .info .runner s!"running {name}"
  have hshown (level : Option Level) (hquiet : Journal.Quiet level) :
      (s.runText source).2.journal.shown level = [] :=
    (Session.shown_runText hquiet s source).trans
      (Session.shown_record hquiet (.start Sink.working) .info nofun .runner s!"running {name}")
  have hreported : runReported (.start Sink.working) source file = ((s.runText source).1,
      (s.runText source).1.elim (s.runText source).2
        ((s.runText source).2.report · source file)) :=
    runReported_eq (.start Sink.working) source file
  rw [hreported]
  refine ⟨s, rfl, rfl, rfl, ?_, fun level hquiet => ?_⟩
  · cases (s.runText source).1 <;> rfl
  · cases (s.runText source).1 with
    | none => exact hshown level hquiet
    | some e =>
      refine (Session.shown_report _ e source file).trans ?_
      rw [hshown level hquiet]
      rfl

end Script

/-! ## What is the matter with a file -/

namespace Invocation

/-- A path leads to a file with the extension of a script, and this is the text that it holds. -/
def Readable (files : String → FileStatus) (path source : String) : Prop :=
  Path.extension? path = some scriptExtension ∧
    ∃ bytes, files path = .contents bytes ∧ String.fromUTF8? bytes = some source

/-- The first thing that is the matter with a file, as it is reported: its extension, that it is not
there, that it cannot be read, that it is no text, or the error of the script. -/
inductive Objection (files : String → FileStatus) (path : String) : Entry → Prop
  | extension (h : Path.extension? path ≠ some scriptExtension) :
      Objection files path (.message "Error: FurryScript files must have a .fur extension")
  | missing (extension : Path.extension? path = some scriptExtension)
      (h : files path = .missing) :
      Objection files path (.message s!"Error: File '{path}' not found")
  | unreadable {reason : String} (extension : Path.extension? path = some scriptExtension)
      (h : files path = .unreadable reason) :
      Objection files path (.message s!"Error reading file '{path}': {reason}")
  | undecodable {bytes : ByteArray} (extension : Path.extension? path = some scriptExtension)
      (contents : files path = .contents bytes) (h : String.fromUTF8? bytes = none) :
      Objection files path
        (.message s!"Error reading file '{path}': stream did not contain valid UTF-8")
  | script {source : String} {e : Error} (readable : Readable files path source)
      (h : Script.FailsWith source e) :
      Objection files path (.diagnostic (e.diagnose source (some path)))

variable {files : String → FileStatus} {path source : String} {report : Entry}

/-- A readable file has one text only. -/
theorem Readable.unique {other : String} (h : Readable files path source)
    (h' : Readable files path other) : source = other := by
  obtain ⟨-, bytes, hbytes, htext⟩ := h
  obtain ⟨-, bytes', hbytes', htext'⟩ := h'
  obtain rfl := FileStatus.contents.inj (hbytes.symm.trans hbytes')
  exact Option.some.inj (htext.symm.trans htext')

/-- There is something the matter with a file that can be read only if the script fails. -/
theorem Objection.of_readable (h : Objection files path report)
    (hreadable : Readable files path source) :
    ∃ e, Script.FailsWith source e ∧ report = .diagnostic (e.diagnose source (some path)) := by
  obtain ⟨hextension, bytes, hbytes, htext⟩ := id hreadable
  cases h with
  | extension h => exact absurd hextension h
  | missing _ h => exact nomatch h.symm.trans hbytes
  | unreadable _ h => exact nomatch h.symm.trans hbytes
  | undecodable _ hcontents h =>
    obtain rfl := FileStatus.contents.inj (hcontents.symm.trans hbytes)
    exact nomatch h.symm.trans htext
  | script hreadable' h =>
    obtain rfl := hreadable'.unique hreadable
    exact ⟨_, h, rfl⟩

/-- At most one thing is reported of a file. -/
theorem Objection.unique {other : Entry} (h : Objection files path report)
    (h' : Objection files path other) : report = other := by
  cases h with
  | extension h =>
    cases h' with
    | extension => rfl
    | missing hextension | unreadable hextension | undecodable hextension =>
      exact absurd hextension h
    | script hreadable => exact absurd hreadable.1 h
  | missing hextension h =>
    cases h' with
    | extension h' => exact absurd hextension h'
    | missing => rfl
    | unreadable _ h' | undecodable _ h' => exact nomatch h.symm.trans h'
    | script hreadable =>
      obtain ⟨-, bytes, h', -⟩ := hreadable
      exact nomatch h.symm.trans h'
  | unreadable hextension h =>
    cases h' with
    | extension h' => exact absurd hextension h'
    | missing _ h' | undecodable _ h' => exact nomatch h.symm.trans h'
    | unreadable _ h' =>
      obtain rfl := FileStatus.unreadable.inj (h.symm.trans h')
      rfl
    | script hreadable =>
      obtain ⟨-, bytes, h', -⟩ := hreadable
      exact nomatch h.symm.trans h'
  | undecodable hextension hcontents h =>
    cases h' with
    | extension h' => exact absurd hextension h'
    | missing _ h' | unreadable _ h' => exact nomatch hcontents.symm.trans h'
    | undecodable => rfl
    | script hreadable =>
      obtain ⟨-, bytes, hbytes, htext⟩ := hreadable
      obtain rfl := FileStatus.contents.inj (hcontents.symm.trans hbytes)
      exact nomatch h.symm.trans htext
  | script hreadable h =>
    obtain ⟨e, he, rfl⟩ := h'.of_readable hreadable
    rw [h.unique he]

/-! ## The command -/

/-- A file that can be read is run as a script. -/
theorem runFile_of_readable (s : Session) (h : Readable files path source) :
    runFile s files path = exitCode (Script.runReported s source (some path)) := by
  obtain ⟨hextension, bytes, hbytes, htext⟩ := h
  simp only [runFile, ne_eq, hextension, not_true_eq_false, if_false, hbytes, htext]

/-- Of a file that cannot be read there is a complaint. -/
theorem runFile_of_not_readable (s : Session) (h : ∀ source, ¬ Readable files path source) :
    ∃ message, runFile s files path = complain s message ∧
      Objection files path (.message message) := by
  unfold runFile
  by_cases hextension : Path.extension? path = some scriptExtension
  · rw [if_neg (not_not_intro hextension)]
    cases hfile : files path with
    | missing => exact ⟨_, rfl, .missing hextension hfile⟩
    | unreadable reason => exact ⟨_, rfl, .unreadable hextension hfile⟩
    | contents bytes =>
      cases htext : String.fromUTF8? bytes with
      | none => exact ⟨_, by simp only [htext], .undecodable hextension hfile htext⟩
      | some source => exact absurd ⟨hextension, bytes, hfile, htext⟩ (h source)
  · rw [if_pos hextension]
    exact ⟨_, rfl, .extension hextension⟩

/-- What comes of a file: it can be run, and the script succeeds, or something is the matter with
it, which is what is reported. -/
theorem runFile_cases (files : String → FileStatus) (path : String) :
    ((runFile (.start Sink.working) files path).1 = 0 ∧
      (∃ source, Readable files path source ∧ Script.Succeeds source) ∧
      ∀ level, Journal.Quiet level →
        (runFile (.start Sink.working) files path).2.journal.shown level = []) ∨
    (runFile (.start Sink.working) files path).1 = 1 ∧
      ∃ report, Objection files path report ∧ ∀ level, Journal.Quiet level →
        (runFile (.start Sink.working) files path).2.journal.shown level = report.notices := by
  by_cases hread : ∃ source, Readable files path source
  · obtain ⟨source, hreadable⟩ := hread
    rw [runFile_of_readable _ hreadable]
    obtain ⟨s, hscope, hsink, hfst, -, hshown⟩ := Script.runReported_start source (some path)
    obtain ⟨hnone, hsucceeds⟩ | ⟨e, hsome, hfails⟩ := Script.runText_fst hscope hsink source
    · rw [hnone] at hfst hshown
      refine .inl ⟨?_, ⟨source, hreadable, hsucceeds⟩, hshown⟩
      rw [exitCode, hfst]
      rfl
    · rw [hsome] at hfst hshown
      refine .inr ⟨?_, _, .script hreadable hfails, hshown⟩
      rw [exitCode, hfst]
      rfl
  · obtain ⟨message, hrun, hobjection⟩ :=
      runFile_of_not_readable (.start Sink.working) (not_exists.1 hread)
    rw [hrun]
    exact .inr ⟨rfl, _, hobjection, fun level _ => List.append_nil _⟩

/-- What a command on a file writes is what the program writes that the file holds, as far as that
comes. -/
theorem held_runFile {program : Program} (hreadable : Readable files path source)
    (h : Program.ofText source = .ok program) :
    (runFile (.start Sink.working) files path).2.sink.held =
      ((Session.start Sink.working).run program).2.sink.held := by
  obtain ⟨s, hscope, hsink, -, hleft, -⟩ := Script.runReported_start source (some path)
  rw [runFile_of_readable _ hreadable, exitCode, hleft]
  exact (Session.runText_of_ok hscope hsink h).2

/-- A command on a file that holds no program writes nothing. -/
theorem held_runFile_of_no_program
    (h : ∀ source program, Readable files path source → Program.ofText source ≠ .ok program) :
    (runFile (.start Sink.working) files path).2.sink.held = ByteArray.empty := by
  by_cases hread : ∃ source, Readable files path source
  · obtain ⟨source, hreadable⟩ := hread
    obtain ⟨s, hscope, hsink, -, hleft, -⟩ := Script.runReported_start source (some path)
    rw [runFile_of_readable _ hreadable, exitCode, hleft]
    cases hprogram : Program.ofText source with
    | error e =>
      rw [(s.unread_keeps hprogram).2.2.1, hsink]
      rfl
    | ok program => exact absurd hprogram (h source program hreadable)
  · obtain ⟨message, hrun, -⟩ :=
      runFile_of_not_readable (.start Sink.working) (not_exists.1 hread)
    rw [hrun]
    rfl

/-- Every path can be given behind `--`, and one that does not begin with a dash also alone. -/
theorem ofArguments_path (path : String) :
    Request.ofArguments ["--", path] = .run { Options.default with file := some path } ∧
      (path.toList.head? ≠ some '-' →
        Request.ofArguments [path] = .run { Options.default with file := some path }) := by
  refine ⟨rfl, fun hdash => ?_⟩
  have hplain : path ≠ "--" := by
    rintro rfl
    exact hdash rfl
  have htaken : Options.default.takeArgument path =
      .ok { Options.default with file := some path } := by
    unfold Options.takeArgument
    split
    · next h => exact absurd (by rw [h]; rfl) hdash
    · next h => exact absurd (by rw [h]; rfl) hdash
    · rfl
  simp only [Request.ofArguments, Options.takeAll, if_neg hplain, htaken]
  rfl

/-- A command on a file, given without the option that asks for the sample.  It exits with zero
exactly if the file has the extension of a script, can be read, is a text and a program, and the
program succeeds, and with one otherwise.  Its output is what the program writes, as far as that
comes, and nothing if there is no program.  Without the option for more detail it says nothing
besides if it exits with zero, and otherwise makes one report, of the first thing that is the matter
with the file, which says where in the file if it is the error of the script. -/
theorem respond_file (files : String → FileStatus) (input : ByteArray) {arguments : List String}
    {o : Options} {path : String} (h : Request.ofArguments arguments = .run o)
    (hfile : o.file = some path) (hdemo : o.demo = false) :
    ∃ outcome, respond arguments files input = .finished outcome ∧
      (outcome.code = 0 ↔ ∃ source program, Readable files path source ∧
        Program.ofText source = .ok program ∧
          ((Session.start Sink.working).run program).1 = none) ∧
      (outcome.code = 0 ∨ outcome.code = 1) ∧
      (∀ source program, Readable files path source → Program.ofText source = .ok program →
        outcome.output = ((Session.start Sink.working).run program).2.sink.held) ∧
      ((∀ source program, Readable files path source → Program.ofText source ≠ .ok program) →
        outcome.output = ByteArray.empty) ∧
      (outcome.code = 0 → o.verbosity = 0 → outcome.notices = []) ∧
      (outcome.code = 1 → ∃ report, Objection files path report ∧
        (∀ other, Objection files path other → other = report) ∧
        (o.verbosity = 0 → outcome.notices = report.notices) ∧
        ∀ d, report = .diagnostic d →
          ∃ line column : Nat, d.location = some s!"{path}:{line}:{column}") := by
  have hrespond : respond arguments files input = .finished
      ⟨(runFile (.start Sink.working) files path).1,
        (runFile (.start Sink.working) files path).2.sink.held,
        (runFile (.start Sink.working) files path).2.journal.shown
          (some (.ofVerbosity o.verbosity))⟩ := by
    simp only [respond, h, perform, hdemo, hfile, Bool.false_eq_true, if_false]
  have hquiet (hverbosity : o.verbosity = 0) :
      Journal.Quiet (some (Level.ofVerbosity o.verbosity)) := by
    rw [hverbosity]
    exact .inr rfl
  refine ⟨_, hrespond, ?_⟩
  obtain ⟨hcode, ⟨source, hreadable, program, hprogram, hruns⟩, hshown⟩ |
    ⟨hcode, report, hreport, hshown⟩ := runFile_cases files path
  · refine ⟨⟨fun _ => ⟨source, program, hreadable, hprogram, hruns⟩, fun _ => hcode⟩, .inl hcode,
      fun _ _ => held_runFile, held_runFile_of_no_program,
      fun _ hverbosity => hshown _ (hquiet hverbosity), fun hfails => ?_⟩
    exact absurd (hcode.symm.trans hfails) Nat.zero_ne_one
  · have hnot : (runFile (.start Sink.working) files path).1 ≠ 0 := by simp [hcode]
    refine ⟨⟨fun hzero => absurd hzero hnot, ?_⟩, .inr hcode, fun _ _ => held_runFile,
      held_runFile_of_no_program, fun hzero => absurd hzero hnot, fun _ => ?_⟩
    · rintro ⟨source, program, hreadable, hprogram, hruns⟩
      obtain ⟨e, hfails, -⟩ := hreport.of_readable hreadable
      exact absurd ⟨program, hprogram, hruns⟩ hfails.not_succeeds
    · refine ⟨report, hreport, fun other hother => hother.unique hreport,
        fun hverbosity => hshown _ (hquiet hverbosity), ?_⟩
      rintro d rfl
      cases hreport with
      | script hreadable hfails => exact hfails.location path

/-- A directory with a script that prints, and then fails. -/
def litter : FileTree := .ofPaths [("cat.fur", some "purr(1)\npurr(y)".toUTF8)]

/-- The program in it. -/
def kitten : Program :=
  ⟨[.print (.integer 1 ⟨5, 6, 1, 6⟩) ⟨0, 7, 1, 1⟩,
    .print (.identifier "y" ⟨13, 14, 2, 6⟩) ⟨8, 15, 2, 1⟩]⟩

/-- The command exits with one, what was printed is kept, and the report is that of the error. -/
theorem respond_file_litter :
    Request.ofArguments ["--", "cat.fur"] = .run { Options.default with file := some "cat.fur" } ∧
      ∃ outcome, respond ["--", "cat.fur"] litter.status ByteArray.empty = .finished outcome ∧
        outcome.code = 1 ∧ outcome.output = "1\n".toUTF8 ∧
        outcome.notices = [.diagnostic ((Error.of (.undefinedVariable "y")
          ⟨13, 14, 2, 6⟩).diagnose "purr(1)\npurr(y)" (some "cat.fur"))] := by
  have hreadable : Readable litter.status "cat.fur" "purr(1)\npurr(y)" :=
    ⟨by cbv, "purr(1)\npurr(y)".toUTF8, rfl, by cbv⟩
  have hprogram : Program.ofText "purr(1)\npurr(y)" = .ok kitten := by cbv
  have hruns : ((Session.start Sink.working).run kitten).1 =
      some (.of (.undefinedVariable "y") ⟨13, 14, 2, 6⟩) := by cbv
  have hheld : ((Session.start Sink.working).run kitten).2.sink.held = "1\n".toUTF8 := by cbv
  have harguments := (ofArguments_path "cat.fur").1
  obtain ⟨outcome, hrespond, hzero, hcode, houtput, -, -, hreport⟩ :=
    respond_file litter.status ByteArray.empty harguments rfl rfl
  have hfails : Script.FailsWith "purr(1)\npurr(y)" _ := .inr ⟨kitten, hprogram, hruns⟩
  have hone : outcome.code = 1 := by
    refine hcode.resolve_left fun hcode => ?_
    obtain ⟨source, program, hreadable', hprogram', hsucceeds⟩ := hzero.1 hcode
    obtain rfl := hreadable'.unique hreadable
    exact hfails.not_succeeds ⟨program, hprogram', hsucceeds⟩
  obtain ⟨report, -, hunique, hnotices, -⟩ := hreport hone
  refine ⟨harguments, outcome, hrespond, hone,
    (houtput _ _ hreadable hprogram).trans hheld, (hnotices rfl).trans ?_⟩
  rw [← hunique _ (.script hreadable hfails)]
  rfl

end Invocation

end CatScript
