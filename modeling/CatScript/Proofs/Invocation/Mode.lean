import CatScript.Proofs.Invocation.Items

/-!
# A conversation or a script

A command that is not asked for the sample runs its file as a script, if it is given one, and holds
a conversation otherwise.  Whether it is asked for a conversation makes no difference to it: a
conversation that is asked for together with a file is not held (`Invocation.respond_by_file`,
`Invocation.respond_interactive_ignored`).
-/

set_option autoImplicit false

namespace CatScript.Invocation

open CommandLine (Options Request items verbosity)

variable {arguments plain : List String} {o : Options}

/-- A command line without the option that asks for a conversation is run if it is run with it, and
asks for the same otherwise. -/
theorem ofArguments_detached (h : Request.ofArguments arguments = .run o)
    (hplain : items plain = (items arguments).filter (· ≠ .option (some .interactive))) :
    Request.ofArguments plain = .run o.detached := by
  obtain ⟨htaken, hboth⟩ := CommandLine.ofArguments_eq_run_iff.1 h
  refine CommandLine.ofArguments_eq_run_iff.2 ⟨?_, hboth⟩
  rw [hplain]
  exact Options.foldlM_detached (items arguments) htaken

/-- What is done does not depend on whether a conversation is asked for. -/
theorem perform_detached (s : Session) (o : Options) (files : String → FileStatus)
    (input : ByteArray) : perform s o.detached files input = perform s o files input := rfl

/-- A command that is not asked for the sample.  Without a file it holds a conversation and exits
with zero, whether or not it is asked for one.  With a file it runs the file as a script.  Without
the option that asks for a conversation it does and leaves the same, with a file and without. -/
theorem respond_by_file (h : Request.ofArguments arguments = .run o)
    (hdemo : .option (some .demo) ∉ items arguments) (files : String → FileStatus)
    (input : ByteArray) :
    ((∀ path, .file path ∉ items arguments) → respond arguments files input =
      .finished (.left (0, Repl.converse (.start Sink.working) input) (verbosity arguments))) ∧
    (∀ path, .file path ∈ items arguments → respond arguments files input =
      .finished (.left (runFile (.start Sink.working) files path) (verbosity arguments))) ∧
    ∀ plain, items plain = (items arguments).filter (· ≠ .option (some .interactive)) →
      respond plain files input = respond arguments files input := by
  have hsaid := CommandLine.says_of_ofArguments h
  have hno : o.demo = false := Bool.eq_false_iff.2 fun hdemo' => hdemo (hsaid.demo.1 hdemo')
  refine ⟨fun hnone => ?_, fun path hpath => ?_, fun plain hplain => ?_⟩
  · have hfile : o.file = none := by
      cases hfile : o.file with
      | none => rfl
      | some path => exact absurd ((hsaid.file path).1 hfile) (hnone path)
    rw [respond_of_run h, perform]
    simp only [hno, hfile, Bool.false_eq_true, if_false]
  · rw [respond_of_run h, perform]
    simp only [hno, (hsaid.file path).2 hpath, Bool.false_eq_true, if_false]
  · have hverbosity : verbosity plain = verbosity arguments := by
      rw [verbosity, hplain, verbosity, List.count_filter (by decide)]
    rw [respond_of_run h, respond_of_run (ofArguments_detached h hplain), perform_detached,
      hverbosity]

/-- A directory with a script in it that prints a number. -/
def house : FileTree := .ofPaths [("cat.fur", some "purr(1)".toUTF8)]

/-- The option is accepted together with the file, and ignored. -/
theorem respond_by_file_house :
    Request.ofArguments ["-i", "cat.fur"] = .run ⟨some "cat.fur", true, false, 0⟩ ∧
      .option (some .demo) ∉ items ["-i", "cat.fur"] ∧
      respond ["-i", "cat.fur"] house.status ByteArray.empty =
        .finished (.left (runFile (.start Sink.working) house.status "cat.fur") 0) ∧
      respond ["cat.fur"] house.status ByteArray.empty =
        respond ["-i", "cat.fur"] house.status ByteArray.empty := by
  have hrun : Request.ofArguments ["-i", "cat.fur"] =
      .run ⟨some "cat.fur", true, false, 0⟩ := by decide
  have hdemo : .option (some .demo) ∉ items ["-i", "cat.fur"] := by decide
  obtain ⟨-, hfile, hplain⟩ := respond_by_file hrun hdemo house.status ByteArray.empty
  exact ⟨hrun, hdemo, hfile "cat.fur" (by decide), hplain ["cat.fur"] (by decide)⟩

/-- Asked for a conversation and given a file, the command does not hold the conversation: it runs
the script, and its output is what the script prints. -/
theorem respond_interactive_ignored :
    Request.ofArguments ["-i", "cat.fur"] = .run ⟨some "cat.fur", true, false, 0⟩ ∧
      .option (some .interactive) ∈ items ["-i", "cat.fur"] ∧
      .option (some .demo) ∉ items ["-i", "cat.fur"] ∧
      respond ["-i", "cat.fur"] house.status ByteArray.empty =
        .finished ⟨0, "1\n".toUTF8, []⟩ ∧
      respond ["-i", "cat.fur"] house.status ByteArray.empty ≠
        .finished (.left (0, Repl.converse (.start Sink.working) ByteArray.empty) 0) := by
  have hrun : Request.ofArguments ["-i", "cat.fur"] =
      .run ⟨some "cat.fur", true, false, 0⟩ := by decide
  have hstatus : house.status "cat.fur" = .contents "purr(1)".toUTF8 := rfl
  have hscript : respond ["-i", "cat.fur"] house.status ByteArray.empty =
      .finished ⟨0, "1\n".toUTF8, []⟩ := by
    rw [respond_of_run hrun]
    simp only [perform, runFile, hstatus]
    cbv
  have hconversation : (Repl.converse (.start Sink.working) ByteArray.empty).sink.held =
      (Repl.banner ++ "> \n").toUTF8 := by cbv
  refine ⟨hrun, by decide, by decide, hscript, fun heq => ?_⟩
  rw [hscript] at heq
  have houtput := congrArg Outcome.output (Response.finished.inj heq)
  have hheld : "1\n".toUTF8 = (Repl.banner ++ "> \n").toUTF8 := houtput.trans hconversation
  exact absurd (congrArg ByteArray.size hheld) (by decide)

end CatScript.Invocation
