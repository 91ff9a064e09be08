import CatScript.Interface.Invocation
import CatScript.Proofs.Invocation.Items

/-!
# Asking for more detail

A command that is asked for more detail does the same and shows more of its records.  It reads the
rest of its arguments alike, wherever more detail is asked for among them
(`CommandLine.ofArguments_louder`), and what it then does depends on the rest only.  Its journal is
the same, and which of the entries are written is a matter of their level: what is written at a
level is what is left of all that is written at a higher one, and only records are left out.  The
top theorem is `Invocation.respond_louder`.
-/

set_option autoImplicit false

namespace CatScript

/-! ## Entries that are written -/

/-- The record that an entry is, if it is one. -/
def Entry.record? : Entry → Option Record
  | .record r => some r
  | _ => none

namespace Level

/-- A record of this severity is written at the level: it is of an error, or it is no more of a
detail than the level. -/
def Enables (shown : Level) : Severity → Prop
  | .error => True
  | .detail level => level.rank ≤ shown.rank

instance (shown : Level) : (severity : Severity) → Decidable (shown.Enables severity)
  | .error => .isTrue trivial
  | .detail level => inferInstanceAs (Decidable (level.rank ≤ shown.rank))

/-- The filter passes on what is enabled. -/
theorem isEnabled_iff {shown : Level} {severity : Severity} :
    severity.isEnabled shown = true ↔ shown.Enables severity := by
  cases severity with
  | error => exact iff_of_true rfl trivial
  | detail level => exact decide_eq_true_iff

/-- The rank of a level is the number of times that it was asked for, up to the last one. -/
theorem rank_ofVerbosity (n : Nat) : (ofVerbosity n).rank = min n 3 := by
  rcases n with _ | _ | _ | n
  · rfl
  · rfl
  · rfl
  · simp only [ofVerbosity, rank]
    omega

/-- Asking for more detail never disables a severity. -/
theorem Enables.of_le {m n : Nat} (hle : m ≤ n) {severity : Severity}
    (h : (ofVerbosity m).Enables severity) : (ofVerbosity n).Enables severity := by
  cases severity with
  | error => trivial
  | detail level =>
    unfold Enables at h ⊢
    rw [rank_ofVerbosity] at h ⊢
    omega

end Level

namespace Journal

/-- The entries that are written at a level. -/
def written (journal : Journal) (level : Level) : List Entry :=
  journal.toList.filter (Entry.isShown (some level))

variable (journal : Journal)

/-- What a reader sees is what is written. -/
theorem shown_eq_written (level : Level) :
    journal.shown (some level) = (journal.written level).flatMap Entry.notices := rfl

/-- At every level all entries are written that are no records. -/
theorem written_others (level : Level) :
    (journal.written level).filter (·.record?.isNone) =
      journal.toList.filter (·.record?.isNone) := by
  rw [written, List.filter_filter]
  refine List.filter_congr fun entry _ => ?_
  cases entry <;> rfl

/-- What is written at one verbosity is what is enabled there among all that is written at a higher
one. -/
theorem written_of_le {m n : Nat} (h : m ≤ n) :
    journal.written (.ofVerbosity m) =
      (journal.written (.ofVerbosity n)).filter (Entry.isShown (some (.ofVerbosity m))) := by
  rw [written, written, List.filter_filter]
  refine List.filter_congr fun entry _ => ?_
  cases entry with
  | record r =>
    rw [Bool.eq_iff_iff, Bool.and_eq_true]
    simp only [Entry.isShown, Level.isEnabled_iff]
    exact ⟨fun hm => ⟨hm, hm.of_le h⟩, And.left⟩
  | diagnostic | message => rfl

/-- Of records, those are written whose severity is enabled. -/
theorem filterMap_record?_filter (entries : List Entry) (level : Level) :
    (entries.filter (Entry.isShown (some level))).filterMap Entry.record? =
      (entries.filterMap Entry.record?).filter (level.Enables ·.severity) := by
  rw [List.filterMap_filter, List.filter_filterMap]
  refine List.filterMap_congr fun entry _ => ?_
  cases entry with
  | record r =>
    have hshown : Entry.isShown (some level) (.record r) = decide (level.Enables r.severity) :=
      Bool.eq_iff_iff.2 (Level.isEnabled_iff.trans decide_eq_true_iff.symm)
    rw [hshown]
    by_cases h : level.Enables r.severity
    · simp [Entry.record?, Option.filter_some, h]
    · simp [Entry.record?, Option.filter_some, h]
  | diagnostic | message => rfl

end Journal

/-! ## More detail on a command line -/

namespace CommandLine

/-- The second command line says the same as the first one, but that it asks for more detail at
least as often, anywhere among its arguments. -/
structure Louder (arguments louder : List String) : Prop where
  others : (items louder).filter (· ≠ .verbose) = (items arguments).filter (· ≠ .verbose)
  verbosity : verbosity arguments ≤ verbosity louder

/-- Arguments that ask for more detail and nothing else can be added anywhere in front of `--`. -/
theorem Louder.insert {front more : List String} (hfront : "--" ∉ front)
    (hmore : ∀ argument ∈ more, argument ≠ "--" ∧ ∀ item ∈ itemsOf argument, item = .verbose)
    (back : List String) : Louder (front ++ back) (front ++ (more ++ back)) := by
  have hmark : "--" ∉ more := fun h => (hmore _ h).1 rfl
  have hflags : ∀ item ∈ more.flatMap itemsOf, item = .verbose := by
    intro item hitem
    obtain ⟨argument, hargument, hitem⟩ := List.mem_flatMap.1 hitem
    exact (hmore argument hargument).2 item hitem
  have hnone : (more.flatMap itemsOf).filter (· ≠ .verbose) = [] := by
    simpa [List.filter_eq_nil_iff] using hflags
  refine ⟨?_, ?_⟩
  · simp only [items_append hfront, items_append hmark, List.filter_append, hnone, List.nil_append]
  · simp only [CommandLine.verbosity, items_append hfront, items_append hmark, List.count_append]
    omega

variable {arguments louder : List String}

/-- More detail is asked for and nothing else: either both command lines are refused or answered at
once in the same way, or both are run, with options that differ in their verbosity alone. -/
theorem ofArguments_louder (h : Louder arguments louder) :
    (Request.ofArguments louder = Request.ofArguments arguments ∧
      ∀ o, Request.ofArguments arguments ≠ .run o) ∨
    ∃ o : Options, Request.ofArguments arguments = .run (o.raised (verbosity arguments)) ∧
      Request.ofArguments louder = .run (o.raised (verbosity louder)) := by
  have htaken := Options.foldlM_takeItem_eq (items arguments) .default
  have htaken' := Options.foldlM_takeItem_eq (items louder) .default
  rw [h.others] at htaken'
  rw [ofArguments_eq, ofArguments_eq, htaken, htaken']
  cases hothers : ((items arguments).filter (· ≠ .verbose)).foldlM Options.takeItem .default with
  | error request =>
    refine .inl ⟨rfl, ?_⟩
    rintro o rfl
    exact Options.foldlM_takeItem_ne_run _ _ _ hothers
  | ok o =>
    by_cases hboth : o.demo = true ∧ o.file.isSome = true
    · have hmisuse (n : Nat) : (if (o.raised n).demo = true ∧ (o.raised n).file.isSome = true
          then Request.misuse else .run (o.raised n)) = .misuse := if_pos hboth
      refine .inl ⟨(hmisuse _).trans (hmisuse _).symm, fun run hrun => ?_⟩
      exact absurd ((hmisuse _).symm.trans hrun) nofun
    · exact .inr ⟨o, if_neg hboth, if_neg hboth⟩

end CommandLine

namespace Invocation

open CommandLine (Options Request Louder verbosity)

/-- The entries that a command writes besides its output: those of its journal that are written at
the verbosity that its arguments ask for. -/
def entries (arguments : List String) (files : String → FileStatus) (input : ByteArray) :
    List Entry :=
  match Request.ofArguments arguments with
  | .run o =>
    (perform (.start Sink.working) o files input).2.journal.written
      (.ofVerbosity (verbosity arguments))
  | _ => []

variable {arguments louder : List String} {files : String → FileStatus} {input : ByteArray}

/-- A command that is run writes the entries of its journal that are written at its verbosity. -/
theorem entries_of_run {o : Options} (h : Request.ofArguments arguments = .run o) :
    entries arguments files input =
      (perform (.start Sink.working) o files input).2.journal.written
        (.ofVerbosity (verbosity arguments)) := by
  simp only [entries, h]

/-- A command that is not run has nothing to say. -/
theorem entries_of_not_run (h : ∀ o, Request.ofArguments arguments ≠ .run o) :
    entries arguments files input = [] := by
  unfold entries
  split
  · next o hrun => exact absurd hrun (h o)
  · rfl

/-- What a command says besides its output are its entries. -/
theorem notices_eq_entries {outcome : Outcome}
    (h : respond arguments files input = .finished outcome) :
    outcome.notices = (entries arguments files input).flatMap Entry.notices := by
  cases hrequest : Request.ofArguments arguments with
  | misuse => simp [respond, hrequest] at h
  | help | version =>
    simp only [respond, hrequest, Response.finished.injEq] at h
    rw [← h, entries, hrequest]
    rfl
  | run o =>
    rw [respond_of_run hrequest, Response.finished.injEq] at h
    rw [← h, entries_of_run hrequest]
    exact Journal.shown_eq_written _ _

/-- What is done does not depend on the verbosity. -/
theorem perform_raised (s : Session) (o : Options) (n : Nat) (files : String → FileStatus)
    (input : ByteArray) : perform s (o.raised n) files input = perform s o files input := rfl

/-- A command that is asked for more detail does the same, and at the verbosity of the first one the
same is written of its entries. -/
theorem exists_respond_louder (h : Louder arguments louder) {outcome : Outcome}
    (hfinished : respond arguments files input = .finished outcome) :
    ∃ later, respond louder files input = .finished later ∧
      later.code = outcome.code ∧ later.output = outcome.output ∧
      (entries louder files input).filter (·.record?.isNone) =
        (entries arguments files input).filter (·.record?.isNone) ∧
      entries arguments files input = (entries louder files input).filter
        (Entry.isShown (some (.ofVerbosity (verbosity arguments)))) := by
  obtain ⟨hsame, hnone⟩ | ⟨o, hrun, hrun'⟩ := CommandLine.ofArguments_louder h
  · have hnone' (o : Options) : Request.ofArguments louder ≠ .run o := hsame ▸ hnone o
    rw [entries_of_not_run hnone, entries_of_not_run hnone', respond, hsame]
    exact ⟨outcome, hfinished, rfl, rfl, rfl, rfl⟩
  · rw [respond_of_run hrun, Response.finished.injEq, perform_raised] at hfinished
    rw [entries_of_run hrun, entries_of_run hrun', perform_raised, perform_raised,
      Journal.written_others, Journal.written_others, ← hfinished]
    exact ⟨_, respond_of_run hrun' files input, rfl, rfl, rfl, Journal.written_of_le _ h.verbosity⟩

/-- A command that is asked for more detail exits with the same code and has the same output.  What
it says besides are its entries.  Those that are no records are the same in the same order, and the
records of the first command are, in order, those of the second one whose severity is enabled at
the verbosity of the first. -/
theorem respond_louder (h : Louder arguments louder) {outcome : Outcome}
    (hfinished : respond arguments files input = .finished outcome) :
    ∃ later, respond louder files input = .finished later ∧
      later.code = outcome.code ∧ later.output = outcome.output ∧
      outcome.notices = (entries arguments files input).flatMap Entry.notices ∧
      later.notices = (entries louder files input).flatMap Entry.notices ∧
      (entries louder files input).filter (·.record?.isNone) =
        (entries arguments files input).filter (·.record?.isNone) ∧
      (entries arguments files input).filterMap Entry.record? =
        ((entries louder files input).filterMap Entry.record?).filter
          ((Level.ofVerbosity (verbosity arguments)).Enables ·.severity) ∧
      ((entries arguments files input).filterMap Entry.record?).Sublist
        ((entries louder files input).filterMap Entry.record?) := by
  obtain ⟨later, hlater, hcode, houtput, hothers, hentries⟩ := exists_respond_louder h hfinished
  have hrecords := Journal.filterMap_record?_filter (entries louder files input)
    (.ofVerbosity (verbosity arguments))
  rw [← hentries] at hrecords
  exact ⟨later, hlater, hcode, houtput, notices_eq_entries hfinished, notices_eq_entries hlater,
    hothers, hrecords, hrecords ▸ List.filter_sublist⟩

/-- A line that prints an empty line and a line end, and one that fails. -/
def stanza : ByteArray := "purr(\"\\n\")\nx".toUTF8

/-- The records of a conversation on these lines.  The text of the third has a line end in it. -/
def stanzaRecords : List Record :=
  [⟨.detail .debug, .lexer, "lexed 5 tokens"⟩,
    ⟨.detail .debug, .parser, "parsed 1 top-level statements"⟩,
    ⟨.detail .trace, .evaluator, "purr \n"⟩, ⟨.detail .debug, .lexer, "lexed 2 tokens"⟩,
    ⟨.detail .debug, .parser, "parsed 1 top-level statements"⟩]

/-- Asked for all detail, by a cluster of letters and by a name, the conversation is the same, and
it has five records where it had none. -/
theorem respond_louder_stanza :
    Louder [] ["-vv", "--verbose"] ∧
    ∃ outcome later, respond [] (fun _ => .missing) stanza = .finished outcome ∧
      respond ["-vv", "--verbose"] (fun _ => .missing) stanza = .finished later ∧
      later.code = outcome.code ∧ outcome.code = 0 ∧ later.output = outcome.output ∧
      outcome.output = (Repl.banner ++ "> \n\n> > \n").toUTF8 ∧
      (entries [] (fun _ => .missing) stanza).filterMap Entry.record? = [] ∧
      (entries ["-vv", "--verbose"] (fun _ => .missing) stanza).filterMap Entry.record? =
        stanzaRecords := by
  have hlouder : Louder [] ["-vv", "--verbose"] :=
    @Louder.insert [] ["-vv", "--verbose"] (by decide) (by decide) []
  have hrecords : (entries ["-vv", "--verbose"] (fun _ => .missing) stanza).filterMap
      Entry.record? = stanzaRecords := by cbv
  have hrun : Request.ofArguments [] = .run .default := rfl
  have hquiet := respond_of_run hrun (fun _ => .missing) stanza
  obtain ⟨later, hlater, hcode, houtput, -, -, -, hfewer, -⟩ := respond_louder hlouder hquiet
  refine ⟨hlouder, _, later, hquiet, hlater, hcode, rfl, houtput, by cbv, ?_, hrecords⟩
  rw [hfewer, hrecords]
  rfl

end Invocation

end CatScript
