import CatScript.Interface.Invocation
import Mathlib

/-!
# What a command line says

A command line says one thing after the other: its options, by a name or by a letter each, and its
file.  The arguments are read as if they were this list (`Options.takeAll_eq`), so that how options
are spelled, and which letters share an argument, makes no difference.  What is asked for in the end
is what has been said (`Options.Says`), and asking for more detail changes the verbosity and nothing
else (`Options.foldlM_takeItem_eq`).
-/

set_option autoImplicit false

namespace CatScript

namespace CommandLine

/-- One thing that a command line says.  Of an argument that is spelled like an option there may be
no such option. -/
inductive Item
  | option (flag : Option Flag)
  | file (path : String)
deriving DecidableEq, Repr

/-- Asking for more detail. -/
def Item.verbose : Item := .option (some .verbose)

/-- What an argument says that stands in front of any `--`. -/
def itemsOf (argument : String) : List Item :=
  match argument.toList with
  | '-' :: '-' :: name => [.option (Flag.ofLong? (String.ofList name))]
  | '-' :: letter :: letters =>
    (letter :: letters).map fun letter => .option (Flag.ofShort? letter)
  | _ => [.file argument]

/-- What a command line says, in order.  Behind `--` there are only files. -/
def items : List String → List Item
  | [] => []
  | argument :: rest =>
    if argument = "--" then rest.map .file else itemsOf argument ++ items rest

/-- How often a command line asks for more detail. -/
def verbosity (arguments : List String) : Nat := (items arguments).count .verbose

/-- The items of a command line are those of its first argument and then those of the others. -/
theorem items_cons {argument : String} (h : argument ≠ "--") (rest : List String) :
    items (argument :: rest) = itemsOf argument ++ items rest := if_neg h

/-- In front of any `--`, what arguments say does not depend on those around them. -/
theorem items_append {front : List String} (h : "--" ∉ front) (back : List String) :
    items (front ++ back) = front.flatMap itemsOf ++ items back := by
  induction front with
  | nil => rfl
  | cons argument front ih =>
    obtain ⟨hargument, hfront⟩ := List.forall_mem_cons.1 (List.forall_mem_ne.2 h)
    rw [List.cons_append, items_cons (Ne.symm hargument), ih fun hmem => hfront _ hmem rfl,
      List.flatMap_cons, List.append_assoc]

namespace Options

/-- One more thing that is said. -/
def takeItem (o : Options) : Item → Except Request Options
  | .option flag => o.take? flag
  | .file path => o.takeFile path

/-! ## Reading the arguments -/

/-- An argument is taken item by item. -/
theorem takeArgument_eq (o : Options) (argument : String) :
    o.takeArgument argument = (itemsOf argument).foldlM takeItem o := by
  unfold takeArgument
  split
  next name hlong =>
    rw [itemsOf, hlong]
    exact (bind_pure (o.take? _)).symm
  next letter letters hletter hshort =>
    unfold itemsOf
    rw [hshort]
    split
    next heq => exact absurd (List.cons.inj (List.cons.inj heq).2).1 hletter
    next heq =>
      rw [List.foldlM_map]
      cases heq
      rfl
    next hother => exact absurd rfl (hother letter letters)
  next hlong hshort =>
    unfold itemsOf
    split
    next heq => exact absurd heq (hlong _)
    next heq => exact absurd heq (hshort _ _)
    next => exact (bind_pure (o.takeFile argument)).symm

/-- The arguments are taken by taking what they say, one thing after the other. -/
theorem takeAll_eq (arguments : List String) :
    ∀ o : Options, o.takeAll arguments = (items arguments).foldlM takeItem o := by
  induction arguments with
  | nil => intro o; rfl
  | cons argument rest ih =>
    intro o
    unfold takeAll items
    split
    · rw [List.foldlM_map]
      rfl
    · rw [List.foldlM_append, ← takeArgument_eq]
      cases o.takeArgument argument with
      | error request => rfl
      | ok o' => exact ih o'

/-! ## What is asked for in the end -/

variable {o o' : Options} {said : List Item} {item : Item}

/-- The options are those that have been said. -/
structure Says (o : Options) (said : List Item) : Prop where
  file : ∀ path, o.file = some path ↔ .file path ∈ said
  interactive : o.interactive = true ↔ .option (some .interactive) ∈ said
  demo : o.demo = true ↔ .option (some .demo) ∈ said
  verbosity : o.verbosity = said.count .verbose

/-- Nothing was said where nothing is asked for. -/
theorem says_default : default.Says [] where
  file path := by simp [default]
  interactive := by simp [default]
  demo := by simp [default]
  verbosity := rfl

/-- What is taken unless it is refused has been taken if it is there. -/
theorem ok_of_ite {refused : Prop} [Decidable refused] {request : Request}
    (h : (if refused then .error request else .ok o : Except Request Options) = .ok o') :
    ¬ refused ∧ o = o' := by
  split at h
  · simp at h
  · next hrefused => exact ⟨hrefused, Except.ok.inj h⟩

/-- One more thing is said, and it is among the options if it could be taken. -/
theorem Says.taken (h : o.Says said) (htaken : o.takeItem item = .ok o') :
    o'.Says (said ++ [item]) := by
  have hmem (other : Item) : other ∈ said ++ [item] ↔ other ∈ said ∨ other = item := by simp
  obtain ⟨hfile, hinteractive, hdemo, hverbosity⟩ := h
  cases item with
  | file path =>
    cases hnone : o.file with
    | some other => simp [takeItem, takeFile, hnone] at htaken
    | none =>
      obtain rfl : { o with file := some path } = o' := by
        simpa [takeItem, takeFile, hnone] using htaken
      have hunsaid (path : String) : .file path ∉ said := by simp [← hfile path, hnone]
      exact ⟨by simp [hmem, hunsaid, eq_comm], by simp [hmem, hinteractive], by simp [hmem, hdemo],
        by simp [hverbosity, Item.verbose]⟩
  | option flag =>
    cases flag with
    | none => simp [takeItem, take?] at htaken
    | some flag =>
      simp only [takeItem, take?] at htaken
      cases flag with
      | interactive =>
        obtain ⟨-, rfl⟩ := ok_of_ite htaken
        exact ⟨by simp [hmem, hfile], by simp [hmem], by simp [hmem, hdemo],
          by simp [hverbosity, Item.verbose]⟩
      | demo =>
        obtain ⟨-, rfl⟩ := ok_of_ite htaken
        exact ⟨by simp [hmem, hfile], by simp [hmem, hinteractive], by simp [hmem],
          by simp [hverbosity, Item.verbose]⟩
      | verbose =>
        obtain rfl := Except.ok.inj htaken
        exact ⟨by simp [hmem, hfile], by simp [hmem, hinteractive], by simp [hmem, hdemo],
          by simp [hverbosity, Item.verbose]⟩
      | help | version => simp [take] at htaken

/-- What is taken in front of more that is taken has been taken itself. -/
theorem exists_of_foldlM_cons (h : (item :: said).foldlM takeItem o = .ok o') :
    ∃ mid, o.takeItem item = .ok mid ∧ said.foldlM takeItem mid = .ok o' := by
  rw [List.foldlM_cons] at h
  cases hitem : o.takeItem item with
  | error request => simp [hitem, bind, Except.bind] at h
  | ok mid => exact ⟨mid, rfl, by rwa [hitem] at h⟩

/-- All that is said is among the options if it could be taken.  The induction is on what is still
to be said. -/
theorem Says.takenAll (later : List Item) :
    ∀ {o : Options} {said : List Item}, o.Says said → later.foldlM takeItem o = .ok o' →
      o'.Says (said ++ later) := by
  induction later with
  | nil =>
    intro o said h htaken
    obtain rfl : o = o' := Except.ok.inj htaken
    rwa [List.append_nil]
  | cons item later ih =>
    intro o said h htaken
    obtain ⟨mid, hitem, hlater⟩ := exists_of_foldlM_cons htaken
    have hsaid := ih (h.taken hitem) hlater
    rwa [List.append_assoc] at hsaid

/-! ## What makes no difference -/

/-- The same options, but more detail is asked for so many times more. -/
def raised (o : Options) (n : Nat) : Options := { o with verbosity := o.verbosity + n }

/-- Raising the verbosity twice raises it by the sum. -/
theorem raised_raised (o : Options) (m n : Nat) : (o.raised m).raised n = o.raised (m + n) := by
  simp only [raised, Nat.add_assoc]

/-- What has been said about detail has no effect on what can still be taken. -/
theorem takeItem_raised (o : Options) (n : Nat) (item : Item) :
    (o.raised n).takeItem item = (o.takeItem item).map (·.raised n) := by
  cases item with
  | file path =>
    cases hfile : o.file <;> simp [takeItem, takeFile, raised, hfile, Except.map]
  | option flag =>
    rcases flag with _ | flag
    · rfl
    · cases flag with
      | interactive =>
        cases hgiven : o.interactive <;> simp [takeItem, take?, take, raised, hgiven, Except.map]
      | demo => cases hgiven : o.demo <;> simp [takeItem, take?, take, raised, hgiven, Except.map]
      | verbose =>
        simp only [takeItem, take?, take, raised, Except.map, Except.ok.injEq, mk.injEq, true_and]
        omega
      | help | version => rfl

/-- What else is asked for does not depend on the verbosity that there is already. -/
theorem foldlM_raised (said : List Item) (n : Nat) :
    ∀ o : Options,
      said.foldlM takeItem (o.raised n) = (said.foldlM takeItem o).map (·.raised n) := by
  induction said with
  | nil => intro o; rfl
  | cons item said ih =>
    intro o
    rw [List.foldlM_cons, List.foldlM_cons, takeItem_raised]
    cases o.takeItem item with
    | error request => rfl
    | ok mid => exact ih mid

/-- Asking for more detail changes the verbosity and nothing else, wherever it is done. -/
theorem foldlM_takeItem_eq (said : List Item) :
    ∀ o : Options, said.foldlM takeItem o =
      ((said.filter (· ≠ .verbose)).foldlM takeItem o).map (·.raised (said.count .verbose)) := by
  induction said with
  | nil => intro o; rfl
  | cons item said ih =>
    intro o
    obtain rfl | hitem := eq_or_ne item .verbose
    · have hmore : o.takeItem .verbose = .ok (o.raised 1) := rfl
      rw [List.filter_cons_of_neg (by simp), List.count_cons_self, List.foldlM_cons, hmore]
      refine (foldlM_raised said 1 o).trans ?_
      rw [ih o]
      cases (said.filter (· ≠ .verbose)).foldlM takeItem o with
      | error request => rfl
      | ok mid => exact congrArg Except.ok (mid.raised_raised _ 1)
    · rw [List.filter_cons_of_pos (by simp [hitem]), List.count_cons_of_ne hitem, List.foldlM_cons,
        List.foldlM_cons]
      cases o.takeItem item with
      | error request => rfl
      | ok mid => exact ih mid

/-- The same options, but a conversation is not asked for. -/
def detached (o : Options) : Options := { o with interactive := false }

/-- Whether a conversation has been asked for has no effect on what else can be taken. -/
theorem takeItem_detached {item : Item} (h : item ≠ .option (some .interactive)) (o : Options) :
    o.detached.takeItem item = (o.takeItem item).map detached := by
  cases item with
  | file path =>
    cases hfile : o.file <;> simp [takeItem, takeFile, detached, hfile, Except.map]
  | option flag =>
    rcases flag with _ | flag
    · rfl
    · cases flag with
      | interactive => exact absurd rfl h
      | demo => cases hgiven : o.demo <;> simp [takeItem, take?, take, detached, hgiven, Except.map]
      | verbose | help | version => rfl

/-- What can be taken can also be taken without asking for a conversation, and the options are the
same but for that. -/
theorem foldlM_detached (said : List Item) :
    ∀ {o : Options}, said.foldlM takeItem o = .ok o' →
      (said.filter (· ≠ .option (some .interactive))).foldlM takeItem o.detached =
        .ok o'.detached := by
  induction said with
  | nil =>
    intro o htaken
    obtain rfl : o = o' := Except.ok.inj htaken
    rfl
  | cons item said ih =>
    intro o htaken
    obtain ⟨mid, hitem, hlater⟩ := exists_of_foldlM_cons htaken
    have hothers := ih hlater
    obtain rfl | hother := eq_or_ne item (.option (some .interactive))
    · obtain ⟨-, rfl⟩ := ok_of_ite hitem
      rwa [List.filter_cons_of_neg (by simp)]
    · rw [List.filter_cons_of_pos (by simp [hother]), List.foldlM_cons, takeItem_detached hother,
        hitem]
      exact hothers

/-- What decides before everything is said is no run. -/
theorem takeItem_ne_run (o : Options) (item : Item) (run : Options) :
    o.takeItem item ≠ .error (.run run) := by
  cases item with
  | file path => cases hfile : o.file <;> simp [takeItem, takeFile, hfile]
  | option flag =>
    rcases flag with _ | flag
    · simp [takeItem, take?]
    · cases flag with
      | interactive => cases hgiven : o.interactive <;> simp [takeItem, take?, take, hgiven]
      | demo => cases hgiven : o.demo <;> simp [takeItem, take?, take, hgiven]
      | verbose | help | version => simp [takeItem, take?, take]

/-- No item decides that a command is run. -/
theorem foldlM_takeItem_ne_run (said : List Item) (run : Options) :
    ∀ o : Options, said.foldlM takeItem o ≠ .error (.run run) := by
  induction said with
  | nil => intro o h; cases h
  | cons item said ih =>
    intro o
    rw [List.foldlM_cons]
    cases hitem : o.takeItem item with
    | ok mid => exact ih mid
    | error request =>
      have hrequest := o.takeItem_ne_run item run
      rwa [hitem] at hrequest

end Options

open Options (takeItem)

variable {arguments : List String} {o : Options}

/-- What the arguments ask for is what comes of taking what they say. -/
theorem ofArguments_eq (arguments : List String) : Request.ofArguments arguments =
    match (items arguments).foldlM takeItem .default with
    | .error request => request
    | .ok o => if o.demo = true ∧ o.file.isSome = true then .misuse else .run o := by
  have htaken := Options.takeAll_eq arguments .default
  unfold Request.ofArguments
  cases hall : Options.default.takeAll arguments with
  | error request => simp only [← htaken, hall]
  | ok o => simp only [← htaken, hall]

/-- A command line is run if all that it says can be taken, and that is not the sample together with
a file. -/
theorem ofArguments_eq_run_iff : Request.ofArguments arguments = .run o ↔
    (items arguments).foldlM takeItem .default = .ok o ∧
      ¬ (o.demo = true ∧ o.file.isSome = true) := by
  rw [ofArguments_eq]
  cases htaken : (items arguments).foldlM takeItem .default with
  | error request =>
    simp only [reduceCtorEq, false_and, iff_false]
    rintro rfl
    exact Options.foldlM_takeItem_ne_run _ _ _ htaken
  | ok taken =>
    dsimp only
    split
    · next hboth =>
      refine ⟨nofun, ?_⟩
      rintro ⟨hok, hnot⟩
      obtain rfl := Except.ok.inj hok
      exact absurd hboth hnot
    · next hnot =>
      rw [Request.run.injEq, Except.ok.injEq]
      exact ⟨fun heq => ⟨heq, heq ▸ hnot⟩, And.left⟩

/-- A command line that is run is run with the options that it says. -/
theorem says_of_ofArguments (h : Request.ofArguments arguments = .run o) :
    o.Says (items arguments) :=
  Options.says_default.takenAll (items arguments) (ofArguments_eq_run_iff.1 h).1

end CommandLine

/-- What a command leaves behind with an exit code and a session, for a reader at a verbosity. -/
def Outcome.left (result : Nat × Session) (verbosity : Nat) : Outcome :=
  ⟨result.1, result.2.sink.held, result.2.journal.shown (some (.ofVerbosity verbosity))⟩

namespace Invocation

open CommandLine (Options Request)

/-- A command line that is run comes to an end: it does what its options ask for, and what it says
besides is shown at the verbosity that its arguments ask for. -/
theorem respond_of_run {arguments : List String} {o : Options}
    (h : Request.ofArguments arguments = .run o) (files : String → FileStatus)
    (input : ByteArray) : respond arguments files input = .finished
      (.left (perform (.start Sink.working) o files input) (CommandLine.verbosity arguments)) := by
  have hverbosity : o.verbosity = CommandLine.verbosity arguments :=
    (CommandLine.says_of_ofArguments h).verbosity
  simp only [respond, h, hverbosity, Outcome.left]

end Invocation

end CatScript
