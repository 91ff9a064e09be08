import CatScript.Proofs.Conversation.Resumed

/-!
# A conversation is a fold over its lines

The lines of an input are what stands between its line feeds.  A conversation goes through them up
to the first one at which it stops.  What has been heard of it so far is a session in which the
lines have been submitted, one after the other, and the output, in which the prompts stand between
what the lines print; `Hearing.hear` adds a line to it.  The step is `Tracks.turn`, the loop
`exists_tracks_converseFrom`, and the top theorem `Repl.converse_eq_fold`.
-/

set_option autoImplicit false

namespace CatScript

/-! ## Lines -/

namespace Text

variable {α : Type} [DecidableEq α] {mark : α}

/-- No line has an end of line in it. -/
theorem not_mem_of_mem_lines {text line : List α} (h : line ∈ lines mark text) : mark ∉ line := by
  induction text generalizing line with
  | nil => simp [lines] at h
  | cons a rest ih =>
    unfold lines at h
    by_cases ha : a = mark
    · rw [if_pos ha] at h
      obtain rfl | hrest := List.mem_cons.1 h
      · exact List.not_mem_nil
      · exact ih hrest
    · rw [if_neg ha] at h
      have hfirst {first : List α} (hmem : mark ∉ first) : mark ∉ a :: first := by
        rw [List.mem_cons, not_or]
        exact ⟨fun heq => ha heq.symm, hmem⟩
      cases hlines : lines mark rest with
      | nil =>
        rw [hlines] at h
        obtain rfl := List.mem_singleton.1 h
        exact hfirst List.not_mem_nil
      | cons first others =>
        rw [hlines] at h ih
        obtain rfl | hothers := List.mem_cons.1 h
        · exact hfirst (ih List.mem_cons_self)
        · exact ih (List.mem_cons_of_mem first hothers)

/-- Only a text with nothing in it has no lines. -/
theorem lines_eq_nil_iff {text : List α} : lines mark text = [] ↔ text = [] := by
  cases text with
  | nil => simp [lines]
  | cons a rest =>
    unfold lines
    split
    · simp
    · split <;> simp

/-- The lines, each with an end of line behind it, are the text, with an end of line behind it if
there is something behind its last one. -/
theorem flatMap_lines (text : List α) : (lines mark text).flatMap (· ++ [mark]) =
    if text.getLast?.getD mark = mark then text else text ++ [mark] := by
  induction text with
  | nil => simp [lines]
  | cons a rest ih =>
    unfold lines
    by_cases ha : a = mark
    · rw [if_pos ha, List.flatMap_cons, ih, ha]
      cases rest with
      | nil => simp
      | cons b others =>
        rw [List.getLast?_cons_cons]
        split <;> simp
    · rw [if_neg ha]
      cases hlines : lines mark rest with
      | nil =>
        obtain rfl := lines_eq_nil_iff.1 hlines
        simp [ha]
      | cons first others =>
        rw [hlines, List.flatMap_cons] at ih
        cases rest with
        | nil => simp [lines] at hlines
        | cons b behind =>
          rw [List.getLast?_cons_cons, List.flatMap_cons, List.cons_append, List.cons_append, ih]
          split <;> rfl

end Text

namespace Repl

/-- The text of a line without the blanks at its ends, if the line is a text at all. -/
def textOf? (line : ByteArray) : Option String :=
  (String.fromUTF8? line).map fun text => String.ofList (Text.trim text.toList)

/-- Whether the conversation stops at a line: one that is no text, or that tells it to. -/
def stops (line : ByteArray) : Bool :=
  match textOf? line with
  | none => true
  | some text => text = "exit" ∨ text = "quit"

/-- The texts of the lines in front of the first one at which the conversation stops. -/
def textsOf (lines : List ByteArray) : List String :=
  (lines.takeWhile fun line => !stops line).filterMap textOf?

/-- How a conversation ends: its input is over, it is told to stop, or a line is no text. -/
inductive Ending
  | endOfInput
  | told
  | unreadable

namespace Ending

/-- How a conversation on lines ends. -/
def of (lines : List ByteArray) : Ending :=
  match lines.find? stops with
  | none => .endOfInput
  | some line => if (textOf? line).isSome then .told else .unreadable

/-- What a conversation says behind its last prompt. -/
def text : Ending → String
  | .endOfInput => "\n"
  | .told => farewell
  | .unreadable => ""

/-- What a conversation notes at its end. -/
def entries : Ending → Journal
  | .unreadable => #[.message "Error reading input: stream did not contain valid UTF-8"]
  | _ => #[]

/-- What a reader sees of that. -/
def notices : Ending → List Notice
  | .unreadable => [.line "Error reading input: stream did not contain valid UTF-8"]
  | _ => []

/-- What is noted at the end is seen at every level. -/
theorem shown_entries (ending : Ending) (level : Option Level) :
    ending.entries.shown level = ending.notices := by
  cases ending with
  | endOfInput | told => rfl
  | unreadable => cbv

end Ending

/-- The bytes that a session has printed since an earlier one. -/
def printed (earlier later : Session) : ByteArray :=
  later.sink.held.extract earlier.sink.held.size later.sink.held.size

/-- What has been heard of a conversation: the session in which its lines were submitted, all of the
output, and the lines that failed, with their errors. -/
structure Hearing where
  evaluator : Session
  output : ByteArray
  failures : List (String × Error)

namespace Hearing

/-- What is heard before the first line. -/
def begin (scope : Scope) : Hearing := ⟨.fresh scope, banner.toUTF8, []⟩

/-- What has been heard behind one more line: a prompt, and if the line is not blank, what it prints
and the error of the script that it is. -/
def hear (heard : Hearing) (text : String) : Hearing :=
  if text = "" then { heard with output := heard.output ++ prompt.toUTF8 }
  else
    let after := (heard.evaluator.submit text).2
    { evaluator := after
      output := heard.output ++ prompt.toUTF8 ++ printed heard.evaluator after
      failures := heard.failures ++ ((heard.evaluator.runText text).1.map (text, ·)).toList }

/-- What a reader who sees no records sees of it: the reports of the errors, in order. -/
def notices (heard : Hearing) : List Notice :=
  heard.failures.map fun (text, e) => .diagnostic (e.diagnose text none)

/-- What has been heard of a conversation on lines behind its last line. -/
def ofLines (scope : Scope) (lines : List ByteArray) : Hearing :=
  (textsOf lines).foldl hear (begin scope)

end Hearing

/-! ## A single line -/

variable {s before : Session} {heard : Hearing} {line : ByteArray} {text : String}

/-- A line at which the conversation goes on is a text, and none of the words that stop it. -/
theorem exists_text_of_not_stops (h : stops line = false) :
    ∃ text, textOf? line = some text ∧ text ≠ "exit" ∧ text ≠ "quit" := by
  unfold stops at h
  cases htext : textOf? line with
  | none => simp [htext] at h
  | some text => simpa [htext] using h

/-- A line is answered by its text. -/
theorem answer_eq (s : Session) (line : ByteArray) :
    answer s line =
      match textOf? line with
      | none =>
        .stop (s.note (.message "Error reading input: stream did not contain valid UTF-8"))
      | some text =>
        if text = "" then .proceed s
        else if text = "exit" ∨ text = "quit" then .stop (say s farewell)
        else .proceed (s.submit text).2 := by
  unfold answer textOf?
  cases String.fromUTF8? line <;> rfl

/-- A line at which the conversation stops is answered with a farewell, or with a complaint. -/
theorem answer_of_stops (h : stops line = true) (s : Session) :
    answer s line = .stop (if (textOf? line).isSome then say s farewell
      else s.note (.message "Error reading input: stream did not contain valid UTF-8")) := by
  rw [answer_eq]
  cases htext : textOf? line with
  | none => rfl
  | some text =>
    have hword : text = "exit" ∨ text = "quit" := by simpa [stops, htext] using h
    have hblank : text ≠ "" := by
      rintro rfl
      exact absurd hword (by decide)
    simp only [if_neg hblank, if_pos hword]
    rfl

/-- What is said on a sink that never fails is added to the output, and nothing else changes. -/
theorem held_say (h : s.sink.NeverFails) (text : String) :
    (say s text).sink.held = s.sink.held ++ text.toUTF8 ∧ (say s text).sink.NeverFails := by
  simp only [say, Sink.write, h.1]
  exact ⟨trivial, h⟩

/-- The session behind a prompt that was flushed. -/
def prompted (s : Session) : Session :=
  { say s prompt with sink := (say s prompt).sink.flush.2 }

/-- On a sink that never fails the prompt is flushed. -/
theorem ask_eq (h : s.sink.NeverFails) : ask s = .proceed (prompted s) := by
  have hflush : (say s prompt).sink.flush.1 = none := (held_say h prompt).2.2 _ _ _
  simp only [ask, hflush, prompted]

/-- The prompt is added to the output. -/
theorem held_prompted (h : s.sink.NeverFails) :
    (prompted s).sink.held = s.sink.held ++ prompt.toUTF8 ∧ (prompted s).sink.NeverFails :=
  held_say h prompt

/-- A line is answered behind the prompt. -/
theorem turn_eq (h : s.sink.NeverFails) (line : ByteArray) :
    turn s line = answer (prompted s) line := by
  rw [turn, ask_eq h]

/-- What a line prints behind a past is what it prints in a session that has none. -/
theorem held_submit (h : s.sink.NeverFails) (text : String) :
    (s.submit text).2.sink.held =
      s.sink.held ++ ((Session.fresh s.scope).submit text).2.sink.held :=
  ((Session.continues_fresh h).submit text).2.output

/-- What a line prints does not depend on the past of the session. -/
theorem printed_submit (h : s.sink.NeverFails) (text : String) :
    printed s (s.submit text).2 = ((Session.fresh s.scope).submit text).2.sink.held := by
  rw [printed, held_submit h, ByteArray.extract_append_eq_right rfl ByteArray.size_append]

/-- A session in a conversation and what has been heard of it. -/
structure Tracks (before : Session) (heard : Hearing) (s : Session) : Prop where
  scope : s.scope = heard.evaluator.scope
  output : s.sink.held = before.sink.held ++ heard.output
  entries : s.journal = before.journal ++ heard.evaluator.journal
  sink : s.sink.NeverFails
  evaluator : heard.evaluator.sink.NeverFails
  reports : ∀ level, Journal.Quiet level →
    heard.evaluator.journal.shown level = heard.notices

namespace Tracks

/-- Before the first line only the greeting has been heard. -/
theorem greet (h : before.sink.NeverFails) :
    Tracks before (.begin before.scope) (greet before) where
  scope := rfl
  output := (held_say h banner).1
  entries := (Array.append_empty).symm
  sink := (held_say h banner).2
  evaluator := Sink.working_neverFails
  reports _ _ := rfl

/-- A prompt is heard as part of the output. -/
theorem prompt (h : Tracks before heard s) :
    Tracks before { heard with output := heard.output ++ prompt.toUTF8 } (prompted s) :=
  { h with
    output := by rw [(held_prompted h.sink).1, h.output, ByteArray.append_assoc]
    sink := (held_prompted h.sink).2 }

/-- The next line is heard, whatever becomes of it. -/
theorem turn (h : Tracks before heard s) (hstops : stops line = false)
    (htext : textOf? line = some text) :
    ∃ after, Repl.turn s line = .proceed after ∧ Tracks before (heard.hear text) after := by
  obtain ⟨_, htext', hexit, hquit⟩ := exists_text_of_not_stops hstops
  obtain rfl := Option.some.inj (htext.symm.trans htext')
  have hprompt := h.prompt
  rw [turn_eq h.sink, answer_eq, htext]
  dsimp only
  by_cases hblank : text = ""
  · rw [if_pos hblank]
    refine ⟨_, rfl, ?_⟩
    rw [Hearing.hear, if_pos hblank]
    exact hprompt
  · rw [if_neg hblank, if_neg (not_or.2 ⟨hexit, hquit⟩)]
    refine ⟨_, rfl, ?_⟩
    rw [Hearing.hear, if_neg hblank]
    -- Either of the two sessions does with the line what a fresh one at their scope does.
    have hscope : (prompted s).scope = heard.evaluator.scope := hprompt.scope
    obtain ⟨-, hsubmit⟩ := (Session.continues_fresh hprompt.sink).submit text
    obtain ⟨-, hheard⟩ := (Session.continues_fresh h.evaluator).submit text
    rw [hscope] at hsubmit
    exact {
      scope := hsubmit.scope.trans hheard.scope.symm
      output := by
        rw [held_submit hprompt.sink, hprompt.output, hscope]
        dsimp only
        rw [printed_submit h.evaluator, ByteArray.append_assoc]
      entries := by
        rw [hsubmit.entries, hheard.entries, hprompt.entries, Array.append_assoc]
      sink := hsubmit.neverFails
      evaluator := hheard.neverFails
      reports := fun level hquiet => by
        rw [Session.shown_submit hquiet h.evaluator, h.reports level hquiet, Hearing.notices,
          Hearing.notices, List.map_append]
        cases (heard.evaluator.runText text).1 <;> rfl }

end Tracks

/-- A line at which the conversation stops ends it as the line says, and leaves the scope. -/
theorem turn_of_stops (hsink : s.sink.NeverFails) (h : stops line = true)
    (rest : List ByteArray) :
    ∃ after, turn s line = .stop after ∧ after.scope = s.scope ∧
      after.sink.held = s.sink.held ++ (prompt ++ (Ending.of (line :: rest)).text).toUTF8 ∧
      after.journal = s.journal ++ (Ending.of (line :: rest)).entries := by
  obtain ⟨hheld, hsaid⟩ := held_prompted hsink
  have hending : Ending.of (line :: rest) =
      if (textOf? line).isSome then .told else .unreadable := by
    rw [Ending.of, List.find?_cons, h]
  rw [turn_eq hsink, answer_of_stops h, hending]
  refine ⟨_, rfl, ?_⟩
  cases textOf? line with
  | none =>
    refine ⟨rfl, ?_, Array.push_eq_append⟩
    change (prompted s).sink.held = _
    rw [hheld]
    rfl
  | some text =>
    refine ⟨rfl, ?_, (Array.append_empty).symm⟩
    change (say (prompted s) farewell).sink.held = _
    rw [(held_say hsaid farewell).1, hheld, ByteArray.append_assoc]
    rfl

/-- The loop.  What is heard of the lines up to the first one at which the conversation stops is
what there is when the last prompt is written, and behind it stands only how it ends. -/
theorem exists_tracks_converseFrom (lines : List ByteArray) :
    ∀ {s heard}, Tracks before heard s →
      ∃ last, Tracks before ((textsOf lines).foldl Hearing.hear heard) last ∧
        (converseFrom s lines).scope = last.scope ∧
        (converseFrom s lines).sink.held =
          last.sink.held ++ (prompt ++ (Ending.of lines).text).toUTF8 ∧
        (converseFrom s lines).journal = last.journal ++ (Ending.of lines).entries := by
  induction lines with
  | nil =>
    intro s heard h
    obtain ⟨hheld, hsaid⟩ := held_prompted h.sink
    have hfinish : finish s = leave (prompted s) := by rw [finish, ask_eq h.sink]
    rw [converseFrom, hfinish]
    refine ⟨s, h, rfl, ?_, (Array.append_empty).symm⟩
    change (say (prompted s) "\n").sink.held = _
    rw [(held_say hsaid _).1, hheld, ByteArray.append_assoc]
    rfl
  | cons line rest ih =>
    intro s heard h
    cases hstops : stops line with
    | true =>
      obtain ⟨after, hturn, hscope, hheld, hjournal⟩ := turn_of_stops h.sink hstops rest
      have hnone : textsOf (line :: rest) = [] := by simp [textsOf, hstops]
      rw [hnone, converseFrom, hturn]
      exact ⟨s, h, hscope, hheld, hjournal⟩
    | false =>
      obtain ⟨text, htext, -⟩ := exists_text_of_not_stops hstops
      obtain ⟨after, hturn, hafter⟩ := h.turn hstops htext
      have hcons : textsOf (line :: rest) = text :: textsOf rest := by
        simp [textsOf, hstops, htext]
      have hending : Ending.of (line :: rest) = Ending.of rest := by
        rw [Ending.of, Ending.of, List.find?_cons, hstops]
      rw [hcons, hending, converseFrom, hturn]
      exact ih hafter

/-- Where the prompt cannot be flushed, the failure is recorded, and no line is looked at. -/
theorem converseFrom_of_refused {reason : String} {sink : Sink}
    (h : (say s prompt).sink.flush = (some reason, sink)) (lines : List ByteArray) :
    converseFrom s lines = { say s prompt with sink := sink }.note
      (.record ⟨.error, .repl, s!"failed to flush prompt: {reason}"⟩) := by
  have hask : ask s = .stop ({ say s prompt with sink := sink }.note
      (.record ⟨.error, .repl, s!"failed to flush prompt: {reason}"⟩)) := by
    simp only [ask, h]
  cases lines with
  | nil => rw [converseFrom, finish, hask]
  | cons line rest => rw [converseFrom, turn, hask]

/-! ## What stands behind the end -/

/-- The lines of an input have no line feeds in them, and are the input once each is ended with one.
-/
theorem linesOf_spec (input : ByteArray) :
    (∀ line ∈ linesOf input, (10 : UInt8) ∉ line.data.toList) ∧
      (linesOf input).flatMap (fun line => line.data.toList ++ [10]) =
        if input.toList.getLast?.getD 10 = 10 then input.toList else input.toList ++ [10] := by
  refine ⟨fun line hline => ?_, ?_⟩
  · obtain ⟨piece, hpiece, rfl⟩ := List.mem_map.1 hline
    exact Text.not_mem_of_mem_lines hpiece
  · rw [linesOf, List.flatMap_map, ← Text.flatMap_lines]

/-- No line behind one at which the conversation stops is looked at. -/
theorem converseFrom_of_stops (h : stops line = true) (front rest others : List ByteArray) :
    ∀ s, converseFrom s (front ++ line :: rest) = converseFrom s (front ++ line :: others) := by
  induction front with
  | nil =>
    intro s
    rw [List.nil_append, List.nil_append, converseFrom, converseFrom, turn]
    cases ask s with
    | proceed after => simp only [answer_of_stops h]
    | stop after => rfl
  | cons first behind ih =>
    intro s
    rw [List.cons_append, List.cons_append, converseFrom, converseFrom]
    cases turn s first with
    | proceed after => exact ih after
    | stop after => rfl

/-- A conversation on a sink that never fails is a fold over the lines in front of the first one at
which it stops.  Each of them is submitted, unless it is blank, in the session that those in front
of it leave, and the output is the greeting, then for each of them the prompt and what it prints,
then the last prompt and what is said at the end.  A reader who sees no records sees the report of
each line that fails as a script, once and in order, and nothing more but a complaint about a line
that is no text.  The lines are what stands between the line feeds of the input, and nothing behind
the one at which the conversation stops has any effect. -/
theorem converse_eq_fold (s : Session) (input : ByteArray) (hsink : s.sink.NeverFails) :
    let lines := linesOf input
    let heard := Hearing.ofLines s.scope lines
    let ending := Ending.of lines
    (converse s input).scope = heard.evaluator.scope ∧
    (converse s input).sink.held =
      s.sink.held ++ heard.output ++ (prompt ++ ending.text).toUTF8 ∧
    (converse s input).journal = s.journal ++ heard.evaluator.journal ++ ending.entries ∧
    (∀ level, level = none ∨ level = some .warn → (converse s input).journal.shown level =
      s.journal.shown level ++ heard.notices ++ ending.notices) ∧
    (∀ line ∈ lines, (10 : UInt8) ∉ line.data.toList) ∧
    lines.flatMap (fun line => line.data.toList ++ [10]) =
      (if input.toList.getLast?.getD 10 = 10 then input.toList else input.toList ++ [10]) ∧
    ∀ other front line rest others, lines = front ++ line :: rest →
      linesOf other = front ++ line :: others → stops line = true →
      converse s other = converse s input := by
  intro lines heard ending
  obtain ⟨last, hlast, hscope, hheld, hjournal⟩ : ∃ last, Tracks s heard last ∧ _ :=
    exists_tracks_converseFrom lines (Tracks.greet hsink)
  have hentries : (converse s input).journal =
      s.journal ++ heard.evaluator.journal ++ ending.entries := by
    rw [converse, hjournal, hlast.entries]
  refine ⟨hscope.trans hlast.scope, ?_, hentries, fun level hquiet => ?_, (linesOf_spec input).1,
    (linesOf_spec input).2, fun other front line rest others hlines hother hstops => ?_⟩
  · rw [converse, hheld, hlast.output]
  · rw [hentries, Journal.shown_append, Journal.shown_append, ending.shown_entries,
      hlast.reports level hquiet]
  · rw [converse, converse, hother, show linesOf input = _ from hlines]
    exact converseFrom_of_stops hstops front others rest _

/-- A line that fails, a blank one, one with a carriage return, and an answer. -/
def chat : List ByteArray := ["y".toUTF8, "".toUTF8, "meow x = 1\r".toUTF8, " x".toUTF8]

/-- These lines and the end. -/
def talk : ByteArray := "y\n\nmeow x = 1\r\n x\nexit".toUTF8

/-- These lines, the end, and more. -/
def chatter : ByteArray := "y\n\nmeow x = 1\r\n x\nexit\nx\n".toUTF8

/-- The lines of the talk. -/
theorem linesOf_talk : linesOf talk = chat ++ ["exit".toUTF8] := by cbv

/-- The lines of the chatter, which go on behind the end. -/
theorem linesOf_chatter : linesOf chatter = chat ++ ["exit".toUTF8, "x".toUTF8] := by cbv

/-- The texts in front of the end, with the blanks at their ends taken off. -/
theorem textsOf_talk : textsOf (linesOf talk) = ["y", "", "meow x = 1", "x"] := by
  rw [linesOf_talk]
  cbv

/-- The line that fails is reported and does not end the conversation, the variable is kept, and
what stands behind the end is not looked at. -/
theorem converse_eq_fold_talk :
    (Session.start Sink.working).sink.NeverFails ∧
      (converse (Session.start Sink.working) talk).sink.held =
        (banner ++ "> > > > 1\n> Goodbye!\n").toUTF8 ∧
      (converse (Session.start Sink.working) talk).journal.shown (some .warn) =
        [.diagnostic ((Error.of (.undefinedVariable "y") ⟨0, 1, 1, 1⟩).diagnose "y" none)] ∧
      converse (Session.start Sink.working) chatter =
        converse (Session.start Sink.working) talk := by
  have houtput : (Hearing.ofLines Scope.empty (linesOf talk)).output =
      (banner ++ "> > > > 1\n").toUTF8 := by
    rw [Hearing.ofLines, textsOf_talk]
    cbv
  have hfailures : (Hearing.ofLines Scope.empty (linesOf talk)).failures =
      [("y", .of (.undefinedVariable "y") ⟨0, 1, 1, 1⟩)] := by
    rw [Hearing.ofLines, textsOf_talk]
    cbv
  have hending : Ending.of (linesOf talk) = .told := by
    rw [linesOf_talk]
    cbv
  have hstops : stops "exit".toUTF8 = true := by cbv
  obtain ⟨-, hheld, -, hshown, -, -, hbehind⟩ :=
    converse_eq_fold (Session.start Sink.working) talk Sink.working_neverFails
  refine ⟨Sink.working_neverFails, ?_, ?_, ?_⟩
  · refine hheld.trans ?_
    change ByteArray.empty ++ (Hearing.ofLines Scope.empty (linesOf talk)).output ++ _ = _
    rw [houtput, hending]
    rfl
  · refine (hshown _ (.inr rfl)).trans ?_
    change [] ++ (Hearing.ofLines Scope.empty (linesOf talk)).notices ++ _ = _
    rw [Hearing.notices, hfailures, hending]
    rfl
  · exact hbehind chatter chat "exit".toUTF8 [] ["x".toUTF8] linesOf_talk linesOf_chatter hstops

end Repl

end CatScript
