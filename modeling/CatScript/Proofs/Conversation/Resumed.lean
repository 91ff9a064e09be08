import CatScript.Proofs.Conversation.Step

/-!
# Sessions with a past

On a sink that never fails, what a session does depends on its scope alone.  A session that has
printed and noted something already prints and notes the same as one that has not, behind what is
there (`Continues`).  Runs only enter records, which a reader does not see at a level that is quiet,
so that a reader at such a level sees the reports of errors and nothing else (`shown_submit`).
-/

set_option autoImplicit false

namespace CatScript

/-! ## What a reader sees -/

namespace Journal

variable {level : Option Level}

/-- A level at which no record is seen that a run enters, or no level at all. -/
def Quiet (level : Option Level) : Prop := level = none ∨ level = some .warn

/-- A reader sees of two journals what there is to see of each. -/
theorem shown_append (journal others : Journal) (level : Option Level) :
    Journal.shown (journal ++ others) level = journal.shown level ++ others.shown level := by
  simp [shown]

/-- A reader sees a new entry behind the others, if it is one to be seen. -/
theorem shown_push (journal : Journal) (entry : Entry) (level : Option Level) :
    Journal.shown (journal.push entry) level =
      journal.shown level ++ Journal.shown #[entry] level := by
  rw [Array.push_eq_append, shown_append]

end Journal

namespace Session

variable {level : Option Level}

/-- At a quiet level no record is seen but a warning. -/
theorem shown_record (hquiet : Journal.Quiet level) (s : Session) (detail : Level)
    (hdetail : detail ≠ .warn) (topic : Topic) (message : String) :
    (s.record detail topic message).journal.shown level = s.journal.shown level := by
  have hhidden : Entry.isShown level (.record ⟨.detail detail, topic, message⟩) = false := by
    obtain rfl | rfl := hquiet
    · rfl
    · cases detail <;> first | exact absurd rfl hdetail | rfl
  change Journal.shown (s.journal.push _) level = _
  rw [Journal.shown_push]
  simp [Journal.shown, hhidden]

/-- The report of an error is seen at every level. -/
theorem shown_report (s : Session) (e : Error) (source : String) (file : Option String) :
    (s.report e source file).journal.shown level =
      s.journal.shown level ++ [.diagnostic (e.diagnose source file)] :=
  s.journal.shown_push _ level

/-- A reader at a quiet level does not see that a statement is executed. -/
theorem shown_exec (hquiet : Journal.Quiet level) (s : Session) (statement : Stmt) :
    (s.exec statement).2.journal.shown level = s.journal.shown level := by
  rw [exec_eq_settle]
  cases statement.deed s.scope with
  | error e => rfl
  | ok deed =>
    cases deed with
    | nothing => rfl
    | print | define => exact shown_record hquiet s .trace nofun _ _
    | declare => exact shown_record hquiet s .debug nofun _ _

/-- A reader at a quiet level does not see that a text is read. -/
theorem shown_read (hquiet : Journal.Quiet level) (s : Session) (source : String) :
    (s.read source).2.journal.shown level = s.journal.shown level := by
  unfold read
  cases Token.ofText source with
  | error e => rfl
  | ok tokens =>
    dsimp only
    have hlexed := shown_record hquiet s .debug nofun .lexer s!"lexed {tokens.length} tokens"
    cases Program.ofTokens tokens with
    | error e => exact hlexed
    | ok program => exact (shown_record hquiet _ .debug nofun _ _).trans hlexed

/-- A reader at a quiet level does not see that a script is run. -/
theorem shown_runText (hquiet : Journal.Quiet level) (s : Session) (source : String) :
    (s.runText source).2.journal.shown level = s.journal.shown level := by
  have hread := shown_read hquiet s source
  unfold runText
  rcases hresult : s.read source with ⟨outcome, mid⟩
  rw [hresult] at hread
  cases outcome with
  | error e => exact hread
  | ok program =>
    have hrun : (mid.run program).2.journal.shown level = mid.journal.shown level :=
      @run_keeps (List Notice) (fun s => s.journal.shown level) (shown_exec hquiet) (fun _ _ => rfl)
        program mid
    exact hrun.trans hread

/-- What a reader at a quiet level sees of a line is the report of the error of the script that the
line is, and nothing if the script does not fail. -/
theorem shown_submit (hquiet : Journal.Quiet level) {s : Session} (hsink : s.sink.NeverFails)
    (line : String) :
    (s.submit line).2.journal.shown level = s.journal.shown level ++
      ((s.runText line).1.map fun e => Notice.diagnostic (e.diagnose line none)).toList := by
  have hrun := shown_runText hquiet s line
  cases outcome hsink line with
  | failed e after hfails hsubmit =>
    rw [hfails] at hrun ⊢
    rw [hsubmit, shown_report, hrun]
    rfl
  | ran program after _ _ hsucceeds hsubmit =>
    rw [hsucceeds] at hrun ⊢
    rw [hsubmit, hrun]
    exact (List.append_nil _).symm
  | answered program v after later _ _ _ hsucceeds hsubmit _ hjournal _ =>
    rw [hsucceeds] at hrun ⊢
    rw [hsubmit, hjournal, hrun]
    exact (List.append_nil _).symm

/-! ## What is done behind a past -/

/-- The second session is the first one behind a past: it is at the same scope, and holds more
output and more entries in front.  Neither of the two sinks ever fails. -/
structure Continues (held : ByteArray) (past : Journal) (s t : Session) : Prop where
  scope : t.scope = s.scope
  output : t.sink.held = held ++ s.sink.held
  entries : t.journal = past ++ s.journal
  fresh : s.sink.NeverFails
  neverFails : t.sink.NeverFails

/-- A session that has printed and noted nothing, at a scope. -/
def fresh (scope : Scope) : Session := ⟨scope, Sink.working, #[]⟩

/-- Every session on a sink that never fails is a fresh one behind its past. -/
theorem continues_fresh {s : Session} (h : s.sink.NeverFails) :
    Continues s.sink.held s.journal (fresh s.scope) s where
  scope := rfl
  output := by simp [fresh, Sink.working, Sink.ofPolicy]
  entries := by simp [fresh]
  fresh := Sink.working_neverFails
  neverFails := h

section Continues

variable {held : ByteArray} {past : Journal} {s t : Session}

/-- The same entry behind a past. -/
theorem Continues.note (h : Continues held past s t) (entry : Entry) :
    Continues held past (s.note entry) (t.note entry) :=
  { h with entries := by simp [Session.note, h.entries] }

/-- The same change of the scope behind a past. -/
theorem Continues.withScope (h : Continues held past s t) {scope scope' : Scope}
    (hscope : scope' = scope) :
    Continues held past { s with scope := scope } { t with scope := scope' } :=
  { h with scope := hscope }

/-- A line is printed behind a past as without one. -/
theorem Continues.print (h : Continues held past s t) (text : String) (span : Span) :
    Agree id (Continues held past) (s.print text span) (t.print text span) := by
  simp only [Session.print, Sink.write, h.fresh.1, h.neverFails.1]
  exact ⟨rfl, { h with output := by rw [h.output, ByteArray.append_assoc] }⟩

/-- A flush is granted behind a past as without one. -/
theorem Continues.flush (h : Continues held past s t) (span : Span) :
    Agree id (Continues held past) (s.flush span) (t.flush span) := by
  simp only [Session.flush, Sink.flush, h.fresh.2 _ _ _, h.neverFails.2 _ _ _]
  exact ⟨rfl, { h with }⟩

/-- What a statement does behind a past is what it does without one. -/
theorem Continues.perform (h : Continues held past s t) (span : Span) (deed : Deed) :
    Agree id (Continues held past) (s.perform span deed) (t.perform span deed) := by
  cases deed with
  | nothing => exact ⟨rfl, h⟩
  | print text => exact (h.note _).print text span
  | define name value => exact ⟨rfl, (h.note _).withScope (congrArg (·.define name value) h.scope)⟩
  | declare name arity =>
    exact ⟨rfl, (h.note _).withScope (congrArg (·.declare name arity) h.scope)⟩

/-- A statement is executed behind a past as without one. -/
theorem Continues.exec (h : Continues held past s t) (statement : Stmt) :
    Agree id (Continues held past) (s.exec statement) (t.exec statement) := by
  rw [exec_eq_settle, exec_eq_settle, h.scope]
  refine settle_agree (f := id) h rfl fun deed deed' hdeed => ?_
  obtain rfl : deed = deed' := hdeed
  exact h.perform statement.span deed

/-- A program is run behind a past as without one. -/
theorem Continues.run (h : Continues held past s t) (program : Program) :
    Agree id (Continues held past) (s.run program) (t.run program) := by
  have hexec {a b : Stmt} (hab : id a = id b) {s t : Session} (h : Continues held past s t) :
      Agree id (Continues held past) (s.exec a) (t.exec b) := by
    obtain rfl : a = b := hab
    exact h.exec a
  exact run_agree rfl hexec (fun h => h.flush _) h

/-- A line is printed and flushed behind a past as without one. -/
theorem Continues.printLine (h : Continues held past s t) (text : String) (span : Span) :
    Agree id (Continues held past) (s.printLine text span) (t.printLine text span) := by
  have hsteps (u : Session) :
      u.printLine text span = andThen (u.print text span) (·.flush span) := by
    unfold Session.printLine
    rcases u.print text span with ⟨_ | e, mid⟩ <;> rfl
  rw [hsteps, hsteps]
  exact (h.print text span).andThen fun h => h.flush span

/-- A text is read behind a past as without one. -/
theorem Continues.read (h : Continues held past s t) (source : String) :
    Continues held past (s.read source).2 (t.read source).2 := by
  unfold Session.read
  cases Token.ofText source with
  | error e => exact h
  | ok tokens =>
    dsimp only
    cases Program.ofTokens tokens with
    | error e => exact h.note _
    | ok program => exact (h.note _).note _

/-- A line is attempted behind a past as without one, and comes to the same. -/
theorem Continues.attempt (h : Continues held past s t) (line : String) :
    (s.attempt line).1 = (t.attempt line).1 ∧
      Continues held past (s.attempt line).2 (t.attempt line).2 := by
  obtain ⟨mid, hs, -⟩ := s.exists_read line
  obtain ⟨mid', ht, -⟩ := t.exists_read line
  have hread : Continues held past mid mid' := by simpa only [hs, ht] using h.read line
  unfold Session.attempt
  rw [hs, ht]
  cases Program.ofText line with
  | error e => exact ⟨rfl, hread⟩
  | ok program =>
    dsimp only
    cases program.echoed? with
    | some expression =>
      dsimp only
      rw [hread.scope]
      cases expression.eval mid.scope with
      | error e => exact ⟨rfl, hread⟩
      | ok v =>
        obtain ⟨after, after', hx, hy, hafter⟩ | ⟨e, after, after', hx, hy, hafter⟩ :=
          (hread.printLine v.text expression.span).cases
        · simp only [hx, hy]
          exact ⟨trivial, hafter⟩
        · simp only [hx, hy]
          exact ⟨trivial, hafter⟩
    | none =>
      obtain ⟨after, after', hx, hy, hafter⟩ | ⟨e, after, after', hx, hy, hafter⟩ :=
        (hread.run program).cases
      · simp only [hx, hy]
        exact ⟨trivial, hafter⟩
      · simp only [hx, hy]
        exact ⟨trivial, hafter⟩

/-- A line has the same answer behind a past, prints the same, and is reported in the same way. -/
theorem Continues.submit (h : Continues held past s t) (line : String) :
    (s.submit line).1 = (t.submit line).1 ∧
      Continues held past (s.submit line).2 (t.submit line).2 := by
  have hattempt := h.attempt line
  rw [submit_eq_attempt, submit_eq_attempt]
  generalize s.attempt line = x at hattempt ⊢
  generalize t.attempt line = y at hattempt ⊢
  obtain ⟨outcome, after⟩ := x
  obtain ⟨outcome', after'⟩ := y
  obtain ⟨houtcome, hleft⟩ := hattempt
  obtain rfl : outcome = outcome' := houtcome
  cases outcome with
  | ok answer => exact ⟨rfl, hleft⟩
  | error e => exact ⟨rfl, hleft.note _⟩

end Continues

end Session

end CatScript
