import CatScript.Model.Session

/-!
# Steps one after the other

The execution of statements and the run of a program go on after a step that succeeded, and stop at
one that failed.  `Session.andThen` is that way of going on.  What fails, what is kept, and in which
order the parts are put together are facts about it; that an execution and a run are made with it
are `execAll_cons` and `run_eq_andThen`.  Two runs of which every step agrees agree as a whole
(`run_agree`), whatever relation of errors and of sessions is meant by that.
-/

set_option autoImplicit false

namespace CatScript.Session

variable {x : Option Error × Session} {next last : Session → Option Error × Session}

/-- A step, and what the session after it does unless it failed. -/
def andThen (x : Option Error × Session) (next : Session → Option Error × Session) :
    Option Error × Session :=
  match x with
  | (none, s) => next s
  | (some e, s) => (some e, s)

/-- A step and what comes after it can be put together in either order. -/
theorem andThen_assoc :
    andThen (andThen x next) last = andThen x fun s => andThen (next s) last := by
  obtain ⟨_ | e, s⟩ := x <;> rfl

/-- What succeeds are the step and what comes after it. -/
theorem andThen_eq_none {after : Session} (h : andThen x next = (none, after)) :
    ∃ mid, x = (none, mid) ∧ next mid = (none, after) := by
  obtain ⟨_ | e, s⟩ := x
  · exact ⟨s, rfl, h⟩
  · simp [andThen] at h

/-- What fails is the step or what comes after it. -/
theorem andThen_eq_error {e : Error} {after : Session} (h : andThen x next = (some e, after)) :
    x = (some e, after) ∨ ∃ mid, next mid = (some e, after) := by
  obtain ⟨_ | e', s⟩ := x
  · exact .inr ⟨s, h⟩
  · exact .inl h

/-- What a step keeps and what comes after it keeps is kept. -/
theorem andThen_keeps {α : Type} {view : Session → α} {kept : α} (hx : view x.2 = kept)
    (hnext : ∀ s, view (next s).2 = view s) : view (andThen x next).2 = kept := by
  obtain ⟨_ | e, s⟩ := x
  · exact (hnext s).trans hx
  · exact hx

/-- Statements are executed as the first one and then the others. -/
theorem execAll_cons (s : Session) (statement : Stmt) (rest : List Stmt) :
    s.execAll (statement :: rest) = andThen (s.exec statement) (·.execAll rest) := by
  rw [execAll]
  rcases s.exec statement with ⟨_ | e, mid⟩ <;> rfl

/-- A run is the execution of the statements and then a flush. -/
theorem run_eq_andThen (s : Session) (program : Program) :
    s.run program = andThen (s.execAll program.statements) (·.flush program.lastSpan) := by
  rw [run]
  rcases s.execAll program.statements with ⟨_ | e, mid⟩ <;> rfl

/-- Statements and further ones behind them are executed one after the other. -/
theorem execAll_append (statements others : List Stmt) : ∀ s : Session,
    s.execAll (statements ++ others) = andThen (s.execAll statements) (·.execAll others) := by
  induction statements with
  | nil => exact fun s => rfl
  | cons statement rest ih =>
    intro s
    rw [List.cons_append, execAll_cons, execAll_cons, andThen_assoc]
    exact congrArg (andThen (s.exec statement)) (funext ih)

/-- A flush that is granted changes nothing but the count of the sink. -/
theorem flush_of_granted {s : Session} (h : s.sink.policy.FlushNeverFails) (span : Span) :
    s.flush span = (none, { s with sink := s.sink.flush.2 }) := by
  simp only [flush, Sink.flush, h s.sink.writes s.sink.flushes s.sink.held, Option.map_none]

/-- The flush behind the statements leaves the scope to them. -/
theorem scope_run (s : Session) (program : Program) :
    (s.run program).2.scope = (s.execAll program.statements).2.scope := by
  rw [run_eq_andThen]
  rcases s.execAll program.statements with ⟨_ | e, mid⟩ <;> rfl

/-- The flush behind the statements leaves the output to them. -/
theorem held_run (s : Session) (program : Program) :
    (s.run program).2.sink.held = (s.execAll program.statements).2.sink.held := by
  rw [run_eq_andThen]
  rcases s.execAll program.statements with ⟨_ | e, mid⟩ <;> rfl

/-- What every statement and every flush keeps is kept by every run. -/
theorem run_keeps {α : Type} {view : Session → α}
    (hexec : ∀ s statement, view (exec s statement).2 = view s)
    (hflush : ∀ s span, view (flush s span).2 = view s) (program : Program) (s : Session) :
    view (s.run program).2 = view s := by
  have hexecAll : ∀ (statements : List Stmt) (s : Session),
      view (s.execAll statements).2 = view s := by
    intro statements
    induction statements with
    | nil => exact fun s => rfl
    | cons statement rest ih =>
      intro s
      rw [execAll_cons]
      exact andThen_keeps (hexec s statement) ih
  rw [run_eq_andThen]
  exact andThen_keeps (hexecAll program.statements s) fun s => hflush s program.lastSpan

/-! ## Two runs in step -/

/-- Two steps agree: both succeed, or both fail with errors that look alike, and the sessions that
they leave are related. -/
structure Agree {α : Type} (look : Error → α) (sessions : Session → Session → Prop)
    (x y : Option Error × Session) : Prop where
  outcome : x.1.map look = y.1.map look
  left : sessions x.2 y.2

/-- Two steps that agree both succeed, or both fail with the same error. -/
theorem Agree.cases {sessions : Session → Session → Prop} {y : Option Error × Session}
    (h : Agree id sessions x y) :
    (∃ s t, x = (none, s) ∧ y = (none, t) ∧ sessions s t) ∨
      ∃ e s t, x = (some e, s) ∧ y = (some e, t) ∧ sessions s t := by
  obtain ⟨_ | e, s⟩ := x
  · obtain ⟨_ | e', t⟩ := y
    · exact .inl ⟨s, t, rfl, rfl, h.left⟩
    · exact absurd h.outcome (by simp)
  · obtain ⟨_ | e', t⟩ := y
    · exact absurd h.outcome (by simp)
    · obtain rfl : e = e' := by simpa using h.outcome
      exact .inr ⟨e, s, t, rfl, rfl, h.left⟩

section Agree

variable {α : Type} {look : Error → α} {sessions : Session → Session → Prop}
variable {y : Option Error × Session} {next' : Session → Option Error × Session}

/-- Where steps agree and what comes after them does, they agree together. -/
theorem Agree.andThen (h : Agree look sessions x y)
    (hnext : ∀ {s t}, sessions s t → Agree look sessions (next s) (next' t)) :
    Agree look sessions (andThen x next) (andThen y next') := by
  obtain ⟨_ | e, s⟩ := x
  · obtain ⟨_ | e', t⟩ := y
    · exact hnext h.left
    · exact absurd h.outcome (by simp)
  · obtain ⟨_ | e', t⟩ := y
    · exact absurd h.outcome (by simp)
    · exact h

/-- Statements that look alike one by one agree together, if statements that look alike agree. -/
theorem execAll_agree {β : Type} {view : Stmt → β}
    (hexec : ∀ {a b}, view a = view b → ∀ {s t}, sessions s t →
      Agree look sessions (exec s a) (exec t b)) :
    ∀ {statements others : List Stmt}, statements.map view = others.map view →
      ∀ {s t}, sessions s t → Agree look sessions (execAll s statements) (execAll t others)
  | [], [], _, s, t, h => ⟨rfl, h⟩
  | [], b :: others, hview, s, t, h => by simp at hview
  | a :: statements, [], hview, s, t, h => by simp at hview
  | a :: statements, b :: others, hview, s, t, h => by
    obtain ⟨hfirst, hrest⟩ := List.cons.inj hview
    rw [execAll_cons, execAll_cons]
    exact (hexec hfirst h).andThen (execAll_agree hexec hrest)

/-- Programs whose statements look alike one by one agree, if statements that look alike agree and
the flushes do. -/
theorem run_agree {β : Type} {view : Stmt → β} {p q : Program}
    (hview : p.statements.map view = q.statements.map view)
    (hexec : ∀ {a b}, view a = view b → ∀ {s t}, sessions s t →
      Agree look sessions (exec s a) (exec t b))
    (hflush : ∀ {s t}, sessions s t →
      Agree look sessions (flush s p.lastSpan) (flush t q.lastSpan))
    {s t : Session} (h : sessions s t) : Agree look sessions (s.run p) (t.run q) := by
  rw [run_eq_andThen, run_eq_andThen]
  exact (execAll_agree hexec hview h).andThen hflush

end Agree

end CatScript.Session
