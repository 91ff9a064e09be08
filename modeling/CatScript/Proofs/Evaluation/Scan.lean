import CatScript.Model.Session
import CatScript.Proofs.Evaluation.Kinds

/-!
# What a scan of a program foretells

The scan of a program carries the kinds of the variables from one statement to the next, as a run
carries their values.  On a sink that never fails, a run keeps every variable at its scanned kind
(`Session.exec_foretold` for one statement), so that it can only divide by zero where the scan goes
on, and stops at the latest where the scan does.  The top theorem is `Session.run_foretold`.
-/

set_option autoImplicit false

namespace CatScript

/-! ## Scans of statements -/

/-- The kinds of the variables after a statement, or the fault of the statement.  The body of a
function is not scanned. -/
def Stmt.scan (kinds : Kinds) : Stmt → Except Fault Kinds
  | .print argument _ => (argument.scan kinds).map fun _ => kinds
  | .declare name value _ => (value.scan kinds).map (kinds.bind name)
  | .access name span => (kinds.scan name span).map fun _ => kinds
  | .trick _ _ _ _ => .ok kinds
  | .expression value _ => (value.scan kinds).map fun _ => kinds

/-- The divisions that the scan of a statement passes. -/
def Stmt.divisions (kinds : Kinds) : Stmt → List Span
  | .print value _ | .declare _ value _ | .expression value _ => value.divisions kinds
  | .access _ _ | .trick _ _ _ _ => []

/-- The kinds of the variables after statements, or the first fault with the number of the statement
that has it. -/
def Stmt.scanAll (kinds : Kinds) : List Stmt → Except (Nat × Fault) Kinds
  | [] => .ok kinds
  | statement :: rest =>
    match statement.scan kinds with
    | .error fault => .error (0, fault)
    | .ok after => (Stmt.scanAll after rest).mapError fun (i, fault) => (i + 1, fault)

/-- The scan of a program. -/
def Program.scan (kinds : Kinds) (program : Program) : Except (Nat × Fault) Kinds :=
  Stmt.scanAll kinds program.statements

/-! ## Sessions -/

/-- A sink that takes every write as a whole and grants every flush. -/
def Sink.NeverFails (sink : Sink) : Prop :=
  (∀ writes held data, sink.policy.write writes held data = none) ∧
    sink.policy.FlushNeverFails

/-- A session on a sink that never fails whose variables are of the given kinds. -/
structure Session.Ready (s : Session) (kinds : Kinds) : Prop where
  sink : s.sink.NeverFails
  scope : s.scope.HasKinds kinds

/-- Where a run stops: the number of the statement that fails and the statement, the kinds that are
scanned in front of it, the error, and the session that it leaves. -/
structure Stop where
  index : Nat
  statement : Stmt
  kinds : Kinds
  error : Error
  session : Session

/-- A run stops: the statements in front succeed and have no fault, and the statement fails while
the variables are of the kinds scanned so far. -/
inductive Session.StopsAt : Session → Kinds → List Stmt → Stop → Prop
  | here {s after : Session} {kinds : Kinds} {statement : Stmt} {e : Error} (rest : List Stmt)
      (fails : s.exec statement = (some e, after)) (scope : after.scope.HasKinds kinds) :
      StopsAt s kinds (statement :: rest) ⟨0, statement, kinds, e, after⟩
  | later {s mid : Session} {kinds after : Kinds} {statement : Stmt} {rest : List Stmt}
      {stop : Stop} (succeeds : s.exec statement = (none, mid))
      (faultless : statement.scan kinds = .ok after) (stops : StopsAt mid after rest stop) :
      StopsAt s kinds (statement :: rest) { stop with index := stop.index + 1 }

/-- The execution of a statement comes out as a scan says, or divides by zero at one of the given
places.  A statement that fails leaves the kinds of the variables as they are. -/
def ForetellsExec (kinds : Kinds) (divisions : List Span) :
    Except Fault Kinds → Option Error × Session → Prop
  | .ok after, (none, s) => s.Ready after
  | .ok _, (some e, s) => e.DividesByZero divisions ∧ s.Ready kinds
  | .error fault, (some e, s) => (fault.Explains e ∨ e.DividesByZero divisions) ∧ s.Ready kinds
  | .error _, (none, _) => False

/-- In the empty scope no variable has a kind. -/
theorem Scope.hasKinds_empty : Scope.empty.HasKinds fun _ => none :=
  fun _ => rfl

/-- A variable that is declared has the kind of its value. -/
theorem Scope.HasKinds.define {scope : Scope} {kinds : Kinds} (h : scope.HasKinds kinds)
    (name : String) (v : Value) : (scope.define name v).HasKinds (kinds.bind name v.kind) := by
  intro other
  show ((scope.bindings.bind name v).get? other).map Value.kind = _
  rw [Bindings.get?_bind]
  unfold Kinds.bind
  split
  · rfl
  · exact h other

/-- The sink that never fails is one. -/
theorem Sink.working_neverFails : Sink.working.NeverFails :=
  ⟨fun _ _ _ => rfl, fun _ _ _ => rfl⟩

/-- A sink that never fails takes a write, and never fails afterwards. -/
theorem Sink.NeverFails.write {sink : Sink} (h : sink.NeverFails) (data : ByteArray) :
    ∃ after, sink.write data = (none, after) ∧ after.NeverFails := by
  refine ⟨⟨sink.policy, sink.writes + 1, sink.flushes, sink.held ++ data⟩, ?_, h⟩
  simp only [Sink.write, h.1]

namespace Session.Ready

variable {s : Session} {kinds : Kinds}

/-- A record does not matter. -/
theorem record (h : s.Ready kinds) (level : Level) (topic : Topic) (message : String) :
    (s.record level topic message).Ready kinds :=
  ⟨h.sink, h.scope⟩

/-- A line is printed. -/
theorem print (h : s.Ready kinds) (text : String) (span : Span) :
    ∃ after, s.print text span = (none, after) ∧ after.Ready kinds := by
  obtain ⟨sink, hwrite, hsink⟩ := h.sink.write (text ++ "\n").toUTF8
  refine ⟨{ s with sink := sink }, ?_, hsink, h.scope⟩
  simp only [Session.print, hwrite, Option.map_none]

/-- A flush is granted. -/
theorem flush (h : s.Ready kinds) (span : Span) :
    ∃ after, s.flush span = (none, after) ∧ after.Ready kinds := by
  refine ⟨{ s with sink := s.sink.flush.2 }, ?_, h.sink, h.scope⟩
  simp only [Session.flush, Sink.flush, h.sink.2 _ _ _, Option.map_none]

end Session.Ready

/-! ## One statement -/

/-- A statement that fails only where the evaluation of an expression does, and then leaves the
session as it is, is foretold by the scan of the expression. -/
theorem Foretells.exec {divisions : List Span} {scan : Except Fault Kind}
    {outcome : Except Error Value} (h : Foretells divisions scan outcome) {s : Session}
    {kinds : Kinds} (hs : s.Ready kinds) {further : Kind → Kinds}
    {result : Option Error × Session} (hfail : ∀ e, outcome = .error e → result = (some e, s))
    (hnext : ∀ v, outcome = .ok v →
      ∃ after, result = (none, after) ∧ after.Ready (further v.kind)) :
    ForetellsExec kinds divisions (scan.map further) result := by
  cases outcome with
  | error e =>
    rw [hfail e rfl]
    cases scan with
    | error fault => exact ⟨h, hs⟩
    | ok kind => exact ⟨h, hs⟩
  | ok v =>
    cases scan with
    | error fault => exact h.elim
    | ok kind =>
      have hkind : v.kind = kind := h
      obtain ⟨after, hresult, hready⟩ := hnext v rfl
      rw [hkind] at hready
      rw [hresult]
      exact hready

/-- The execution of a statement comes out as its scan says, or divides by zero at a division that
the scan passes. -/
theorem Session.exec_foretold {s : Session} {kinds : Kinds} (hs : s.Ready kinds)
    (statement : Stmt) :
    ForetellsExec kinds (statement.divisions kinds) (statement.scan kinds) (s.exec statement) := by
  cases statement with
  | print argument span =>
    apply (argument.eval_foretold hs.scope).exec hs
    · intro e he
      simp only [exec, he]
    · intro v hv
      have hrecord := hs.record .trace .evaluator s!"purr {v.text}"
      obtain ⟨after, hprint, hready⟩ := hrecord.print v.text span
      exact ⟨after, by simp only [exec, hv, hprint], hready⟩
  | declare name value span =>
    apply (value.eval_foretold hs.scope).exec hs
    · intro e he
      simp only [exec, he]
    · intro v hv
      let recorded := s.record .trace .evaluator s!"meow {name} = {v.text}"
      refine ⟨{ recorded with scope := s.scope.define name v }, ?_, hs.sink, ?_⟩
      · simp only [exec, hv]
        rfl
      · exact hs.scope.define name v
  | access name span =>
    apply (s.scope.lookup_foretold hs.scope name span).exec hs
    · intro e he
      simp only [exec, he]
    · intro v hv
      exact ⟨s, by simp only [exec, hv], hs⟩
  | trick name parameters body span => exact ⟨hs.sink, hs.scope⟩
  | expression value span =>
    apply (value.eval_foretold hs.scope).exec hs
    · intro e he
      simp only [exec, he]
    · intro v hv
      exact ⟨s, by simp only [exec, hv], hs⟩

/-! ## Whole runs -/

namespace Session

/-- Where a run stops, the statements fail with the error of the stop and leave its session. -/
theorem StopsAt.execAll {s : Session} {kinds : Kinds} {statements : List Stmt} {stop : Stop}
    (h : s.StopsAt kinds statements stop) :
    s.execAll statements = (some stop.error, stop.session) := by
  induction h with
  | here rest fails scope => simp only [Session.execAll, fails]
  | later succeeds faultless stops ih => simp only [Session.execAll, succeeds, ih]

/-- Where the scan goes through, a run ends with every variable at its scanned kind, or stops with
a division by zero. -/
theorem execAll_of_scanAll {statements : List Stmt} :
    ∀ {s : Session} {kinds after : Kinds}, s.Ready kinds →
      Stmt.scanAll kinds statements = .ok after →
        (∃ s', s.execAll statements = (none, s') ∧ s'.Ready after) ∨
          ∃ stop, s.StopsAt kinds statements stop ∧
            stop.error.DividesByZero (stop.statement.divisions stop.kinds) := by
  induction statements with
  | nil =>
    intro s kinds after hs hscan
    rw [← Except.ok.inj hscan]
    exact .inl ⟨s, rfl, hs⟩
  | cons statement rest ih =>
    intro s kinds after hs hscan
    have hexec := s.exec_foretold hs statement
    rw [Stmt.scanAll] at hscan
    cases hstatement : statement.scan kinds with
    | error fault => simp [hstatement] at hscan
    | ok between =>
      rw [hstatement] at hexec hscan
      rcases hresult : s.exec statement with ⟨failure, mid⟩
      rw [hresult] at hexec
      cases failure with
      | some e => exact .inr ⟨_, .here rest hresult hexec.2.scope, hexec.1⟩
      | none =>
        have hrest : Stmt.scanAll between rest = .ok after := by
          cases hscanned : Stmt.scanAll between rest with
          | error fault => simp [hscanned, Except.mapError] at hscan
          | ok found => simpa [hscanned, Except.mapError] using hscan
        obtain ⟨s', hrun, hready⟩ | ⟨stop, hstop, hzero⟩ := ih hexec hrest
        · exact .inl ⟨s', by simp only [execAll, hresult, hrun], hready⟩
        · exact .inr ⟨_, .later hresult hstatement hstop, hzero⟩

/-- Where the scan finds a fault, a run stops in front of it with a division by zero, or at it with
an error that the fault explains. -/
theorem execAll_of_scanAll_error {statements : List Stmt} :
    ∀ {s : Session} {kinds : Kinds} {i : Nat} {fault : Fault}, s.Ready kinds →
      Stmt.scanAll kinds statements = .error (i, fault) →
        ∃ stop, s.StopsAt kinds statements stop ∧ stop.index ≤ i ∧
          (stop.error.DividesByZero (stop.statement.divisions stop.kinds) ∨
            stop.index = i ∧ fault.Explains stop.error) := by
  induction statements with
  | nil =>
    intro s kinds i fault hs hscan
    exact absurd hscan (by simp [Stmt.scanAll])
  | cons statement rest ih =>
    intro s kinds i fault hs hscan
    have hexec := s.exec_foretold hs statement
    rw [Stmt.scanAll] at hscan
    rcases hresult : s.exec statement with ⟨failure, mid⟩
    rw [hresult] at hexec
    cases hstatement : statement.scan kinds with
    | error found =>
      rw [hstatement] at hexec
      -- The fault is in this statement, and the run stops at it for one reason or the other.
      have hfound : (0, found) = (i, fault) := by simpa [hstatement] using hscan
      obtain ⟨rfl, rfl⟩ := Prod.mk.inj hfound
      cases failure with
      | none => exact hexec.elim
      | some e =>
        refine ⟨_, .here rest hresult hexec.2.scope, Nat.le_refl 0, ?_⟩
        exact hexec.1.symm.imp id fun hexplains => ⟨rfl, hexplains⟩
    | ok between =>
      rw [hstatement] at hexec hscan
      cases failure with
      | some e => exact ⟨_, .here rest hresult hexec.2.scope, Nat.zero_le i, .inl hexec.1⟩
      | none =>
        obtain ⟨j, hj, hrest⟩ :
            ∃ j, i = j + 1 ∧ Stmt.scanAll between rest = .error (j, fault) := by
          cases hscanned : Stmt.scanAll between rest with
          | ok found => simp [hscanned, Except.mapError] at hscan
          | error found =>
            obtain ⟨j, fault'⟩ := found
            simp only [hscanned, Except.mapError, Except.error.injEq, Prod.mk.injEq] at hscan
            exact ⟨j, hscan.1.symm, by rw [hscan.2]⟩
        obtain ⟨stop, hstop, hle, hwhy⟩ := ih hexec hrest
        refine ⟨_, .later hresult hstatement hstop, ?_, ?_⟩
        · show stop.index + 1 ≤ i
          omega
        · refine hwhy.imp id fun hfault => ⟨?_, hfault.2⟩
          show stop.index + 1 = i
          have := hfault.1
          omega

/-- What the scan of a program says of every run of the program, in a session whose variables have
the kinds that the scan begins with and whose sink never fails.  If the scan goes through, the run
succeeds with every variable at its scanned kind, or stops with a division by zero at a division
that the scan passes.  If the scan finds a fault, the run stops at the latest at the statement of
the fault: with such a division by zero, or there with an error that the fault explains.  Wherever
the run stops, the variables are of the kinds scanned up to there. -/
theorem run_foretold (program : Program) (s : Session) (kinds : Kinds)
    (hsink : s.sink.NeverFails) (hscope : s.scope.HasKinds kinds) :
    (∀ after, program.scan kinds = .ok after →
      (∃ s', s.run program = (none, s') ∧ s'.scope.HasKinds after) ∨
        ∃ stop, s.run program = (some stop.error, stop.session) ∧
          s.StopsAt kinds program.statements stop ∧
          stop.error.DividesByZero (stop.statement.divisions stop.kinds)) ∧
    ∀ i fault, program.scan kinds = .error (i, fault) →
      ∃ stop, s.run program = (some stop.error, stop.session) ∧
        s.StopsAt kinds program.statements stop ∧ stop.index ≤ i ∧
        (stop.error.DividesByZero (stop.statement.divisions stop.kinds) ∨
          stop.index = i ∧ fault.Explains stop.error) := by
  have hs : s.Ready kinds := ⟨hsink, hscope⟩
  have hrun {stop : Stop} (h : s.StopsAt kinds program.statements stop) :
      s.run program = (some stop.error, stop.session) := by
    simp only [run, h.execAll]
  constructor
  · intro after hscan
    obtain ⟨s', hexec, hready⟩ | ⟨stop, hstop, hzero⟩ := execAll_of_scanAll hs hscan
    · obtain ⟨flushed, hflush, hflushed⟩ := hready.flush program.lastSpan
      exact .inl ⟨flushed, by simp only [run, hexec, hflush], hflushed.scope⟩
    · exact .inr ⟨stop, hrun hstop, hstop, hzero⟩
  · intro i fault hscan
    obtain ⟨stop, hstop, hle, hwhy⟩ := execAll_of_scanAll_error hs hscan
    exact ⟨stop, hrun hstop, hstop, hle, hwhy⟩

/-- A string and a number that should be joined, on a variable that the program itself declares. -/
def joining : Program :=
  ⟨[.declare "x" (.integer 1 ⟨9, 10, 1, 10⟩) ⟨0, 10, 1, 1⟩,
    .print (.binary .add (.string "a" ⟨16, 19, 2, 6⟩) (.identifier "x" ⟨22, 23, 2, 12⟩)
      ⟨16, 23, 2, 6⟩) ⟨11, 24, 2, 1⟩]⟩

/-- The scan finds the fault in the second statement of `joining`, and the run stops there. -/
theorem run_foretold_joining :
    (Session.start Sink.working).sink.NeverFails ∧
      (Session.start Sink.working).scope.HasKinds (fun _ => none) ∧
      joining.scan (fun _ => none) = .error (1, .operands ⟨16, 23, 2, 6⟩) ∧
      ∃ stop, (Session.start Sink.working).run joining = (some stop.error, stop.session) ∧
        (Session.start Sink.working).StopsAt (fun _ => none) joining.statements stop ∧
        stop.index ≤ 1 ∧
        (stop.error.DividesByZero (stop.statement.divisions stop.kinds) ∨
          stop.index = 1 ∧ Fault.Explains (.operands ⟨16, 23, 2, 6⟩) stop.error) := by
  have hscan : joining.scan (fun _ => none) = .error (1, .operands ⟨16, 23, 2, 6⟩) := rfl
  obtain ⟨-, hfault⟩ := run_foretold joining (Session.start Sink.working) (fun _ => none)
    Sink.working_neverFails Scope.hasKinds_empty
  exact ⟨Sink.working_neverFails, Scope.hasKinds_empty, hscan, hfault _ _ hscan⟩

end Session

end CatScript
