import Mathlib
import CatScript.Proofs.Evaluation.Deeds

/-!
# Output with room for so many bytes

A run that writes to a device with room for only so many bytes is the run on a sink that takes
everything, cut off where the device is full.  A line reaches the device in pieces, and a piece in
as many writes as it takes; what the device holds in the end is the first part of everything that
was to be written, however it was split (`Device.writePieces_eq`).  So the two runs go abreast for
as long as everything fits, and the first line that does not fit ends the one on the device
(`Session.execAll_abreast`).  Whatever the other run writes afterwards comes behind
(`Session.exists_held_execAll`).
-/

set_option autoImplicit false

namespace CatScript

/-! ## A device that is full at some point -/

/-- A device with room for so many bytes in all, and the reason that it gives when it is full. -/
structure Device where
  limit : Nat
  reason : String

namespace Device

variable {device : Device} {held data : ByteArray}

/-- What a device makes of bytes that are to be held in all: it holds the first ones, and fails
unless these are all of them. -/
def cut (device : Device) (all : ByteArray) : Option String × ByteArray :=
  (if all.size ≤ device.limit then none else some device.reason, all.extract 0 device.limit)

/-- One write: the device takes what there is room for.  It fails if there is something to take and
no room at all. -/
def write (device : Device) (held data : ByteArray) : Except String Nat :=
  if device.limit ≤ held.size ∧ data.size ≠ 0 then
    .error device.reason
  else
    .ok (min data.size (device.limit - held.size))

/-- Writes until everything is taken.  A write that takes nothing without a failure is a failure as
well. -/
def writeAll (device : Device) (held data : ByteArray) : Option String × ByteArray :=
  if data.size = 0 then
    (none, held)
  else
    match device.write held data with
    | .error reason => (some reason, held)
    | .ok taken =>
      if 0 < taken then
        device.writeAll (held ++ data.extract 0 taken) (data.extract taken data.size)
      else
        (some "failed to write whole buffer", held)
termination_by data.size
decreasing_by
  rw [ByteArray.size_extract]
  omega

/-- Writes pieces one after the other, up to the first that is not taken as a whole. -/
def writePieces (device : Device) (held : ByteArray) : List ByteArray → Option String × ByteArray
  | [] => (none, held)
  | piece :: rest =>
    match device.writeAll held piece with
    | (none, held) => device.writePieces held rest
    | failed => failed

/-- The first bytes of something are those of whatever it is the front of. -/
theorem extract_append_of_le {n : Nat} {a : ByteArray} (b : ByteArray) (h : n ≤ a.size) :
    (a ++ b).extract 0 n = a.extract 0 n := by
  rw [ByteArray.extract_append, Nat.sub_eq_zero_of_le h, Nat.zero_sub, ByteArray.extract_same,
    ByteArray.append_empty]

/-- What fits is held as it is. -/
theorem cut_of_le {all : ByteArray} (h : all.size ≤ device.limit) :
    device.cut all = (none, all) := by
  rw [cut, if_pos h, ← Nat.max_eq_left h, ByteArray.extract_zero_max_size]

/-- What does not fit is cut off at the limit, with the reason of the device. -/
theorem cut_of_lt {all : ByteArray} (h : device.limit < all.size) :
    device.cut all = (some device.reason, all.extract 0 device.limit) := by
  rw [cut, if_neg (Nat.not_le.2 h)]

/-- Behind what does not fit nothing makes a difference. -/
theorem cut_append_of_lt {all : ByteArray} (h : device.limit < all.size) (more : ByteArray) :
    device.cut (all ++ more) = device.cut all := by
  have hsize : device.limit < (all ++ more).size := by
    rw [ByteArray.size_append]
    omega
  rw [cut_of_lt h, cut_of_lt hsize, extract_append_of_le more (Nat.le_of_lt h)]

/-- However many writes it takes, the device is left with the first part of everything. -/
theorem writeAll_eq : held.size ≤ device.limit →
    device.writeAll held data = device.cut (held ++ data) := by
  fun_induction device.writeAll held data with
  | case1 held data hdata =>
    intro h
    obtain rfl := ByteArray.size_eq_zero_iff.1 hdata
    rw [ByteArray.append_empty, cut_of_le h]
  | case2 held data hdata reason hwrite =>
    -- The device fails only when it is full, so that it holds all it ever will.
    intro h
    unfold write at hwrite
    split at hwrite
    case isTrue hfull =>
      have hsize : device.limit = held.size := Nat.le_antisymm hfull.1 h
      rw [← Except.error.inj hwrite, cut_of_lt (by rw [ByteArray.size_append]; omega),
        extract_append_of_le data (Nat.le_of_eq hsize), hsize, ByteArray.extract_zero_size]
    case isFalse => simp at hwrite
  | case3 held data hdata taken hwrite htaken ih =>
    intro h
    unfold write at hwrite
    split at hwrite
    case isTrue => simp at hwrite
    case isFalse =>
      have hroom := Except.ok.inj hwrite
      have hwhole : data.extract 0 taken ++ data.extract taken data.size = data := by
        rw [ByteArray.extract_append_extract, Nat.zero_min, Nat.max_eq_right (by omega),
          ByteArray.extract_zero_size]
      rw [ih, ByteArray.append_assoc, hwhole]
      rw [ByteArray.size_append, ByteArray.size_extract]
      omega
  | case4 held data hdata taken hwrite htaken =>
    -- A device with room takes something, so that its own failure is the only one.
    intro h
    unfold write at hwrite
    split at hwrite
    case isTrue => simp at hwrite
    case isFalse hroom =>
      have := Except.ok.inj hwrite
      omega

/-- However it is split into pieces, the device is left with the first part of everything. -/
theorem writePieces_eq (pieces : List ByteArray) : ∀ {held : ByteArray}, held.size ≤ device.limit →
    device.writePieces held pieces =
      device.cut (held ++ pieces.foldr (· ++ ·) ByteArray.empty) := by
  induction pieces with
  | nil =>
    intro held h
    rw [writePieces, List.foldr_nil, ByteArray.append_empty, cut_of_le h]
  | cons piece rest ih =>
    intro held h
    rw [writePieces, writeAll_eq h, List.foldr_cons, ← ByteArray.append_assoc]
    by_cases hfits : (held ++ piece).size ≤ device.limit
    · rw [cut_of_le hfits]
      exact ih hfits
    · rw [cut_append_of_lt (Nat.lt_of_not_le hfits), cut_of_lt (Nat.lt_of_not_le hfits)]

end Device

/-- A policy that comes of a device: whatever is written reaches the device in pieces, in whatever
way it is split, and a flush is granted. -/
structure Sink.Policy.WritesTo (policy : Sink.Policy) (device : Device) : Prop where
  written : ∀ writes flushes held data, held.size ≤ device.limit →
    ∃ pieces : List ByteArray, pieces.foldr (· ++ ·) ByteArray.empty = data ∧
      ((Sink.write ⟨policy, writes, flushes, held⟩ data).1,
        (Sink.write ⟨policy, writes, flushes, held⟩ data).2.held) = device.writePieces held pieces
  flushed : policy.FlushNeverFails

/-- What a sink on a device holds after a write, and whether it fails, is what is left of everything
that was to be held. -/
theorem Sink.Policy.WritesTo.write_eq {policy : Sink.Policy} {device : Device}
    (h : policy.WritesTo device) {s : Sink} (hs : s.policy = policy)
    (hfits : s.held.size ≤ device.limit) (data : ByteArray) :
    ((s.write data).1, (s.write data).2.held) = device.cut (s.held ++ data) := by
  obtain ⟨policy, writes, flushes, held⟩ := s
  obtain rfl := hs
  obtain ⟨pieces, rfl, hwrite⟩ := h.written writes flushes held data hfits
  rw [hwrite, Device.writePieces_eq pieces hfits]

/-- A buffer with room for so many bytes is such a device. -/
theorem Sink.Policy.buffer_writesTo (limit : Nat) :
    (Sink.Policy.buffer (some limit) true).WritesTo ⟨limit, "sink full"⟩ where
  written writes flushes held data hfits := by
    refine ⟨[data], by simp, ?_⟩
    rw [Device.writePieces_eq [data] hfits, List.foldr_cons, List.foldr_nil, ByteArray.append_empty,
      Sink.write, Sink.Policy.buffer]
    by_cases hroom : held.size + data.size ≤ limit
    · have hall : (held ++ data).size ≤ (Device.mk limit "sink full").limit := by
        rwa [ByteArray.size_append]
      simp only [if_pos hroom, Device.cut_of_le hall]
    · have hall : (Device.mk limit "sink full").limit < (held ++ data).size := by
        rw [ByteArray.size_append]
        exact Nat.lt_of_not_le hroom
      have hheld : held.extract 0 limit = held := by
        exact congrArg Prod.snd (Device.cut_of_le hfits)
      simp only [if_neg hroom, Device.cut_of_lt hall, ByteArray.extract_append, hheld,
        Nat.zero_sub]
  flushed _ _ _ := rfl

namespace Session

variable {device : Device} {free bounded : Session}

/-! ## What is held is kept -/

/-- A statement only adds to what the sink holds. -/
theorem exists_held_exec (s : Session) (statement : Stmt) :
    ∃ more, (s.exec statement).2.sink.held = s.sink.held ++ more := by
  rw [exec_eq_settle]
  cases statement.deed s.scope with
  | error e => exact ⟨ByteArray.empty, ByteArray.append_empty.symm⟩
  | ok deed =>
    cases deed with
    | print text =>
      obtain ⟨-, hheld⟩ | ⟨taken, reason, -, hheld⟩ :=
        Sink.held_write s.sink (text ++ "\n").toUTF8
      · exact ⟨_, hheld⟩
      · exact ⟨_, hheld⟩
    | nothing => exact ⟨ByteArray.empty, ByteArray.append_empty.symm⟩
    | define name value => exact ⟨ByteArray.empty, ByteArray.append_empty.symm⟩
    | declare name arity => exact ⟨ByteArray.empty, ByteArray.append_empty.symm⟩

/-- Statements only add to what the sink holds. -/
theorem exists_held_execAll (statements : List Stmt) : ∀ s : Session,
    ∃ more, (s.execAll statements).2.sink.held = s.sink.held ++ more := by
  induction statements with
  | nil => exact fun s => ⟨ByteArray.empty, ByteArray.append_empty.symm⟩
  | cons statement rest ih =>
    intro s
    obtain ⟨first, hfirst⟩ := exists_held_exec s statement
    rw [execAll_cons]
    rcases hmid : s.exec statement with ⟨_ | e, mid⟩
    all_goals rw [hmid] at hfirst
    · obtain ⟨more, hmore⟩ := ih mid
      refine ⟨first ++ more, ?_⟩
      rw [← ByteArray.append_assoc, ← hfirst]
      exact hmore
    · exact ⟨first, hfirst⟩

/-! ## Two runs abreast -/

/-- A session on a sink that takes everything and one on a device, that have come equally far, with
all of the output on the device. -/
structure Abreast (device : Device) (free bounded : Session) : Prop where
  working : free.sink.policy = Sink.working.policy
  writes : bounded.sink.policy.WritesTo device
  held : bounded.sink.held = free.sink.held
  fits : free.sink.held.size ≤ device.limit
  scope : bounded.scope = free.scope
  journal : bounded.journal = free.journal

/-- The device is full at a print statement: its line would go beyond the limit and what is there
before it does not.  The session on the device ends there, with the error of the device at that
statement, and with the scope in front of it. -/
def FillsAt (device : Device) (free : Session) (statements : List Stmt)
    (outcome : Option Error × Session) : Prop :=
  ∃ before argument span rest mid after, statements = before ++ .print argument span :: rest ∧
    free.execAll before = (none, mid) ∧ mid.exec (.print argument span) = (none, after) ∧
    mid.sink.held.size ≤ device.limit ∧ device.limit < after.sink.held.size ∧
    outcome.1 = some (.of (.outputFailed device.reason) span) ∧
    outcome.2.scope = mid.scope ∧
    outcome.2.sink.held = after.sink.held.extract 0 device.limit

namespace Abreast

/-- The same record on both sides. -/
theorem record (h : Abreast device free bounded) (level : Level) (topic : Topic)
    (message : String) :
    Abreast device (free.record level topic message) (bounded.record level topic message) :=
  ⟨h.working, h.writes, h.held, h.fits, h.scope, congrArg (Array.push · _) h.journal⟩

/-- A sink that takes everything takes a write as a whole. -/
theorem working_write {s : Sink} (h : s.policy = Sink.working.policy) (data : ByteArray) :
    s.write data = (none, ⟨s.policy, s.writes + 1, s.flushes, s.held ++ data⟩) := by
  rw [Sink.write, h]
  rfl

/-- A line that fits is printed on both sides. -/
theorem print_of_le (h : Abreast device free bounded) {text : String}
    (hroom : (free.sink.held ++ (text ++ "\n").toUTF8).size ≤ device.limit) (span : Span) :
    (free.print text span).1 = none ∧ (bounded.print text span).1 = none ∧
      Abreast device (free.print text span).2 (bounded.print text span).2 := by
  have hwrite := h.writes.write_eq rfl (h.held ▸ h.fits) (text ++ "\n").toUTF8
  rw [h.held, Device.cut_of_le hroom, Prod.mk.injEq] at hwrite
  have hfree := working_write h.working (text ++ "\n").toUTF8
  refine ⟨?_, ?_, ?_⟩
  · rw [print, hfree]
    rfl
  · rw [print]
    exact congrArg (Option.map _) hwrite.1
  · have hpolicy : (bounded.sink.write (text ++ "\n").toUTF8).2.policy = bounded.sink.policy := by
      unfold Sink.write
      split <;> rfl
    rw [print, print, hfree]
    exact ⟨h.working, hpolicy ▸ h.writes, hwrite.2, hroom, h.scope, h.journal⟩

/-- A line that does not fit is printed on one side only, and fills the device on the other. -/
theorem print_of_lt (h : Abreast device free bounded) {text : String}
    (hroom : device.limit < (free.sink.held ++ (text ++ "\n").toUTF8).size) (span : Span) :
    (free.print text span).1 = none ∧
      (free.print text span).2.sink.held = free.sink.held ++ (text ++ "\n").toUTF8 ∧
      (bounded.print text span).1 = some (.of (.outputFailed device.reason) span) ∧
      (bounded.print text span).2.sink.held =
        (free.sink.held ++ (text ++ "\n").toUTF8).extract 0 device.limit := by
  have hwrite := h.writes.write_eq rfl (h.held ▸ h.fits) (text ++ "\n").toUTF8
  rw [h.held, Device.cut_of_lt hroom, Prod.mk.injEq] at hwrite
  have hfree := working_write h.working (text ++ "\n").toUTF8
  refine ⟨?_, ?_, ?_, hwrite.2⟩
  · rw [print, hfree]
    rfl
  · rw [print, hfree]
  · rw [print]
    exact congrArg (Option.map _) hwrite.1

end Abreast

/-- A statement keeps two sessions abreast, or fills the device. -/
theorem exec_abreast (h : Abreast device free bounded) (statement : Stmt) :
    (bounded.exec statement).1 = (free.exec statement).1 ∧
      Abreast device (free.exec statement).2 (bounded.exec statement).2 ∨
    FillsAt device free [statement] (bounded.exec statement) := by
  -- What there is to do depends on the scope alone, so both sessions find the same.
  rw [exec_eq_settle, exec_eq_settle, h.scope]
  cases hdeed : statement.deed free.scope with
  | error e => exact .inl ⟨rfl, h⟩
  | ok deed =>
    cases deed with
    | nothing => exact .inl ⟨rfl, h⟩
    | define name value =>
      have hrecord := h.record .trace .evaluator s!"meow {name} = {value.text}"
      exact .inl ⟨rfl, hrecord.working, hrecord.writes, hrecord.held, hrecord.fits,
        congrArg (·.define name value) hrecord.scope, hrecord.journal⟩
    | declare name arity =>
      have hrecord := h.record .debug .evaluator
        s!"declared trick {name} with {arity} parameter(s)"
      exact .inl ⟨rfl, hrecord.working, hrecord.writes, hrecord.held, hrecord.fits,
        congrArg (·.declare name arity) hrecord.scope, hrecord.journal⟩
    | print text =>
      have hrecord := h.record .trace .evaluator s!"purr {text}"
      by_cases hroom : (free.sink.held ++ (text ++ "\n").toUTF8).size ≤ device.limit
      · obtain ⟨hfree, hbounded, habreast⟩ := hrecord.print_of_le hroom statement.span
        exact .inl ⟨hbounded.trans hfree.symm, habreast⟩
      · have hroom := Nat.lt_of_not_le hroom
        obtain ⟨hfree, hheld, hbounded, hcut⟩ := hrecord.print_of_lt hroom statement.span
        obtain ⟨argument, span, v, rfl, -, -⟩ := Stmt.deed_eq_print_iff.1 hdeed
        refine .inr ⟨[], argument, span, [], free, _, rfl, rfl, Prod.ext ?_ rfl, h.fits, ?_,
          hbounded, h.scope, ?_⟩
        · rw [exec_eq_settle, hdeed]
          exact hfree
        · rw [exec_eq_settle, hdeed]
          exact hheld ▸ hroom
        · rw [exec_eq_settle, hdeed]
          exact hcut.trans (congrArg (·.extract 0 device.limit) hheld.symm)

/-- A device that is full at one of the statements is full at it behind another one too. -/
theorem FillsAt.behind {statement : Stmt} {mid : Session} {rest : List Stmt}
    {outcome : Option Error × Session} (hfirst : free.exec statement = (none, mid))
    (h : FillsAt device mid rest outcome) : FillsAt device free (statement :: rest) outcome := by
  obtain ⟨before, argument, span, others, last, after, rfl, hbefore, hfull⟩ := h
  refine ⟨statement :: before, argument, span, others, last, after, rfl, ?_, hfull⟩
  rw [execAll_cons, hfirst]
  exact hbefore

/-- Behind the statement where the device is full nothing is executed. -/
theorem FillsAt.stops {statement : Stmt} {outcome : Option Error × Session} (rest : List Stmt)
    (next : Session → Option Error × Session) (h : FillsAt device free [statement] outcome) :
    FillsAt device free (statement :: rest) (andThen outcome next) := by
  obtain ⟨before, argument, span, others, mid, after, hstatement, hbefore, hprint, hfits, hfull,
    herror, hscope, hheld⟩ := h
  obtain ⟨rfl, rfl, rfl⟩ : before = [] ∧ statement = .print argument span ∧ others = [] := by
    cases before with
    | nil => simpa using hstatement
    | cons first before => simp at hstatement
  obtain ⟨failure, last⟩ := outcome
  obtain rfl := herror
  exact ⟨[], argument, span, rest, mid, after, rfl, hbefore, hprint, hfits, hfull, rfl, hscope,
    hheld⟩

/-- Statements keep two sessions abreast, or one of them fills the device. -/
theorem execAll_abreast (statements : List Stmt) : ∀ {free bounded : Session},
    Abreast device free bounded →
      (bounded.execAll statements).1 = (free.execAll statements).1 ∧
        Abreast device (free.execAll statements).2 (bounded.execAll statements).2 ∨
      FillsAt device free statements (bounded.execAll statements) := by
  induction statements with
  | nil => exact fun h => .inl ⟨rfl, h⟩
  | cons statement rest ih =>
    intro free bounded h
    rw [execAll_cons, execAll_cons]
    obtain ⟨houtcome, habreast⟩ | hfills := exec_abreast h statement
    · rcases hfree : free.exec statement with ⟨_ | e, mid⟩
      · rcases hbounded : bounded.exec statement with ⟨failure, last⟩
        rw [hfree, hbounded] at habreast
        obtain rfl : failure = none := by rw [hfree, hbounded] at houtcome; exact houtcome
        exact (ih habreast).imp_right (.behind hfree)
      · rcases hbounded : bounded.exec statement with ⟨failure, last⟩
        rw [hfree, hbounded] at habreast
        obtain rfl : failure = some e := by rw [hfree, hbounded] at houtcome; exact houtcome
        exact .inl ⟨rfl, habreast⟩
    · exact .inr (hfills.stops rest _)

/-- The flush behind statements that have kept two sessions abreast is granted on both sides. -/
theorem run_abreast {program : Program}
    (houtcome : (bounded.execAll program.statements).1 = (free.execAll program.statements).1)
    (h : Abreast device (free.execAll program.statements).2
      (bounded.execAll program.statements).2) :
    (bounded.run program).1 = (free.run program).1 ∧
      Abreast device (free.run program).2 (bounded.run program).2 := by
  rw [run_eq_andThen, run_eq_andThen]
  generalize free.execAll program.statements = x at houtcome h
  generalize bounded.execAll program.statements = y at houtcome h
  obtain ⟨_, mid⟩ := x
  obtain ⟨failure, last⟩ := y
  obtain rfl := houtcome
  cases failure with
  | none =>
    have hworking : mid.sink.policy.FlushNeverFails := by
      rw [h.working]
      exact fun _ _ _ => rfl
    change (last.flush _).1 = (mid.flush _).1 ∧ Abreast device (mid.flush _).2 (last.flush _).2
    rw [flush_of_granted hworking, flush_of_granted h.writes.flushed]
    exact ⟨rfl, h.working, h.writes, h.held, h.fits, h.scope, h.journal⟩
  | some e => exact ⟨rfl, h⟩

/-- What the session on the sink that takes everything holds in the end begins with what it held
where the device was full. -/
theorem exists_held_of_fill {before : List Stmt} {statement : Stmt} {mid after : Session}
    (rest : List Stmt) (hbefore : free.execAll before = (none, mid))
    (hprint : mid.exec statement = (none, after)) :
    ∃ more, (free.run ⟨before ++ statement :: rest⟩).2.sink.held = after.sink.held ++ more := by
  obtain ⟨more, hmore⟩ := exists_held_execAll rest after
  refine ⟨more, ?_⟩
  rw [held_run, execAll_append, hbefore]
  change (mid.execAll (statement :: rest)).2.sink.held = _
  rw [execAll_cons, hprint]
  exact hmore

/-- A run on a device and the same run on a sink that takes everything.  Where all of the output is
within the limit, both end alike, with the same output, scope and journal.  Where it is not, the
device holds as much of it as there is room for, and the run on the device has ended in front of the
first line that goes beyond the limit, with an error of the device at the print statement of that
line and with the scope that the other run had there. -/
theorem run_bounded (device : Device) (policy : Sink.Policy) (h : policy.WritesTo device)
    (scope : Scope) (journal : Journal) (program : Program) :
    let free : Session := ⟨scope, Sink.working, journal⟩
    let bounded : Session := ⟨scope, Sink.ofPolicy policy, journal⟩
    ((free.run program).2.sink.held.size ≤ device.limit →
      (bounded.run program).1 = (free.run program).1 ∧
      (bounded.run program).2.sink.held = (free.run program).2.sink.held ∧
      (bounded.run program).2.scope = (free.run program).2.scope ∧
      (bounded.run program).2.journal = (free.run program).2.journal) ∧
    (device.limit < (free.run program).2.sink.held.size →
      (bounded.run program).2.sink.held =
        (free.run program).2.sink.held.extract 0 device.limit ∧
      ∃ before argument span rest mid after,
        program.statements = before ++ .print argument span :: rest ∧
        free.execAll before = (none, mid) ∧ mid.exec (.print argument span) = (none, after) ∧
        mid.sink.held.size ≤ device.limit ∧ device.limit < after.sink.held.size ∧
        (bounded.run program).1 = some (.of (.outputFailed device.reason) span) ∧
        (bounded.run program).2.scope = mid.scope) := by
  intro free bounded
  have hstart : Abreast device free bounded := ⟨rfl, h, rfl, Nat.zero_le _, rfl, rfl⟩
  obtain ⟨houtcome, habreast⟩ | hfills := execAll_abreast program.statements hstart
  · obtain ⟨houtcome, habreast⟩ := run_abreast houtcome habreast
    exact ⟨fun _ => ⟨houtcome, habreast.held, habreast.scope, habreast.journal⟩,
      fun hlarge => absurd habreast.fits (Nat.not_le.2 hlarge)⟩
  · obtain ⟨before, argument, span, rest, mid, after, hstatements, hbefore, hprint, hfits, hfull,
      herror, hscope, hheld⟩ := hfills
    -- The device has failed, so that the run does not come to its flush.
    have hrun : bounded.run program = bounded.execAll program.statements := by
      rw [run_eq_andThen]
      rcases hlast : bounded.execAll program.statements with ⟨_, last⟩
      rw [hlast] at herror
      obtain rfl := herror
      rfl
    obtain ⟨more, hmore⟩ := exists_held_of_fill rest hbefore hprint
    rw [← hstatements] at hmore
    change (free.run program).2.sink.held = _ at hmore
    rw [hrun, hmore]
    refine ⟨fun hsmall => ?_, fun _ => ?_⟩
    · rw [ByteArray.size_append] at hsmall
      omega
    · rw [Device.extract_append_of_le more (Nat.le_of_lt hfull)]
      exact ⟨hheld, before, argument, span, rest, mid, after, hstatements, hbefore, hprint, hfits,
        hfull, herror, hscope⟩

/-- A program that prints two lines of four and five bytes, the second of them with a letter of two
bytes in it, and binds a variable in front of that line and behind it. -/
def twoLines : Program :=
  ⟨[.print (.string "cat" ⟨5, 10, 1, 6⟩) ⟨0, 11, 1, 1⟩,
    .declare "n" (.integer 1 ⟨21, 22, 2, 10⟩) ⟨12, 22, 2, 1⟩,
    .print (.string "née" ⟨28, 33, 3, 6⟩) ⟨23, 34, 3, 1⟩,
    .declare "n" (.integer 2 ⟨44, 45, 4, 10⟩) ⟨35, 45, 4, 1⟩]⟩

/-- With room for nine bytes both lines are there; with room for six the output ends inside a
letter, and the variable keeps the value that it had in front of that line. -/
theorem run_bounded_inside_letter :
    let free : Session := ⟨Scope.empty, Sink.working, #[]⟩
    let wide : Session := ⟨Scope.empty, Sink.ofPolicy (.buffer (some 9) true), #[]⟩
    let narrow : Session := ⟨Scope.empty, Sink.ofPolicy (.buffer (some 6) true), #[]⟩
    (free.run twoLines).2.sink.held = "cat\nnée\n".toUTF8 ∧
      (wide.run twoLines).1 = (free.run twoLines).1 ∧
      (wide.run twoLines).2.sink.held = "cat\nnée\n".toUTF8 ∧
      (narrow.run twoLines).2.sink.held = "cat\nnée\n".toUTF8.extract 0 6 ∧
      (∃ before argument span rest mid,
        twoLines.statements = before ++ .print argument span :: rest ∧
        free.execAll before = (none, mid) ∧
        (narrow.run twoLines).1 = some (.of (.outputFailed "sink full") span) ∧
        (narrow.run twoLines).2.scope = mid.scope) ∧
      (narrow.run twoLines).2.scope.bindings.get? "n" = some (.integer 1) := by
  intro free wide narrow
  have hheld : (free.run twoLines).2.sink.held = "cat\nnée\n".toUTF8 := by cbv
  obtain ⟨hfits, -⟩ := run_bounded ⟨9, "sink full"⟩ (.buffer (some 9) true)
    (Sink.Policy.buffer_writesTo 9) Scope.empty #[] twoLines
  obtain ⟨-, hcut⟩ := run_bounded ⟨6, "sink full"⟩ (.buffer (some 6) true)
    (Sink.Policy.buffer_writesTo 6) Scope.empty #[] twoLines
  obtain ⟨houtcome, hwide, -⟩ := hfits (by rw [hheld]; decide)
  obtain ⟨hnarrow, before, argument, span, rest, mid, after, hstatements, hbefore, -, -, -, herror,
    hscope⟩ := hcut (by rw [hheld]; decide)
  exact ⟨hheld, houtcome, hwide.trans hheld, hnarrow.trans (congrArg (·.extract 0 6) hheld),
    ⟨before, argument, span, rest, mid, hstatements, hbefore, herror, hscope⟩, by cbv⟩

end Session

end CatScript
