/-!
# Sinks

Where the output of a program goes. A sink holds the bytes it has taken so far. It takes every
write as a whole, or only the first bytes of one and then fails with a reason, and it can refuse a
flush; when it does so is its policy. A flush passes on what the sink has taken, and does nothing
else: as with a buffer in memory or a stream of the system, which make room by themselves or not at
all, what is held and what becomes of later writes is the same with a flush and without. So writes
and flushes are counted apart. `held_write` and `held_flush` say what a sink holds afterwards,
whatever the policy.
-/

set_option autoImplicit false

namespace CatScript

/-- When a sink fails. What becomes of a write may depend on the number of writes before it and on
the bytes held, and what becomes of a flush on the numbers of writes and of flushes before it and on
the bytes held. -/
structure Sink.Policy where
  /-- For a write: nothing if the sink takes all of it, and otherwise how many bytes it takes and
  the reason of the failure. -/
  write : (writes : Nat) → (held data : ByteArray) → Option (Nat × String)
  /-- For a flush: the reason of the failure, if it fails. -/
  flush : (writes flushes : Nat) → (held : ByteArray) → Option String

/-- Every flush is granted. -/
def Sink.Policy.FlushNeverFails (policy : Sink.Policy) : Prop :=
  ∀ writes flushes held, policy.flush writes flushes held = none

/-- A destination for bytes, with the numbers of writes and of flushes that it was asked for. -/
structure Sink where
  policy : Sink.Policy
  writes : Nat
  flushes : Nat
  held : ByteArray

namespace Sink

/-- A sink that holds nothing yet. -/
def ofPolicy (policy : Policy) : Sink := ⟨policy, 0, 0, ByteArray.empty⟩

/-- A sink that never fails. -/
def working : Sink := ofPolicy ⟨fun _ _ _ => none, fun _ _ _ => none⟩

/-- The policy of a buffer with room for so many bytes, or for all there are, which grants a flush
or refuses all of them. -/
def Policy.buffer (limit : Option Nat) (flushes : Bool) : Policy where
  write _ held data :=
    match limit with
    | none => none
    | some limit =>
      if held.size + data.size ≤ limit then none else some (limit - held.size, "sink full")
  flush _ _ _ := if flushes then none else some "flush refused"

/-- Hands bytes to a sink. The answer is the reason of the failure, if there is one. -/
def write (s : Sink) (data : ByteArray) : Option String × Sink :=
  match s.policy.write s.writes s.held data with
  | none => (none, ⟨s.policy, s.writes + 1, s.flushes, s.held ++ data⟩)
  | some (taken, reason) =>
    (some reason, ⟨s.policy, s.writes + 1, s.flushes, s.held ++ data.extract 0 taken⟩)

/-- Asks a sink to pass on what it holds. -/
def flush (s : Sink) : Option String × Sink :=
  (s.policy.flush s.writes s.flushes s.held, ⟨s.policy, s.writes, s.flushes + 1, s.held⟩)

/-- A flush takes no bytes and drops none. -/
theorem held_flush (s : Sink) : s.flush.2.held = s.held := rfl

/-- A write appends its bytes, or the first of them if it fails. -/
theorem held_write (s : Sink) (data : ByteArray) :
    ((s.write data).1 = none ∧ (s.write data).2.held = s.held ++ data) ∨
      ∃ taken reason, (s.write data).1 = some reason ∧
        (s.write data).2.held = s.held ++ data.extract 0 taken := by
  unfold write
  split
  next => exact Or.inl ⟨rfl, rfl⟩
  next taken reason _ => exact Or.inr ⟨taken, reason, rfl, rfl⟩

end Sink

end CatScript
