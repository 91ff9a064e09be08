import CatScript.Proofs.Evaluation.Steps
import CatScript.Proofs.Syntax.Joined

/-!
# A script in two pieces

A script can be run in pieces, one after the other in the same session.  Two texts with a line end
in between are the program of both (`Program.ofText_append`).  The run of the whole executes the
statements of the first piece and then those of the second, where the run of the first piece flushes
the sink in between; and the second piece points further down in the whole than by itself.  Neither
makes a difference to what a run does, as long as no flush is refused: `Session.Alike` relates two
sessions that differ only in the flushes their sinks have counted, and a statement that is moved
does the same in both (`Session.exec_follows`).
-/

set_option autoImplicit false

namespace CatScript

variable {f : Span → Span}

namespace Session

variable {s t : Session} {x y : Option Error × Session}

/-! ## Sessions that differ only in the flushes counted -/

/-- Two sessions on a sink whose flush never fails, that differ at most in how many flushes the sink
has counted. -/
structure Alike (s t : Session) : Prop where
  granted : s.sink.policy.FlushNeverFails
  policy : t.sink.policy = s.sink.policy
  writes : t.sink.writes = s.sink.writes
  held : t.sink.held = s.sink.held
  scope : t.scope = s.scope
  journal : t.journal = s.journal

/-- A step of a session and one of another session: they fail alike, up to spans, and leave the
sessions alike. -/
structure Follows (f : Span → Span) (x y : Option Error × Session) : Prop where
  outcome : y.1 = x.1.map (Error.respan f)
  alike : x.2.Alike y.2

/-- Where a step follows another one and what comes after it does too, they do so together. -/
theorem Follows.andThen (h : Follows f x y) {next next' : Session → Option Error × Session}
    (hnext : ∀ {s t : Session}, s.Alike t → Follows f (next s) (next' t)) :
    Follows f (andThen x next) (andThen y next') := by
  obtain ⟨_ | e, s⟩ := x
  · obtain ⟨_, t⟩ := y
    obtain rfl := h.outcome
    exact hnext h.alike
  · obtain ⟨_, t⟩ := y
    obtain rfl := h.outcome
    exact ⟨rfl, h.alike⟩

namespace Alike

/-- A session is like itself. -/
theorem refl (h : s.sink.policy.FlushNeverFails) : s.Alike s := ⟨h, rfl, rfl, rfl, rfl, rfl⟩

/-- The same record in both sessions. -/
theorem record (h : s.Alike t) (level : Level) (topic : Topic) (message : String) :
    (s.record level topic message).Alike (t.record level topic message) :=
  ⟨h.granted, h.policy, h.writes, h.held, h.scope, congrArg (Array.push · _) h.journal⟩

/-- The same change of the scope in both sessions. -/
theorem withScope (h : s.Alike t) (change : Scope → Scope) :
    Session.Alike { s with scope := change s.scope } { t with scope := change t.scope } :=
  ⟨h.granted, h.policy, h.writes, h.held, congrArg change h.scope, h.journal⟩

/-- A flush in both sessions, blamed on whatever place. -/
theorem flush (h : s.Alike t) (span span' : Span) :
    Follows f (s.flush span) (t.flush span') := by
  have ht : t.sink.policy.FlushNeverFails := by
    rw [h.policy]
    exact h.granted
  rw [flush_of_granted h.granted, flush_of_granted ht]
  exact ⟨rfl, h.granted, h.policy, h.writes, h.held, h.scope, h.journal⟩

/-- The first of the two sessions may be flushed, and the two stay alike. -/
theorem flushed (h : s.Alike t) : Session.Alike { s with sink := s.sink.flush.2 } t :=
  ⟨h.granted, h.policy, h.writes, h.held, h.scope, h.journal⟩

/-- A line in both sessions: what becomes of a write is up to the writes before it. -/
theorem print (h : s.Alike t) (text : String) (span : Span) :
    Follows f (s.print text span) (t.print text (f span)) := by
  obtain ⟨_, ⟨_, _, flushes, _⟩, _⟩ := s
  obtain ⟨_, ⟨policy, writes, flushes', held⟩, _⟩ := t
  obtain ⟨hgranted, rfl, rfl, rfl, rfl, rfl⟩ := h
  unfold Session.print Sink.write
  dsimp only
  cases policy.write writes held (text ++ "\n").toUTF8 with
  | none => exact ⟨rfl, hgranted, rfl, rfl, rfl, rfl, rfl⟩
  | some failure => exact ⟨rfl, hgranted, rfl, rfl, rfl, rfl, rfl⟩

end Alike

open Grammar (ahead)
open Token (script)

/-- A session with room for the string and its line end, and for no more. -/
def narrow : Session := start (Sink.ofPolicy (.buffer (some 4) true))

end Session

end CatScript
