import CatScript.Proofs.Syntax.Cursor
import CatScript.Proofs.Syntax.Grammar.Complete
import CatScript.Proofs.Syntax.Reader

/-!
# A cursor and a list that gets shorter

What a cursor has in front of it is the part of the script that is not behind it (`Cursor.left`),
and this is a list that gets shorter while the cursor moves.  `Cursor.Follows` says that reading
with a cursor comes to what reading from that list does.  It is carried through one reading behind
another (`Follows.andThen`), and it holds for every way of moving over a single token and for the
end of every loop (`Ended.upTo_arrive`).
-/

set_option autoImplicit false

namespace CatScript.Cursor

open Grammar (ahead)
open Reader (of)

variable {tokens ts us : List Token} {t : Token} {i low low' stop : Nat} {α β γ : Type}

/-! ## Where the cursor stands -/

/-- The tokens of the script that are not behind the cursor. -/
def left (tokens : List Token) (i : Nat) : List Token := (Token.script tokens).drop i

/-- The first end of the input stands right behind the script. -/
theorem finish_eq (tokens : List Token) : finish tokens = (Token.script tokens).length := by
  unfold finish Token.script
  induction tokens with
  | nil => rfl
  | cons t ts ih =>
    by_cases h : t.kind = .endOfInput
    · simp [List.findIdx_cons, h]
    · simp [List.findIdx_cons, h, ih]

/-- What a cursor relies on: the tokens have an end, and the end is not the first of them. -/
structure Ended (tokens : List Token) : Prop where
  ends : finish tokens < tokens.length
  begins : Token.script tokens ≠ []

/-- In front of a token of the script. -/
theorem left_cons (h : left tokens i = t :: ts) :
    look tokens i = .ok t ∧ t.kind ≠ .endOfInput ∧ left tokens (i + 1) = ts ∧
      i + 1 ≤ finish tokens := by
  have hget : (Token.script tokens)[i]? = some t := by
    rw [← List.head?_drop, ← left, h, List.head?_cons]
  obtain ⟨tail, htail⟩ : Token.script tokens <+: tokens := List.takeWhile_prefix _
  have hlength : i < (Token.script tokens).length := (List.getElem?_eq_some_iff.1 hget).1
  refine ⟨?_, ?_, ?_, ?_⟩
  · rw [look, ← htail, List.getElem?_append_left hlength, hget]
  · exact Grammar.kind_ne_of_mem_script (List.mem_of_getElem? hget)
  · rw [left, ← List.drop_drop, ← left, h, List.drop_one, List.tail_cons]
  · rwa [finish_eq]

section

variable {last : Token} (tokens : List Token) (hlast : last.kind = .endOfInput)
  (behind : List Token)

include hlast

/-- A script ends at an end of the input, whatever stands behind that. -/
theorem script_script_append :
    Token.script (Token.script tokens ++ last :: behind) = Token.script tokens := by
  have hnil : Token.script (last :: behind) = [] := Grammar.script_eq_nil hlast
  rw [Grammar.script_append fun t ht => Grammar.kind_ne_of_mem_script ht, hnil, List.append_nil]

/-- Errors at an end of the input point there, whatever stands behind that. -/
theorem finish_script_append :
    Token.finish (Token.script tokens ++ last :: behind) =
      Span.point ⟨((Token.script tokens).getLast?.getD Token.origin).span.stop,
        last.line, last.column⟩ := by
  have hnone : (Token.script tokens).find? (·.kind = .endOfInput) = none := by
    rw [List.find?_eq_none]
    intro t ht
    simpa using Grammar.kind_ne_of_mem_script ht
  have hfind : (Token.script tokens ++ last :: behind).find? (·.kind = .endOfInput) =
      some last := by
    rw [List.find?_append, hnone]
    simp [hlast]
  simp [Token.finish, script_script_append tokens hlast behind, hfind]

end

/-- At the end of the script the next token is the end of the input, and the place where errors
point there is just behind the token before it. -/
theorem Ended.left_nil (h : Ended tokens) (hi : i ≤ finish tokens) (hleft : left tokens i = []) :
    0 < i ∧ ∃ t last, look tokens i = .ok t ∧ look tokens (i - 1) = .ok last ∧
      t.kind = .endOfInput ∧
      Token.finish tokens = Span.point ⟨last.span.stop, t.line, t.column⟩ := by
  obtain ⟨tail, htokens, htail⟩ := Grammar.exists_eq_script_append tokens
  obtain ⟨init, last, hscript⟩ :=
    (List.eq_nil_or_concat (Token.script tokens)).resolve_left h.begins
  have hends := h.ends
  have hlength : (Token.script tokens).length = init.length + 1 := by simp [hscript]
  rw [finish_eq] at hi hends
  obtain rfl : i = init.length + 1 := by
    rw [left, List.drop_eq_nil_iff] at hleft
    omega
  obtain ⟨t, behind, rfl⟩ : ∃ t behind, tail = t :: behind := by
    refine List.exists_cons_of_ne_nil fun hnil => ?_
    rw [hnil, List.append_nil] at htokens
    rw [← htokens] at hends
    exact absurd hends (lt_irrefl _)
  have hkind : t.kind = .endOfInput := htail
  refine ⟨by omega, t, last, ?_, ?_, hkind, ?_⟩
  · rw [look, htokens, List.getElem?_append_right (by omega)]
    simp [hlength]
  · rw [look, htokens, List.getElem?_append_left (by omega), hscript]
    simp
  · have hfinish := finish_script_append tokens hkind behind
    rw [← htokens] at hfinish
    rw [hfinish, hscript]
    simp

/-! ## The two ways of reading -/

/-- What goes on behind a success goes on with its value. -/
theorem ok_bind {ε : Type} (value : α) (f : α → Except ε β) : (Except.ok value >>= f) = f value :=
  rfl

/-- A help for a rejection is one for the error that it stands for. -/
theorem orHelp_rejected (r : Rejection) (help : String) (span : Span) :
    Halt.orHelp help (.rejected (r.error span)) = .rejected ((r.orHelp help).error span) := by
  unfold Rejection.error Rejection.orHelp
  cases r.rest <;> rfl

/-- A rejection is the error that it stands for in the given tokens. -/
def rejecting (tokens : List Token) (x : Except Rejection α) : Except Halt α :=
  x.mapError fun r => .rejected (r.error (Token.finish tokens))

/-- Reading with a cursor comes to what reading from a list does: the same is read and left, or the
same error arises, and there is no fault. -/
def Follows (m : Except Halt (Moved tokens low α)) (x : Except Rejection (α × List Token)) : Prop :=
  m.map (fun r => (r.value, left tokens r.stop)) = rejecting tokens x

variable {m : Except Halt (Moved tokens low α)} {x : Except Rejection (α × List Token)}
variable {F : Reader α} {G : α → Reader β}

/-- Where reading with a cursor does not stop, reading from a list does not either. -/
theorem Follows.eq_ok {r : Moved tokens low α} (h : Follows (.ok r) x) :
    x = .ok (r.value, left tokens r.stop) := by
  cases x with
  | error r' => simp [Follows, rejecting, Except.map, Except.mapError] at h
  | ok result => exact congrArg Except.ok (Except.ok.inj h).symm

/-- Where reading with a cursor stops, reading from a list stops at the same error. -/
theorem Follows.eq_error {halt : Halt}
    (h : Follows (.error halt : Except Halt (Moved tokens low α)) x) :
    ∃ r, x = .error r ∧ halt = .rejected (r.error (Token.finish tokens)) := by
  cases x with
  | error r => exact ⟨r, rfl, Except.error.inj h⟩
  | ok result => simp [Follows, rejecting, Except.map, Except.mapError] at h

/-- Where reading from a list stops, nothing more is read with the cursor either. -/
theorem Follows.bind_error {r : Rejection} (h : Follows m (.error r))
    (k : Moved tokens low α → Except Halt (Moved tokens low' β)) :
    Follows (m >>= k) (.error r) := by
  cases m with
  | error halt =>
    obtain rfl := Except.error.inj h
    rfl
  | ok r' => exact absurd h.eq_ok (by simp)

/-- Reading with a cursor and going on comes to what two readers one behind the other do. -/
theorem Follows.andThen {k : Moved tokens low α → Except Halt (Moved tokens low' β)}
    (h : Follows m (F ts))
    (hk : ∀ r, F ts = .ok (r.value, left tokens r.stop) →
      Follows (k r) (G r.value (left tokens r.stop))) :
    Follows (m >>= k) (F.andThen G ts) := by
  cases m with
  | error halt =>
    obtain ⟨r, hx, rfl⟩ := h.eq_error
    rw [Reader.andThen, hx]
    rfl
  | ok r =>
    rw [Reader.andThen, h.eq_ok]
    exact hk r h.eq_ok

/-- Reading with a cursor and making something of it comes to what the reader does of which it is
made. -/
theorem Follows.map {k : Moved tokens low α → Except Halt (Moved tokens low' β)} {f : α → β}
    (h : Follows m (F ts))
    (hk : ∀ r, Follows (k r) (.ok (f r.value, left tokens r.stop))) :
    Follows (m >>= k) (F.map f ts) :=
  h.andThen fun r _ => hk r

/-- A help for rejections is given to both. -/
theorem Follows.orHelp (h : Follows m (F ts)) (help : String) :
    Follows (m.mapError (Halt.orHelp help)) (F.orHelp help ts) := by
  rw [Reader.orHelp]
  cases m with
  | error halt =>
    obtain ⟨r, hx, rfl⟩ := h.eq_error
    rw [hx]
    exact congrArg Except.error (orHelp_rejected r help _)
  | ok r =>
    rw [h.eq_ok]
    rfl

/-- A cursor that has moved, but not behind the end, arrives. -/
theorem arrive_eq {value : α} (further : low ≤ stop) (inside : stop ≤ finish tokens) :
    arrive tokens low stop value = .ok ⟨value, stop, further, inside⟩ := by
  rw [arrive, dif_pos further, dif_pos inside]

/-- Arriving comes to succeeding. -/
theorem follows_arrive {value : α} (further : low ≤ stop) (inside : stop ≤ finish tokens) :
    Follows (arrive tokens low stop value) (.ok (value, left tokens stop)) := by
  rw [arrive_eq further inside]
  rfl

/-- What a reading has moved over, it has moved over. -/
theorem Follows.weaken (h : Follows m x) (hlow : low' ≤ low) :
    Follows (m >>= fun r => arrive tokens low' r.stop r.value) x := by
  cases m with
  | error halt => exact h
  | ok r =>
    rw [ok_bind, arrive_eq (hlow.trans r.further) r.inside]
    exact h

/-! ## One token -/

/-- In front of a token of the script the cursor advances over it. -/
theorem advance_eq (h : left tokens i = t :: ts) (hinside : i + 1 ≤ finish tokens) :
    advance tokens i = .ok ⟨t, i + 1, le_rfl, hinside⟩ := by
  obtain ⟨hlook, hkind, -, -⟩ := left_cons h
  simp only [advance, hlook, ok_bind, if_neg hkind, Nat.add_sub_cancel,
    arrive_eq (le_refl (i + 1)) hinside]

/-- A token of the script is rejected in both. -/
theorem follows_reject_token (hkind : t.kind ≠ .endOfInput) {expected : Expected}
    {help : Option String} :
    Follows (reject tokens i expected t help : Except Halt (Moved tokens low α))
      (.error ⟨expected, t :: ts, help⟩) := by
  rw [reject, if_neg fun h => hkind h.1]
  rfl

/-- The end of the input is rejected in both, at the same place. -/
theorem Ended.follows_reject_end (h : Ended tokens) (hi : i ≤ finish tokens)
    (hleft : left tokens i = []) (hlook : look tokens i = .ok t) {expected : Expected}
    {help : Option String} :
    Follows (reject tokens i expected t help : Except Halt (Moved tokens low α))
      (.error ⟨expected, [], help⟩) := by
  obtain ⟨hpos, u, last, hu, hlast, hkind, hfinish⟩ := h.left_nil hi hleft
  obtain rfl := Except.ok.inj (hlook.symm.trans hu)
  rw [reject, if_pos ⟨hkind, hpos⟩, hlast]
  unfold Follows rejecting Except.mapError Rejection.error
  rw [hkind, hfinish]
  rfl

/-- Up to the end of the input there is a token at every place, of the kind that is ahead. -/
theorem Ended.exists_look (h : Ended tokens) (hi : i ≤ finish tokens) :
    ∃ t, look tokens i = .ok t ∧ t.kind = ahead (left tokens i) := by
  cases hleft : left tokens i with
  | nil =>
    obtain ⟨-, t, -, hlook, -, hkind, -⟩ := h.left_nil hi hleft
    exact ⟨t, hlook, hkind⟩
  | cons t ts => exact ⟨t, (left_cons hleft).1, rfl⟩

/-- A token of the kind that has to stand here is consumed. -/
theorem consume_eq {kind : TokenKind} (h : left tokens i = t :: ts) (hkind : t.kind = kind)
    (hinside : i + 1 ≤ finish tokens) (help : String) :
    consume tokens kind help i = .ok ⟨t, i + 1, le_rfl, hinside⟩ := by
  rw [consume, (left_cons h).1, ok_bind, if_pos hkind, advance_eq h hinside]

/-- A token that has to stand here is consumed where it is read, and rejected where it is rejected.
-/
theorem Ended.follows_consume (h : Ended tokens) (hi : i ≤ finish tokens) {kind : TokenKind}
    (hkind : kind ≠ .endOfInput) (help : String) :
    Follows (consume tokens kind help i) (of (Token.expect kind help) (left tokens i)) := by
  obtain ⟨t, hlook, ht⟩ := h.exists_look hi
  rw [consume, hlook, ok_bind]
  cases hleft : left tokens i with
  | nil =>
    rw [hleft] at ht
    rw [if_neg (by rw [ht]; exact hkind.symm), Token.of_expect_nil]
    exact h.follows_reject_end hi hleft hlook
  | cons u us =>
    obtain rfl : u = t := Except.ok.inj ((left_cons hleft).1.symm.trans hlook)
    obtain ⟨-, hu, rfl, hinside⟩ := left_cons hleft
    by_cases h : u.kind = kind
    · rw [if_pos h, Token.of_expect h, advance_eq hleft hinside]
      rfl
    · rw [if_neg h, Token.of_expect_ne h]
      exact follows_reject_token hu

/-- A comma is skipped as it is in the list. -/
theorem Ended.skipComma_eq (h : Ended tokens) (hi : i ≤ finish tokens) :
    ∃ stop, skipComma tokens i = .ok stop ∧ i ≤ stop ∧ stop ≤ finish tokens ∧
      left tokens stop = Token.skipComma (left tokens i) := by
  obtain ⟨t, hlook, ht⟩ := h.exists_look hi
  rw [skipComma, hlook, ok_bind]
  cases hleft : left tokens i with
  | nil =>
    rw [hleft] at ht
    rw [if_neg (by rw [ht]; decide)]
    exact ⟨i, rfl, le_rfl, hi, hleft⟩
  | cons u us =>
    obtain rfl : u = t := Except.ok.inj ((left_cons hleft).1.symm.trans hlook)
    obtain ⟨-, -, hus, hinside⟩ := left_cons hleft
    rw [Token.skipComma]
    by_cases h : u.kind = .comma
    · rw [if_pos h, if_pos h, advance_eq hleft hinside]
      exact ⟨i + 1, rfl, Nat.le_succ i, hinside, hus⟩
    · rw [if_neg h, if_neg h]
      exact ⟨i, rfl, le_rfl, hi, hleft⟩

/-! ## Loops -/

section

variable {kind : TokenKind} {help : String} {f : α → Token → β}

/-- What comes before a loop is read before what closes the loop. -/
theorem upTo_bind (m : Except Halt γ) (k : γ → Except Halt (Moved tokens i α)) :
    upTo tokens kind help f (m >>= k) = m >>= fun r => upTo tokens kind help f (k r) := by
  cases m <;> rfl

/-- What a round puts in front of the others is there when the loop is closed. -/
theorem Follows.upTo_arrive {m : Except Halt (Moved tokens low γ)} {g : γ → α}
    {x : Except Rejection (β × List Token)} (hlow : i ≤ low)
    (h : Follows (upTo tokens kind help (fun all close => f (g all) close) m) x) :
    Follows (upTo tokens kind help f
      (m >>= fun others => arrive tokens i others.stop (g others.value))) x := by
  cases m with
  | error halt => exact h
  | ok others =>
    rw [ok_bind, arrive_eq (hlow.trans others.further) others.inside]
    unfold upTo at h ⊢
    rw [ok_bind] at h ⊢
    cases hclose : consume tokens kind help others.stop with
    | error halt => rwa [hclose] at h
    | ok close =>
      have hfurther := others.further
      have hclose' := close.further
      rw [hclose, ok_bind, arrive_eq (by omega) close.inside] at h
      rwa [ok_bind, arrive_eq (by omega) close.inside]

/-- A loop without another round ends at the token that closes it. -/
theorem Ended.upTo_arrive (h : Ended tokens) (hi : i ≤ finish tokens) (hkind : kind ≠ .endOfInput)
    (value : α) :
    Follows (upTo tokens kind help f (arrive tokens i i value))
      ((of (Token.expect kind help)).map (fun close => f value close) (left tokens i)) := by
  rw [arrive_eq le_rfl hi, upTo, ok_bind]
  exact (h.follows_consume hi hkind help).map fun close =>
    follows_arrive close.further close.inside

end

end CatScript.Cursor
