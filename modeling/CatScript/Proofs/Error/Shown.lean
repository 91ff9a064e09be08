import CatScript.Model.Diagnostic
import CatScript.Proofs.Error.Placed

/-!
# Where errors are shown

An error knows a line and a column, which the lexer counted along the text; a diagnostic counts them
once more, from the offset of the error, and ends lines in its own way.  Where lines end with a line
feed, behind a carriage return or not, both count alike (`Text.locateFrom_eq`).  Unless a script
ended too early, an error points at a character of the text (`Error.PointsAt`), so that nothing is
cut off the offset.  Hence a diagnostic stands at the line and the column that the error knows
(`Session.runText_error_shown`).
-/

set_option autoImplicit false

namespace CatScript

open Token (script)

/-! ## Lines and columns -/

/-- The lines of a text end with a line feed or with a carriage return in front of one, and in no
other way. -/
structure Text.PlainLines (text : List Char) : Prop where
  feeds : ∀ c ∈ text, c.toNat ∉ [0x0B, 0x0C, 0x85, 0x2028, 0x2029]
  returns : ∀ i < text.length, text[i]? = some '\r' → text[i + 1]? = some '\n'

instance (text : List Char) : Decidable (Text.PlainLines text) :=
  decidable_of_iff
    ((text.all fun c => c.toNat ∉ [0x0B, 0x0C, 0x85, 0x2028, 0x2029]) = true ∧
      ∀ i < text.length, text[i]? = some '\r' → text[i + 1]? = some '\n')
    ⟨fun h => ⟨by simpa using h.1, h.2⟩, fun h => ⟨by simpa using h.feeds, h.returns⟩⟩

namespace Text

variable {c next : Char} {rest : List Char}

/-- The lines of what is left of a text end as those of the text do. -/
theorem PlainLines.tail (h : PlainLines (c :: rest)) : PlainLines rest where
  feeds := fun d hd => h.feeds d (List.mem_cons_of_mem c hd)
  returns := fun i hi hreturn => h.returns (i + 1) (Nat.succ_lt_succ hi) hreturn

/-- In such a text a line ends behind a line feed and nothing else. -/
theorem PlainLines.endsLine_eq (h : PlainLines (c :: next :: rest)) :
    endsLine c next = decide (c = '\n') := by
  have hfeeds := h.feeds c (List.mem_cons_self ..)
  simp only [List.mem_cons, List.not_mem_nil, or_false, not_or] at hfeeds
  unfold endsLine
  by_cases hreturn : c = '\r'
  · have hnext : some next = some '\n' :=
      h.returns 0 (Nat.succ_pos _) (congrArg some hreturn)
    rw [if_pos hreturn, Option.some.inj hnext, hreturn]
    rfl
  · have hfeed : c = '\n' ↔ c.toNat = 0x0A := by
      rw [← Char.toNat_inj]
      rfl
    obtain ⟨htab, hform, hnext, hline, hparagraph⟩ := hfeeds
    rw [if_neg hreturn, Bool.eq_iff_iff]
    simp [hfeed, htab, hform, hnext, hline, hparagraph]

/-- In such a text the line and the column of a character are those of the position in front of
it. -/
theorem locateFrom_eq (text : List Char) : ∀ (p : Position) (offset : Nat), PlainLines text →
    offset < text.length → locateFrom p.line p.column text offset =
      ((p.after (text.take offset)).line, (p.after (text.take offset)).column) := by
  induction text with
  | nil =>
    intro p offset h hoffset
    exact absurd hoffset (Nat.not_lt_zero offset)
  | cons c rest ih =>
    intro p offset h hoffset
    cases offset with
    | zero => cases rest <;> rfl
    | succ offset =>
      cases rest with
      | nil => exact absurd (Nat.lt_of_succ_lt_succ hoffset) (Nat.not_lt_zero offset)
      | cons next rest =>
        have hlater := ih (p.next c) offset h.tail (Nat.lt_of_succ_lt_succ hoffset)
        rw [List.take_succ_cons, Position.after_cons, ← hlater, locateFrom, h.endsLine_eq]
        unfold Position.next
        by_cases hc : c = '\n' <;> simp [hc]

/-- Where lines end with line feeds, a character is shown on the line and at the column that are
counted from the line feeds before it. -/
theorem locate_eq {text : List Char} (h : PlainLines text) {offset : Nat}
    (hoffset : offset < text.length) :
    locate text offset = (Position.lineBehind (text.take offset),
      Position.columnBehind (text.take offset)) := by
  have hlocate := locateFrom_eq text .start offset h hoffset
  rwa [Position.after_start] at hlocate

end Text

/-! ## Errors that point at a character -/

/-- An error points at a character of a text, and maybe at some behind it. -/
structure Error.PointsAt (text : List Char) (e : Error) : Prop where
  nonempty : e.span.start < e.span.stop
  inside : e.span.start < text.length

/-- An unexpected character is one of the text. -/
theorem Token.pointsAt_of_ofText {source : String} {e : Error}
    (h : Token.ofText source = .error e) : e.PointsAt source.toList := by
  obtain ⟨passed, c, behind, -, hsource, -, -, rfl, -⟩ :=
    @Token.scanFrom_error Position.start source.toList [] e rfl h
  rw [Position.after_start, hsource]
  exact ⟨Nat.lt_succ_self _, by simp [Error.of, Span.point]⟩

/-- A rejected token stands in the text. -/
theorem Tiles.pointsAt_of_ofTokens {text : List Char} {tokens : List Token}
    (htiles : Tiles text 0 tokens) {e : Error} (h : Program.ofTokens tokens = .error e)
    (hend : ¬ e.AtEnd) : e.PointsAt text := by
  obtain ⟨-, t, ht, hspan⟩ | ⟨hend', -⟩ := Program.ofTokens_error h
  · obtain ⟨-, -, -, -, hbounds⟩ := htiles.exists_eq_script_append
    obtain ⟨hpos, hinside⟩ := hbounds t ht
    rw [← hspan] at hpos hinside
    exact ⟨hpos, hpos.trans_le hinside⟩
  · exact absurd hend' hend

/-- What fails in a run is a node of the program, or it is the last flush of an empty one. -/
theorem Tiles.pointsAt_of_run {text : List Char} (hne : text ≠ []) {tokens : List Token}
    (htiles : Tiles text 0 tokens) {program : Program}
    (hprogram : Program.ofTokens tokens = .ok program) {s after : Session} {e : Error}
    (h : s.run program = (some e, after)) : e.PointsAt text := by
  obtain ⟨top, htop, -, n, hn, hspan⟩ | ⟨-, hspan⟩ := Session.run_error h
  · have hplaced := Program.placed_of_contains htiles hprogram ⟨top, htop, hn⟩
    constructor
    · rw [hspan]
      exact hplaced.nonempty
    · rw [hspan]
      exact hplaced.nonempty.trans_le hplaced.inside
  · constructor
    · rw [hspan]
      exact Nat.zero_lt_one
    · rw [hspan]
      exact List.length_pos_iff.2 hne

/-- Every error of a script that is not empty points at a character of it, unless the script ended
too early. -/
theorem Session.pointsAt_of_runText {source : String} (hne : source.toList ≠ [])
    {s after : Session} {e : Error} (h : s.runText source = (some e, after)) (hend : ¬ e.AtEnd) :
    e.PointsAt source.toList := by
  obtain htext | ⟨tokens, htiles, htokens | ⟨program, mid, hprogram, hrun⟩⟩ := stage_of_runText h
  · exact Token.pointsAt_of_ofText htext
  · exact htiles.pointsAt_of_ofTokens htokens hend
  · exact htiles.pointsAt_of_run hne hprogram hrun

/-- A diagnostic stands where its error says.  In a text whose lines end with line feeds, behind a
carriage return or not, every error of a script in any session, unless the script ended too early,
is shown from its offset, which is that of a character of the text, and at the line and the column
that the error knows. -/
theorem Session.runText_error_shown (source : String) (hne : source ≠ "")
    (hlines : Text.PlainLines source.toList) (s : Session) (e : Error) (after : Session)
    (h : s.runText source = (some e, after)) (hend : ¬ e.AtEnd) :
    let offset := e.offsetIn source.toList.length
    offset = e.span.start ∧ offset < source.toList.length ∧
      Text.locate source.toList offset = (e.span.line, e.span.column) ∧
      ∀ file : Option String,
        let name := file.getD "<repl>"
        (e.diagnose source file).location = some s!"{name}:{e.span.line}:{e.span.column}" := by
  intro offset
  have hne' : source.toList ≠ [] := fun hnil => hne (String.toList_eq_nil_iff.1 hnil)
  obtain ⟨hpos, hinside⟩ := Session.pointsAt_of_runText hne' h hend
  have hplaced := (Session.pointsInto_of_runText h).placed hend
  have hoffset : offset = e.span.start := by
    show min e.span.start (min e.span.stop source.toList.length) = e.span.start
    omega
  have hlocate : Text.locate source.toList offset = (e.span.line, e.span.column) := by
    rw [hoffset, Text.locate_eq hlines hinside, hplaced.line, hplaced.column]
  refine ⟨hoffset, hoffset ▸ hinside, hlocate, ?_⟩
  intro file name
  rw [Diagnostic.location_diagnose e hne, show Text.locate _ (e.offsetIn _) = _ from hlocate]

/-- A division by zero behind a string over two lines, and a carriage return and a line feed, is
shown on the third line. -/
theorem Session.runText_error_shown_third_line :
    let source := "\"\n\"\r\n 1/0"
    let e := Error.of .divisionByZero ⟨6, 9, 3, 2⟩
    source ≠ "" ∧ Text.PlainLines source.toList ∧ ¬ e.AtEnd ∧
      (∃ after, (Session.start Sink.working).runText source = (some e, after)) ∧
      e.offsetIn source.toList.length = 6 ∧ Text.locate source.toList 6 = (3, 2) ∧
      (e.diagnose source none).location = some "<repl>:3:2" := by
  intro source e
  have hlines : Text.PlainLines source.toList := by decide
  have hend : ¬ e.AtEnd := Error.not_atEnd_of_runtime rfl
  have hfailure : ((Session.start Sink.working).runText source).1 = some e := by cbv
  obtain ⟨hoffset, -, hlocate, hlocation⟩ :=
    Session.runText_error_shown source (by decide) hlines _ e _ (Prod.ext hfailure rfl) hend
  rw [hoffset] at hlocate
  refine ⟨by decide, hlines, hend, ⟨_, Prod.ext hfailure rfl⟩, hoffset, hlocate, ?_⟩
  rw [hlocation none]
  exact congrArg some (by decide)

end CatScript
