import CatScript.Proofs.Evaluation.Blame
import CatScript.Proofs.Syntax.Placed
import CatScript.Proofs.Syntax.Hopeless
import CatScript.Proofs.Token.Unexpected

/-!
# Where errors point

An error points at a character of the text, or at its end, by an offset, a line and a column.  For
an unexpected character, a rejected token and everything that fails in a run the three agree.  They
do not for a script that ends too early: its error has the offset of the end of the last token and
the line and the column of the end of the text, and these are one place only if no blank follows
the last token.  `Session.runText_error_placed` says this of every error of a script in a fresh
session, and `Session.runText_error_displaced` shows such a blank.
-/

set_option autoImplicit false

namespace CatScript

open Token (script)

/-- A span begins in a text, or at its end, and knows the line and the column of that place. -/
structure Span.PlacedIn (text : List Char) (span : Span) : Prop where
  inside : span.start ≤ text.length
  line : span.line = Position.lineBehind (text.take span.start)
  column : span.column = Position.columnBehind (text.take span.start)

/-- The script ended where something else was expected. -/
def Error.AtEnd (e : Error) : Prop := ∃ expected, e.cause = .unexpectedToken expected .endOfInput

/-- No error of an evaluation is one of a script that ended too early. -/
theorem Error.not_atEnd_of_runtime {e : Error} (h : e.cause.stage = .runtime) : ¬ e.AtEnd := by
  rintro ⟨expected, hcause⟩
  simp [hcause, Cause.stage] at h

/-! ## Places in a text -/

/-- The span of one character behind a piece of a text has the line and the column of its offset. -/
theorem Span.placedIn_point (before rest : List Char) :
    (Span.point (Position.start.after before)).PlacedIn (before ++ rest) := by
  rw [Position.after_start]
  refine ⟨?_, ?_, ?_⟩
  · simp [Span.point]
  · simp [Span.point]
  · simp [Span.point]

/-- On one line the column counts the characters. -/
theorem Position.columnBehind_append {before : List Char} :
    ∀ {rest : List Char}, '\n' ∉ rest →
      columnBehind (before ++ rest) = columnBehind before + rest.length := by
  intro rest
  induction rest using List.reverseRecOn with
  | nil => simp
  | append_singleton rest c ih =>
    intro h
    have hrest : '\n' ∉ rest := fun hmem => h (List.mem_append_left _ hmem)
    have hc : c ≠ '\n' := fun hc => h (by simp [hc])
    rw [← List.append_assoc, columnBehind_concat, if_neg hc, ih hrest]
    simp
    omega

/-- The line and the column of a place say how many characters stand in front of it. -/
theorem Position.eq_nil_of_same_place {before rest : List Char}
    (hline : lineBehind (before ++ rest) = lineBehind before)
    (hcolumn : columnBehind (before ++ rest) = columnBehind before) : rest = [] := by
  have hnone : '\n' ∉ rest := by
    unfold lineBehind at hline
    rw [List.count_append] at hline
    exact List.count_eq_zero.1 (by omega)
  rw [columnBehind_append hnone] at hcolumn
  exact List.length_eq_zero_iff.1 (by omega)

/-- A span that has the line and the column of the end of a text is placed in it only if it begins
there. -/
theorem Span.placedIn_iff_of_end {text : List Char} {span : Span}
    (hinside : span.start ≤ text.length) (hline : span.line = Position.lineBehind text)
    (hcolumn : span.column = Position.columnBehind text) :
    span.PlacedIn text ↔ span.start = text.length := by
  constructor
  · intro h
    have hrest : text.drop span.start = [] := by
      apply @Position.eq_nil_of_same_place (text.take span.start)
      · rw [List.take_append_drop, ← hline, h.line]
      · rw [List.take_append_drop, ← hcolumn, h.column]
    have := List.drop_eq_nil_iff.1 hrest
    omega
  · intro h
    rw [← List.take_length (l := text), ← h] at hline hcolumn
    exact ⟨hinside, hline, hcolumn⟩

/-! ## Rejected tokens -/

section Rejected

variable {text : List Char} {tokens : List Token}

/-- The tokens that tile a text stand where they say. -/
theorem Tiles.placedIn (h : Tiles text 0 tokens) {t : Token} (ht : t ∈ tokens) :
    t.span.PlacedIn text := by
  obtain ⟨hline, hline', hcolumn, hcolumn'⟩ := h.placed t ht
  obtain ⟨pieces, last, rfl, -, hstart, -, hpieces⟩ := h.ends
  refine ⟨?_, by rw [hline', hline], by rw [hcolumn', hcolumn]⟩
  obtain ht | ht := List.mem_append.1 ht
  · have := hpieces t ht
    omega
  · rw [List.mem_singleton.1 ht, hstart]

/-- The end of a script is the offset behind all of its tokens. -/
theorem Tiles.finish_start (h : Tiles text 0 tokens) :
    (Token.finish tokens).start ≤ text.length ∧
      ∀ t ∈ script tokens, t.span.stop ≤ (Token.finish tokens).start := by
  have hline := h.script_inLine
  unfold Token.finish
  cases hlast : (script tokens).getLast? with
  | none =>
    have hnil := List.getLast?_eq_none_iff.1 hlast
    simp [hnil, Span.point, Token.origin]
  | some last =>
    obtain ⟨others, hscript⟩ := List.getLast?_eq_some_iff.1 hlast
    have hordered := hline.ordered
    rw [hscript] at hordered
    refine ⟨(hline.nonempty last (List.mem_of_getLast? hlast)).2, ?_⟩
    intro t ht
    show t.span.stop ≤ last.span.stop
    rw [hscript] at ht
    obtain ht | ht := List.mem_append.1 ht
    · have hbefore := (List.pairwise_append.1 hordered).2.2 t ht last (List.mem_singleton_self last)
      have hpos := (hline.nonempty last (List.mem_of_getLast? hlast)).1
      omega
    · rw [List.mem_singleton.1 ht]

/-- The end of a script has the line and the column of the end of the text, and only blanks lie
between its offset and that end. -/
theorem Tiles.finish_place (h : Tiles text 0 tokens) :
    (∀ c ∈ text.drop (Token.finish tokens).start, Text.isBlank c = true) ∧
      (Token.finish tokens).line = Position.lineBehind text ∧
      (Token.finish tokens).column = Position.columnBehind text := by
  obtain ⟨last, htokens, hkind, hstart, -⟩ := h.exists_eq_script_append
  have hmem : last ∈ tokens := by
    rw [htokens]
    exact List.mem_append_right _ (List.mem_singleton_self last)
  obtain ⟨hline, -, hcolumn, -⟩ := h.placed last hmem
  have hfind : tokens.find? (·.kind = .endOfInput) = some last := by
    have hnone : (script tokens).find? (·.kind = .endOfInput) = none := by
      rw [List.find?_eq_none]
      intro t ht
      simpa using List.mem_takeWhile_imp ht
    rw [htokens, List.find?_append, hnone]
    simp [hkind]
  rw [hstart, List.take_length] at hline hcolumn
  refine ⟨?_, ?_, ?_⟩
  · intro c hc
    obtain ⟨i, hi, rfl⟩ := List.mem_iff_getElem.1 hc
    rw [List.getElem_drop]
    rw [List.length_drop] at hi
    refine h.blank _ (by omega) (Nat.zero_le _) fun t ht => ?_
    rw [htokens] at ht
    obtain ht | ht := List.mem_append.1 ht
    · have := h.finish_start.2 t ht
      omega
    · rw [List.mem_singleton.1 ht]
      omega
  · simp [Token.finish, hfind, Span.point, ← hline]
  · simp [Token.finish, hfind, Span.point, ← hcolumn]

/-- An error of tokens points at one of the script, or it is that the script ended. -/
theorem Program.ofTokens_error {e : Error} (h : Program.ofTokens tokens = .error e) :
    (¬ e.AtEnd ∧ ∃ t ∈ script tokens, e.span = t.span) ∨
      e.AtEnd ∧ e.span = Token.finish tokens := by
  unfold Program.ofTokens at h
  cases hall : Stmt.all (script tokens) with
  | ok statements => simp [hall] at h
  | error r =>
    rw [hall] at h
    have hsuffix := Stmt.rest_suffix_of_all (script tokens) hall
    rw [← Except.error.inj h]
    unfold Rejection.error
    cases hrest : r.rest with
    | nil => exact .inr ⟨⟨r.expected, rfl⟩, rfl⟩
    | cons t rest =>
      have hmem : t ∈ script tokens := hsuffix.subset (by simp [hrest])
      refine .inl ⟨?_, t, hmem, rfl⟩
      rintro ⟨expected, hcause⟩
      have hkind : t.kind = .endOfInput := (Cause.unexpectedToken.inj hcause).2
      simpa [hkind] using List.mem_takeWhile_imp hmem

end Rejected

/-! ## Scripts -/

/-- What an error of a script says about the place where it arose: it points at a character of the
text or its end, and knows the line and the column of it, unless the script ended too early.  Then
the line and the column are those of the end of the text, and only blanks lie in between. -/
structure Error.PointsInto (text : List Char) (e : Error) : Prop where
  inside : e.span.start ≤ text.length
  placed : ¬ e.AtEnd → e.span.PlacedIn text
  behind : e.AtEnd → (∀ c ∈ text.drop e.span.start, Text.isBlank c = true) ∧
    e.span.line = Position.lineBehind text ∧ e.span.column = Position.columnBehind text

/-- An error whose span stands where it says points into the text. -/
theorem Error.PointsInto.of_placed {text : List Char} {e : Error} (h : e.span.PlacedIn text)
    (hend : ¬ e.AtEnd) : e.PointsInto text :=
  ⟨h.inside, fun _ => h, fun h' => absurd h' hend⟩

/-- Every error of reading a text points into it. -/
theorem Token.pointsInto_of_ofText {source : String} {e : Error}
    (h : Token.ofText source = .error e) : e.PointsInto source.toList := by
  obtain ⟨passed, c, behind, -, hsource, -, -, rfl, -⟩ :=
    @Token.scanFrom_error Position.start source.toList [] e rfl h
  refine .of_placed ?_ ?_
  · rw [hsource]
    exact Span.placedIn_point passed (c :: behind)
  · rintro ⟨expected, hcause⟩
    simp [Error.of] at hcause

/-- Every error of reading the tokens of a text points into the text. -/
theorem Tiles.pointsInto_of_ofTokens {text : List Char} {tokens : List Token}
    (htiles : Tiles text 0 tokens) {e : Error} (h : Program.ofTokens tokens = .error e) :
    e.PointsInto text := by
  obtain ⟨hend, t, ht, hspan⟩ | ⟨hend, hspan⟩ := Program.ofTokens_error h
  · refine .of_placed ?_ hend
    rw [hspan]
    exact htiles.placedIn (List.takeWhile_subset _ ht)
  · refine ⟨?_, fun h' => absurd hend h', fun _ => ?_⟩
    · rw [hspan]
      exact htiles.finish_start.1
    · rw [hspan]
      exact htiles.finish_place

/-- Every error of running the program of a text points into the text. -/
theorem Tiles.pointsInto_of_run {text : List Char} {tokens : List Token}
    (htiles : Tiles text 0 tokens) {program : Program}
    (hprogram : Program.ofTokens tokens = .ok program) {s after : Session} {e : Error}
    (h : s.run program = (some e, after)) : e.PointsInto text := by
  obtain ⟨top, htop, hstage, n, hn, hspan⟩ | ⟨hstage, hspan⟩ := Session.run_error h
  · have hplaced := Program.placed_of_contains htiles hprogram ⟨top, htop, hn⟩
    refine .of_placed ?_ (Error.not_atEnd_of_runtime hstage)
    rw [hspan]
    exact ⟨hplaced.nonempty.le.trans hplaced.inside, hplaced.line, hplaced.column⟩
  · refine .of_placed ?_ (Error.not_atEnd_of_runtime hstage)
    rw [hspan]
    exact Span.placedIn_point [] text

/-- An error of a script is one of reading its text, of reading its tokens, or of running its
program. -/
theorem Session.stage_of_runText {source : String} {s after : Session} {e : Error}
    (h : s.runText source = (some e, after)) :
    Token.ofText source = .error e ∨ ∃ tokens, Tiles source.toList 0 tokens ∧
      (Program.ofTokens tokens = .error e ∨ ∃ program mid,
        Program.ofTokens tokens = .ok program ∧ run mid program = (some e, after)) := by
  unfold Session.runText Session.read at h
  cases htokens : Token.ofText source with
  | error failure =>
    have he : failure = e := by simpa [htokens] using congrArg Prod.fst h
    exact .inl (congrArg Except.error he)
  | ok tokens =>
    refine .inr ⟨tokens, Token.ofText_tiles source tokens htokens, ?_⟩
    cases hprogram : Program.ofTokens tokens with
    | error failure =>
      have he : failure = e := by simpa [htokens, hprogram] using congrArg Prod.fst h
      exact .inl (congrArg Except.error he)
    | ok program =>
      simp only [htokens, hprogram] at h
      exact .inr ⟨program, _, rfl, h⟩

/-- Every error of a script points into its text, whatever session it is run in. -/
theorem Session.pointsInto_of_runText {source : String} {s after : Session} {e : Error}
    (h : s.runText source = (some e, after)) : e.PointsInto source.toList := by
  obtain htext | ⟨tokens, htiles, htokens | ⟨program, mid, hprogram, hrun⟩⟩ := stage_of_runText h
  · exact Token.pointsInto_of_ofText htext
  · exact htiles.pointsInto_of_ofTokens htokens
  · exact htiles.pointsInto_of_run hprogram hrun

/-- Every error of a script in a fresh session begins in the text.  It knows the line and the column
of that place exactly if it is no end of the script in front of blanks; in front of blanks, its line
and column are those of the end of the text. -/
theorem Session.runText_error_placed (source : String) (sink : Sink) (e : Error) (after : Session)
    (h : (Session.start sink).runText source = (some e, after)) :
    e.span.start ≤ source.toList.length ∧
      (e.span.PlacedIn source.toList ↔ (e.AtEnd → e.span.start = source.toList.length)) ∧
      (e.AtEnd → (∀ c ∈ source.toList.drop e.span.start, Text.isBlank c = true) ∧
        e.span.line = Position.lineBehind source.toList ∧
        e.span.column = Position.columnBehind source.toList) := by
  have hpoints := Session.pointsInto_of_runText h
  refine ⟨hpoints.inside, ?_, hpoints.behind⟩
  by_cases hend : e.AtEnd
  · obtain ⟨-, hline, hcolumn⟩ := hpoints.behind hend
    rw [Span.placedIn_iff_of_end hpoints.inside hline hcolumn]
    exact ⟨fun hstart _ => hstart, fun hstart => hstart hend⟩
  · exact ⟨fun _ h' => absurd h' hend, fun _ => hpoints.placed hend⟩

/-- A variable that is asked for in vain on the second line. -/
theorem Session.runText_error_placed_second_line :
    ∃ after, (Session.start Sink.working).runText "purr(1)\n woof y" =
        (some (.of (.undefinedVariable "y") ⟨9, 15, 2, 2⟩), after) ∧
      9 ≤ "purr(1)\n woof y".toList.length ∧
      ((⟨9, 15, 2, 2⟩ : Span).PlacedIn "purr(1)\n woof y".toList ↔
        ((Error.of (.undefinedVariable "y") ⟨9, 15, 2, 2⟩).AtEnd →
          9 = "purr(1)\n woof y".toList.length)) := by
  have hfailure : ((Session.start Sink.working).runText "purr(1)\n woof y").1 =
      some (.of (.undefinedVariable "y") ⟨9, 15, 2, 2⟩) := by cbv
  have h := Session.runText_error_placed _ _ _ _ (Prod.ext hfailure rfl)
  exact ⟨_, Prod.ext hfailure rfl, h.1, h.2.1⟩

/-- The error of a declaration without a value in front of a line end: it points at that line end,
which is the ninth character of the first line, and says that it stands on the second line. -/
theorem Session.runText_error_displaced :
    ∃ after, (Session.start Sink.working).runText "meow x =\n" =
        (some ⟨.unexpectedToken .expression .endOfInput, ⟨8, 9, 2, 1⟩,
          some "Reached end of input while expecting an expression."⟩, after) ∧
      ¬ (⟨8, 9, 2, 1⟩ : Span).PlacedIn "meow x =\n".toList := by
  have hfailure : ((Session.start Sink.working).runText "meow x =\n").1 =
      some ⟨.unexpectedToken .expression .endOfInput, ⟨8, 9, 2, 1⟩,
        some "Reached end of input while expecting an expression."⟩ := by cbv
  refine ⟨_, Prod.ext hfailure rfl, ?_⟩
  intro h
  exact absurd h.line (by decide)

end CatScript
