import CatScript.Proofs.Token.Scan

/-!
# The tokens of a text tile it

Every character of a text belongs to exactly one token or is a blank between two, and every token
knows the line and the column at which it begins.  The lexer carries a position along the text; the
invariant is that this position is the one behind the characters consumed so far
(`Position.after_start`), and that the tokens found from there on tile what is left.  Reading
backwards from the end of the text, `Tiles.skip` and `Tiles.cons` put a blank and a token in front
of a tiling.
-/

set_option autoImplicit false

namespace CatScript

/-! ## Lines and columns of places -/

/-- The line of the place behind the characters from the start of a text. -/
def Position.lineBehind (before : List Char) : Nat := 1 + before.count '\n'

/-- The column of the place behind the characters from the start of a text: one more than those
behind the last line feed among them. -/
def Position.columnBehind (before : List Char) : Nat :=
  1 + (before.reverse.takeWhile (· ≠ '\n')).length

namespace Position

/-- A line feed goes back to the first column, and every other character one column on. -/
theorem next_column (p : Position) (c : Char) :
    (p.next c).column = if c = '\n' then 1 else p.column + 1 := by
  unfold next
  split <;> rfl

/-- The column behind a text is counted from its last line feed. -/
theorem columnBehind_concat (before : List Char) (c : Char) :
    columnBehind (before ++ [c]) = if c = '\n' then 1 else columnBehind before + 1 := by
  unfold columnBehind
  rw [List.reverse_append, List.reverse_singleton, List.singleton_append, List.takeWhile_cons]
  by_cases h : c = '\n'
  · simp [h]
  · simp only [h, ne_eq, not_false_eq_true, decide_true, if_true, if_false, List.length_cons]
    omega

/-- Over the reversed text, so that the induction takes the last character off. -/
theorem after_start_reverse_column (behind : List Char) :
    (start.after behind.reverse).column = columnBehind behind.reverse := by
  induction behind with
  | nil => rfl
  | cons c behind ih =>
    rw [List.reverse_cons, after_append, columnBehind_concat, ← ih]
    exact next_column _ c

/-- A position carried along a text from its start knows the length of the text, and the line and
the column behind it. -/
theorem after_start (before : List Char) :
    start.after before = ⟨before.length, lineBehind before, columnBehind before⟩ := by
  have hoffset := after_offset start before
  have hline := after_line start before
  have hcolumn := after_start_reverse_column before.reverse
  rw [List.reverse_reverse] at hcolumn
  rw [show start.offset = 0 from rfl, Nat.zero_add] at hoffset
  rw [← hoffset, ← hcolumn, lineBehind, show (1 : Nat) = start.line from rfl, ← hline]

/-- One character on from the place behind some characters is the place behind one more. -/
theorem next_eq_after {p : Position} {before : List Char} (hp : p = start.after before)
    (c : Char) : p.next c = start.after (before ++ [c]) := by
  rw [after_append, ← hp]
  rfl

end Position

/-! ## Tilings -/

/-- The tokens cover a text from its `n`-th character on: the last of them, and no other, is the
end of the input, the others cover something, no two overlap, what they leave out is blank, and
each of them stands at the line and the column that the characters in front of it say. -/
structure Tiles (text : List Char) (n : Nat) (ts : List Token) : Prop where
  ends : ∃ pieces last, ts = pieces ++ [last] ∧
    last.kind = .endOfInput ∧ last.span.start = text.length ∧ last.span.stop = text.length + 1 ∧
    ∀ t ∈ pieces, t.kind ≠ .endOfInput ∧ t.span.start < t.span.stop ∧ t.span.stop ≤ text.length
  from_start : ∀ t ∈ ts, n ≤ t.span.start
  ordered : ts.Pairwise fun a b => a.span.stop ≤ b.span.start
  blank : ∀ i (h : i < text.length), n ≤ i →
    (∀ t ∈ ts, ¬ (t.span.start ≤ i ∧ i < t.span.stop)) → Text.isBlank text[i] = true
  placed : ∀ t ∈ ts,
    t.line = Position.lineBehind (text.take t.span.start) ∧ t.span.line = t.line ∧
    t.column = Position.columnBehind (text.take t.span.start) ∧ t.span.column = t.column

namespace Tiles

variable {text before slice rest : List Char} {ts : List Token}

/-- The end of the input alone covers what is left at the end of a text. -/
theorem endOfInput (text : List Char) :
    Tiles text text.length [⟨.endOfInput, "", Span.point (Position.start.after text)⟩] := by
  rw [Position.after_start]
  refine ⟨⟨[], _, rfl, rfl, rfl, rfl, by simp⟩, ?_, List.pairwise_singleton _ _, ?_, ?_⟩
  · intro t ht
    rw [List.mem_singleton.1 ht]
    exact Nat.le_refl _
  · intro i h hi
    omega
  · intro t ht
    rw [List.mem_singleton.1 ht, Token.line_mk, Token.column_mk]
    simp [Span.point]

/-- What is tiled behind a blank is tiled from the blank on. -/
theorem skip {c : Char} (hc : Text.isBlank c = true)
    (h : Tiles (before ++ c :: rest) (before.length + 1) ts) :
    Tiles (before ++ c :: rest) before.length ts := by
  refine ⟨h.ends, fun t ht => ?_, h.ordered, fun i hi hn hout => ?_, h.placed⟩
  · have := h.from_start t ht
    omega
  · by_cases hi' : i = before.length
    · subst hi'
      simpa using hc
    · exact h.blank i hi (by omega) hout

/-- A tiling of what follows a piece of a text, with a token that covers the piece in front. -/
theorem cons {kind : TokenKind} (hkind : kind ≠ .endOfInput) (hslice : slice ≠ [])
    (lexeme : String) (h : Tiles (before ++ (slice ++ rest)) (before ++ slice).length ts) :
    Tiles (before ++ (slice ++ rest)) before.length
      (⟨kind, lexeme, Span.between (Position.start.after before)
        (Position.start.after (before ++ slice))⟩ :: ts) := by
  have hpos : 0 < slice.length := List.length_pos_iff.2 hslice
  rw [Position.after_start, Position.after_start]
  have hlength : (before ++ slice).length = before.length + slice.length := List.length_append
  refine ⟨?_, ?_, ?_, ?_, ?_⟩
  · obtain ⟨pieces, last, hts, hlast, hstart, hstop, hpieces⟩ := h.ends
    refine ⟨_ :: pieces, last, by rw [hts]; rfl, hlast, hstart, hstop, ?_⟩
    intro t ht
    obtain rfl | ht := List.mem_cons.1 ht
    · refine ⟨hkind, ?_, ?_⟩
      · show before.length < (before ++ slice).length
        omega
      · show (before ++ slice).length ≤ _
        simp only [List.length_append]
        omega
    · exact hpieces t ht
  · intro t ht
    obtain rfl | ht := List.mem_cons.1 ht
    · exact Nat.le_refl _
    · have := h.from_start t ht
      omega
  · exact List.pairwise_cons.2 ⟨fun t ht => h.from_start t ht, h.ordered⟩
  · intro i hi hn hout
    have hfirst : ¬ (before.length ≤ i ∧ i < (before ++ slice).length) :=
      hout _ (List.mem_cons_self ..)
    exact h.blank i hi (by omega) fun t ht => hout t (List.mem_cons_of_mem _ ht)
  · intro t ht
    obtain rfl | ht := List.mem_cons.1 ht
    · rw [Token.line_mk, Token.column_mk]
      simp [Span.between]
    · exact h.placed t ht

end Tiles

namespace Token

/-- From a position that is the one behind the characters consumed so far, the lexer tiles what is
left.  The induction is on the lexer's own recursion, over all ways to cut the text in two. -/
theorem scanFrom_tiles (p : Position) (rest : List Char) :
    ∀ {before : List Char} {ts : List Token}, p = Position.start.after before →
      scanFrom p rest = .ok ts → Tiles (before ++ rest) before.length ts := by
  induction p, rest using scanFrom.induct with
  | case1 p =>
    intro before ts hp h
    rw [scanFrom_nil] at h
    rw [← Except.ok.inj h, hp, List.append_nil]
    exact Tiles.endOfInput before
  | case2 p first rest hblank ih =>
    intro before ts hp h
    rw [scanFrom_blank hblank] at h
    have htiles := ih (Position.next_eq_after hp first) h
    rw [List.append_assoc, List.singleton_append, List.length_append] at htiles
    exact htiles.skip hblank
  | case3 p first rest hblank hnone =>
    intro before ts hp h
    rw [scanFrom_none (Bool.eq_false_iff.2 hblank) hnone] at h
    exact absurd h (by simp)
  | case4 p first rest hblank s hscan stop =>
    rename_i ih
    intro before ts hp h
    rw [scanFrom_token hscan] at h
    obtain ⟨others, hothers, hts⟩ : ∃ others, scanFrom stop s.rest = .ok others ∧
        ⟨s.kind, String.ofList s.lexeme, Span.between p stop⟩ :: others = ts := by
      cases hrest : scanFrom stop s.rest with
      | error e => simp [stop] at hrest; simp [hrest, Except.map] at h
      | ok others => exact ⟨others, rfl, by simpa [stop, hrest, Except.map] using h⟩
    have hstop : stop = Position.start.after (before ++ s.slice) := by
      rw [Position.after_append, ← hp]
    have htiles := ih hstop hothers
    rw [List.append_assoc] at htiles
    rw [← hts, hstop, hp, ← scan_slice hscan]
    exact htiles.cons (scan_kind_ne_endOfInput hscan) (scan_slice_ne_nil hscan) _

/-- The tokens of a text tile it from its first character on. -/
theorem ofText_tiles (source : String) (ts : List Token) (h : ofText source = .ok ts) :
    Tiles source.toList 0 ts :=
  @scanFrom_tiles Position.start source.toList [] ts rfl h

/-- A string over two lines moves what follows it to the second one. -/
theorem ofText_tiles_multiline :
    Token.ofText "a \"x\ny\" b" = .ok
      [⟨.identifier, "a", ⟨0, 1, 1, 1⟩⟩, ⟨.string, "x\ny", ⟨2, 7, 1, 3⟩⟩,
        ⟨.identifier, "b", ⟨8, 9, 2, 4⟩⟩, ⟨.endOfInput, "", ⟨9, 10, 2, 5⟩⟩] ∧
    Tiles "a \"x\ny\" b".toList 0
      [⟨.identifier, "a", ⟨0, 1, 1, 1⟩⟩, ⟨.string, "x\ny", ⟨2, 7, 1, 3⟩⟩,
        ⟨.identifier, "b", ⟨8, 9, 2, 4⟩⟩, ⟨.endOfInput, "", ⟨9, 10, 2, 5⟩⟩] :=
  have h : Token.ofText "a \"x\ny\" b" = .ok
      [⟨.identifier, "a", ⟨0, 1, 1, 1⟩⟩, ⟨.string, "x\ny", ⟨2, 7, 1, 3⟩⟩,
        ⟨.identifier, "b", ⟨8, 9, 2, 4⟩⟩, ⟨.endOfInput, "", ⟨9, 10, 2, 5⟩⟩] := by cbv
  ⟨h, ofText_tiles _ _ h⟩

end Token

end CatScript
