import CatScript.Proofs.Token.Lexicon

/-!
# Written tokens are read back

A list of tokens that is written out with blanks between any two of them is read back as the same
kinds and lexemes.  A string is written between quotes, with a backslash in front of every quote and
every backslash in it, and every other token as its own lexeme.  What is written is followed from
its end: in front of a text whose tokens are known, a token and the blanks behind it give one more
token (`Token.Spelling.scans`, `Token.Scans.blanks`).  The top theorem is `Token.ofText_spread`.
-/

set_option autoImplicit false

namespace CatScript.Token

/-- A kind of token with a lexeme that it can have: for a string, any text at all. -/
structure Spelling where
  kind : TokenKind
  lexeme : String
  spelled : kind = .string ∨ kind.Spelled lexeme.toList

/-- A run of blanks, and not an empty one. -/
structure Gap where
  text : List Char
  nonempty : text ≠ []
  blank : ∀ c ∈ text, Text.isBlank c = true

/-- A token as it is written. -/
def Spelling.written (t : Spelling) : List Char :=
  if t.kind = .string then '"' :: (Text.Quoted.encode t.lexeme.toList ++ ['"'])
  else t.lexeme.toList

/-- Tokens as they are written, with `gap n` in front of the last `n` of them. -/
def spread (gap : Nat → Gap) : List Spelling → List Char
  | [] => []
  | [t] => t.written
  | t :: u :: ts => t.written ++ ((gap (u :: ts).length).text ++ spread gap (u :: ts))

/-- The kind and the lexeme of a token, wherever it stands. -/
def kindAndLexeme (t : Token) : TokenKind × String := (t.kind, t.lexeme)

variable {rest : List Char} {P : List Token → Prop}

/-- Nothing goes on with a word or a number behind a gap. -/
theorem Gap.apart (gap : Gap) (rest : List Char) : Apart (gap.text ++ rest) := by
  obtain ⟨first, tail, htext⟩ := List.exists_cons_of_ne_nil gap.nonempty
  have hblank := gap.blank first (by simp [htext])
  rw [htext, List.cons_append]
  apply apart_cons
  refine ⟨?_, ?_, ?_⟩
  · refine Bool.eq_false_iff.2 fun hword => ?_
    simp [isBlank_of_isWordChar hword] at hblank
  · refine Bool.eq_false_iff.2 fun hdigit => ?_
    simp [isBlank_of_isDigit hdigit] at hblank
  · rintro rfl
    exact absurd hblank (by decide)

/-- Blanks in front do not matter. -/
theorem Scans.blanks {text : List Char} (hblank : ∀ c ∈ text, Text.isBlank c = true)
    (h : Scans rest P) : Scans (text ++ rest) P := by
  induction text with
  | nil => exact h
  | cons c text ih =>
    obtain ⟨hc, htext⟩ := List.forall_mem_cons.1 hblank
    exact (ih htext).blank hc

/-- What spells a token is found again as that token in front of a text that does not go on with
it. -/
theorem Scans.spelled {kind : TokenKind} {text : List Char} (hspelled : kind.Spelled text)
    (hrest : Apart rest) (h : Scans rest P) :
    Scans (text ++ rest) (Begins kind (String.ofList text) P) := by
  cases hspelled with
  | @own _ text hown =>
    obtain ⟨c, htext, hmark⟩ | ⟨hne, hword, hkind⟩ := TokenKind.mark_or_word hown
    · rw [htext]
      exact h.mark hmark
    · rw [← hkind, String.ofList_toList]
      exact h.word hne hword hrest
  | @identifier name hname =>
    rw [String.ofList_toList]
    exact h.name hname hrest
  | integer hdigits => exact h.digits hdigits.nonempty hdigits.digits hrest
  | @float whole fraction hwhole hfraction =>
    rw [List.append_assoc, List.cons_append]
    exact h.point hwhole.nonempty hwhole.digits hfraction.nonempty hfraction.digits hrest

/-- A written token is found again in front of a text that does not go on with it. -/
theorem Spelling.scans (t : Spelling) (hrest : Apart rest) (h : Scans rest P) :
    Scans (t.written ++ rest) (Begins t.kind t.lexeme P) := by
  unfold Spelling.written
  split
  next hstring =>
    have hscans := h.quoted t.lexeme
    rw [hstring]
    simpa using hscans
  next hother =>
    have hspelled := t.spelled.resolve_left hother
    have hscans := h.spelled hspelled hrest
    rwa [String.ofList_toList] at hscans

/-- The first token is listed in front of the others. -/
theorem kindAndLexeme_begins {kind : TokenKind} {lexeme : String} {ts : List Token}
    {others : List (TokenKind × String)}
    (h : Begins kind lexeme (fun ts => ts.map kindAndLexeme = others) ts) :
    ts.map kindAndLexeme = (kind, lexeme) :: others := by
  obtain ⟨t, rest, rfl, rfl, rfl, hrest⟩ := h
  rw [List.map_cons, hrest]
  rfl

/-- Tokens that are written with gaps between them are read back, and the end of the input behind
them. -/
theorem scans_spread (gap : Nat → Gap) (tokens : List Spelling) :
    Scans (spread gap tokens) fun ts =>
      ts.map kindAndLexeme = tokens.map (fun t => (t.kind, t.lexeme)) ++ [(.endOfInput, "")] := by
  have hend : Scans [] fun ts => ts.map kindAndLexeme = [(.endOfInput, "")] :=
    Scans.nil.mono fun ts hts => by
      obtain ⟨t, rest, rfl, hkind, hlexeme, rfl⟩ := hts
      simp [kindAndLexeme, hkind, hlexeme]
  fun_induction spread gap tokens with
  | case1 => exact hend
  | case2 t =>
    have hscans := t.scans apart_nil hend
    rw [List.append_nil] at hscans
    exact hscans.mono fun ts => kindAndLexeme_begins
  | case3 t u tokens ih =>
    have hlater := ih.blanks (gap (u :: tokens).length).blank
    have hscans := t.scans (Gap.apart _ _) hlater
    exact hscans.mono fun ts => kindAndLexeme_begins

/-- Tokens that are written out with blanks between them are read back, whatever the tokens and
whatever the blanks. -/
theorem ofText_spread (gap : Nat → Gap) (tokens : List Spelling) :
    (ofText (String.ofList (spread gap tokens))).map (List.map kindAndLexeme) =
      .ok (tokens.map (fun t => (t.kind, t.lexeme)) ++ [(.endOfInput, "")]) := by
  obtain ⟨ts, hts, htokens⟩ := scans_spread gap tokens Position.start
  rw [ofText, String.toList_ofList, hts, Except.map, htokens]

/-- The quote and the backslash of a string are written with a backslash in front. -/
example : spread (fun _ => ⟨[' '], by decide, List.all_eq_true.1 rfl⟩)
    [⟨.string, "\"\\", .inl rfl⟩, ⟨.plus, "+", .inr (.own rfl)⟩] = "\"\\\"\\\\\" +".toList := by
  decide

end CatScript.Token
