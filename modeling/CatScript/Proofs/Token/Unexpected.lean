import CatScript.Proofs.Token.Joined
import CatScript.Proofs.Token.Longest

/-!
# Unexpected characters

A text has no tokens exactly if it is a text that has some and ends with no open string, and behind
it a character that is no blank and begins no token.  The error names this character and its place.
What is in front of the character is read as by itself (`Token.scanFrom_error`), and what is behind
it makes no difference (`Token.scanFrom_unexpected`), with one exception: a point between an integer
and a digit is part of a float.
-/

set_option autoImplicit false

namespace CatScript.Token

/-- A character begins some token. -/
def CanBegin (c : Char) : Prop :=
  ∃ kind slice lexeme behind, Matches kind (c :: slice) lexeme behind

/-- A point makes a float of an integer at the end of a text and a digit behind the point. -/
def MakesFloat (size : Nat) (ts : List Token) (c : Char) (behind : List Char) : Prop :=
  c = '.' ∧ (∃ t, (script ts).getLast? = some t ∧ t.kind = .integer ∧ t.span.stop = size) ∧
    ∃ d rest, behind = d :: rest ∧ d.isDigit = true

/-! ## Characters that begin no token -/

/-- Whether there is a token at the head of a text is up to the first character. -/
theorem scan_eq_none_of_scan_eq_none {c : Char} {rest : List Char} (h : scan c rest = none)
    (other : List Char) : scan c other = none := by
  unfold scan at h ⊢
  split at h
  next => simp at h
  next hmark => split_ifs at h ⊢; rfl

/-- No token is found at a character just if none of the lexicon begins with it. -/
theorem scan_eq_none_iff {c : Char} {rest : List Char} : scan c rest = none ↔ ¬ CanBegin c := by
  constructor
  · rintro h ⟨kind, slice, lexeme, behind, hmatches⟩
    obtain ⟨first, tail, s, htext, hscan, -⟩ := hmatches.covered
    obtain ⟨rfl, -⟩ := List.cons.inj htext
    rw [scan_eq_none_of_scan_eq_none h] at hscan
    simp at hscan
  · intro h
    cases hscan : scan c rest with
    | none => rfl
    | some s =>
      obtain ⟨first, mid, hslice⟩ := List.exists_cons_of_ne_nil (scan_slice_ne_nil hscan)
      have hhead := scan_slice hscan
      rw [hslice, List.cons_append] at hhead
      obtain rfl := (List.cons.inj hhead).1
      exact absurd ⟨s.kind, mid, s.lexeme, s.rest, hslice ▸ scan_listed hscan⟩ h

/-- What begins no token is no part of a word or a number. -/
theorem not_part_of_not_canBegin {c : Char} (h : ¬ CanBegin c) :
    isWordChar c = false ∧ c.isDigit = false := by
  have hnone : scan c [] = none := scan_eq_none_iff.2 h
  constructor
  · refine Bool.eq_false_iff.2 fun hword => ?_
    rw [scan_letter hword] at hnone
    simp at hnone
  · refine Bool.eq_false_iff.2 fun hdigit => ?_
    rw [scan_digit hdigit] at hnone
    simp at hnone

/-- What begins no token goes on with none either, unless it makes a float. -/
theorem parts_iff {c : Char} (h : ¬ CanBegin c) (size : Nat) (ts : List Token)
    (behind : List Char) : Parts size ts (c :: behind) ↔ ¬ MakesFloat size ts c behind := by
  obtain ⟨hword, hdigit⟩ := not_part_of_not_canBegin h
  constructor
  · rintro hparts ⟨hc, ⟨t, ht, hkind, hstop⟩, hbehind⟩
    have hgoes := (goesOn_cons_iff hword hdigit behind).2 ⟨hkind, hc, hbehind⟩
    rw [hparts t ht hstop] at hgoes
    simp at hgoes
  · intro hfloat t ht hstop
    refine Bool.eq_false_iff.2 fun hgoes => hfloat ?_
    obtain ⟨hkind, hc, hbehind⟩ := (goesOn_cons_iff hword hdigit behind).1 hgoes
    exact ⟨hc, ⟨t, ht, hkind, hstop⟩, hbehind⟩

/-! ## The first unexpected character -/

/-- A text that has no tokens is cut at its first unexpected character: what is in front of it has
tokens, ends with no open string, and is not gone on with. -/
theorem scanFrom_error (p : Position) (rest : List Char) :
    ∀ {before : List Char} {e : Error}, p.offset = before.length → scanFrom p rest = .error e →
      ∃ passed c behind ts, rest = passed ++ c :: behind ∧ Text.isBlank c = false ∧ ¬ CanBegin c ∧
        e = .of (.unexpectedCharacter c) (Span.point (p.after passed)) ∧
        scanFrom p passed = .ok ts ∧
        (∀ t, (script ts).getLast? = some t → ¬ t.Unclosed (before ++ passed)) ∧
        Parts (before ++ passed).length ts (c :: behind) := by
  induction p, rest using scanFrom.induct with
  | case1 p =>
    intro before e hp h
    simp [scanFrom_nil] at h
  | case2 p first rest hblank ih =>
    intro before e hp h
    rw [scanFrom_blank hblank] at h
    have hnext : (p.next first).offset = (before ++ [first]).length := by
      rw [Position.next_offset, hp, List.length_append]
      rfl
    obtain ⟨passed, c, behind, ts, rfl, hc, hbegin, he, hts, hclosed, hparts⟩ := ih hnext h
    rw [List.append_assoc] at hclosed hparts
    exact ⟨first :: passed, c, behind, ts, rfl, hc, hbegin, he, by rwa [scanFrom_blank hblank],
      hclosed, hparts⟩
  | case3 p first rest hblank hnone =>
    intro before e hp h
    have hblank' := Bool.eq_false_iff.2 hblank
    rw [scanFrom_none hblank' hnone] at h
    have hscript : script [⟨.endOfInput, "", Span.point p⟩] = [] := by simp [script]
    refine ⟨[], first, rest, _, rfl, hblank', scan_eq_none_iff.1 hnone, (Except.error.inj h).symm,
      scanFrom_nil p, ?_, ?_⟩
    · rw [hscript]
      simp
    · unfold Parts
      rw [hscript]
      simp
  | case4 p first rest hblank s hscan stop =>
    rename_i ih
    intro before e hp h
    have hstop : stop.offset = (before ++ s.slice).length := by
      rw [show stop.offset = _ from Position.after_offset p s.slice, hp, List.length_append]
    obtain ⟨passed, c, behind, ts, hrest, hc, hbegin, he, hts, hclosed, hparts⟩ :=
      ih hstop (scanFrom_token_error hscan h)
    obtain ⟨mid, hslice, hcut⟩ := scan_cut hscan hrest (List.cons_ne_nil c behind)
    have htokens : scanFrom p (s.slice ++ passed) =
        .ok (⟨s.kind, String.ofList s.lexeme, Span.between p stop⟩ :: ts) := by
      rw [hslice, List.cons_append, scanFrom_token hcut]
      show (scanFrom stop passed).map _ = _
      rw [hts]
      rfl
    rw [List.append_assoc] at hclosed hparts
    refine ⟨s.slice ++ passed, c, behind, _, ?_, hc, hbegin, ?_, htokens, ?_, ?_⟩
    · rw [← scan_slice hscan, hrest, List.append_assoc]
    · rw [he, Position.after_append]
    · refine last_cons_scanned hscan ?_ hclosed
      rintro ⟨hkind, hopen⟩
      obtain rfl := eq_quote_of_kind hscan hkind
      have hdrop : (before ++ (s.slice ++ passed)).drop (p.offset + 1) = mid ++ passed := by
        rw [hp, ← List.drop_drop, List.drop_left, hslice]
        rfl
      refine closed_of_slice hscan (by simp [hrest]) hslice passed ?_
      rw [← hdrop]
      exact hopen
    · refine last_cons_scanned hscan (fun hsize => ?_) hparts
      -- The token ends the text in front of the character only if nothing is in between.
      have hlength : stop.offset = (before ++ (s.slice ++ passed)).length := hsize
      obtain rfl : passed = [] := by
        simp only [hstop, List.length_append] at hlength
        exact List.length_eq_zero_iff.1 (by omega)
      have hstops := scan_stops hscan
      rwa [hrest] at hstops

/-- Behind a text that has tokens, ends with no open string and is not gone on with, a character
that is no blank and begins no token is an error, whatever comes behind it. -/
theorem scanFrom_unexpected {p : Position} {rest before : List Char} {ts : List Token}
    (hp : p.offset = before.length) (h : scanFrom p rest = .ok ts)
    (hclosed : ∀ t, (script ts).getLast? = some t → ¬ t.Unclosed (before ++ rest)) {c : Char}
    (hblank : Text.isBlank c = false) (hbegin : ¬ CanBegin c) {behind : List Char}
    (hparts : Parts (before ++ rest).length ts (c :: behind)) :
    scanFrom p (rest ++ c :: behind) =
      .error (.of (.unexpectedCharacter c) (Span.point (p.after rest))) := by
  rw [scanFrom_append p rest hp h hclosed hparts,
    scanFrom_none hblank (scan_eq_none_iff.2 hbegin)]
  rfl

/-- The error of a text without tokens names the first character that is no blank and begins no
token, and the place of this character: in front of it is a text that has tokens and ends with no
open string.  Behind such a text every such character is that error, whatever comes behind it,
unless it is a point that makes a float of an integer. -/
theorem ofText_eq_error_iff (source : String) (e : Error) :
    ofText source = .error e ↔
      ∃ before c behind ts, source.toList = before.toList ++ c :: behind ∧ Whole before ts ∧
        Text.isBlank c = false ∧ ¬ CanBegin c ∧
        ¬ MakesFloat before.toList.length ts c behind ∧
        e = .of (.unexpectedCharacter c) ⟨before.toList.length, before.toList.length + 1,
          Position.lineBehind before.toList, Position.columnBehind before.toList⟩ := by
  constructor
  · intro h
    obtain ⟨passed, c, behind, ts, hsource, hblank, hbegin, he, hts, hclosed, hparts⟩ :=
      @scanFrom_error Position.start source.toList [] e rfl h
    refine ⟨String.ofList passed, c, behind, ts, ?_⟩
    rw [String.toList_ofList]
    refine ⟨hsource, ⟨?_, ?_⟩, hblank, hbegin, (parts_iff hbegin _ ts behind).1 hparts, ?_⟩
    · rw [ofText, String.toList_ofList, hts]
    · rw [String.toList_ofList]
      exact hclosed
    · rw [he, Position.after_start]
      rfl
  · rintro ⟨before, c, behind, ts, hsource, hwhole, hblank, hbegin, hfloat, rfl⟩
    have hparts := (parts_iff hbegin _ ts behind).2 hfloat
    rw [ofText, hsource, @scanFrom_unexpected Position.start before.toList [] ts rfl hwhole.tokens
      hwhole.closed c hblank hbegin behind hparts, Position.after_start]
    rfl

/-- A point behind an integer is unexpected in front of a letter, and part of a float in front of a
digit. -/
example : ofText "1.x" = .error (.of (.unexpectedCharacter '.') ⟨1, 2, 1, 2⟩) ∧
    ofText "1.5" = .ok [⟨.float, "1.5", ⟨0, 3, 1, 1⟩⟩, ⟨.endOfInput, "", ⟨3, 4, 1, 4⟩⟩] := by
  constructor <;> cbv

end CatScript.Token
