import Mathlib
import CatScript.Model.Token.OfText

/-!
# One step of the lexer

What `Token.scanFrom` does with the head of a text, as one equation for each of its three cases:
nothing is left, a blank stands there, or a token does.  No blank is the head of a token, so that
the cases exclude each other.  The last section says what every token other than the end of the
input is like, whatever its text.
-/

set_option autoImplicit false

namespace CatScript.Token

/-! ## Heads of tokens -/

/-- A mark is no blank. -/
theorem isBlank_of_ofMark? {c : Char} {kind : TokenKind} (h : TokenKind.ofMark? c = some kind) :
    Text.isBlank c = false := by
  unfold TokenKind.ofMark? at h
  split at h <;> first | rfl | simp at h

/-- The code points of the digits. -/
theorem toNat_of_isDigit {c : Char} (h : c.isDigit = true) : 48 ≤ c.toNat ∧ c.toNat ≤ 57 := by
  simp only [Char.isDigit, Bool.and_eq_true, decide_eq_true_eq, UInt32.le_iff_toNat_le] at h
  exact h

/-- The code points of the letters and of the underscore. -/
theorem toNat_of_isWordChar {c : Char} (h : isWordChar c = true) :
    (65 ≤ c.toNat ∧ c.toNat ≤ 90) ∨ (97 ≤ c.toNat ∧ c.toNat ≤ 122) ∨ c.toNat = 95 := by
  simp only [isWordChar, Char.isAlpha, Char.isUpper, Char.isLower, Bool.or_eq_true,
    Bool.and_eq_true, decide_eq_true_eq, beq_iff_eq, ge_iff_le, UInt32.le_iff_toNat_le] at h
  obtain (hupper | hlower) | hunderscore := h
  · exact .inl hupper
  · exact .inr (.inl hlower)
  · exact .inr (.inr (hunderscore ▸ rfl))

/-- A digit is no blank. -/
theorem isBlank_of_isDigit {c : Char} (h : c.isDigit = true) : Text.isBlank c = false := by
  have := toNat_of_isDigit h
  simp only [Text.isBlank, Bool.or_eq_false_iff, Bool.and_eq_false_iff, decide_eq_false_iff_not,
    beq_eq_false_iff_ne]
  omega

/-- A letter and the underscore are no blanks. -/
theorem isBlank_of_isWordChar {c : Char} (h : isWordChar c = true) : Text.isBlank c = false := by
  have := toNat_of_isWordChar h
  simp only [Text.isBlank, Bool.or_eq_false_iff, Bool.and_eq_false_iff, decide_eq_false_iff_not,
    beq_eq_false_iff_ne]
  omega

/-- No token begins with a blank. -/
theorem isBlank_of_scan {first : Char} {rest : List Char} {s : Scanned}
    (h : scan first rest = some s) : Text.isBlank first = false := by
  unfold scan at h
  split at h
  next hmark => exact isBlank_of_ofMark? hmark
  next =>
    split at h
    next hquote => rw [hquote]; rfl
    next =>
      split at h
      next hdigit => exact isBlank_of_isDigit hdigit
      next =>
        split at h
        next hword => exact isBlank_of_isWordChar hword
        next => exact absurd h (by simp)

/-! ## The three cases -/

/-- At the end of a text there is the end of the input. -/
theorem scanFrom_nil (p : Position) : scanFrom p [] = .ok [⟨.endOfInput, "", Span.point p⟩] := by
  unfold scanFrom
  rfl

/-- A blank is passed over. -/
theorem scanFrom_blank {first : Char} (h : Text.isBlank first = true) (p : Position)
    (rest : List Char) : scanFrom p (first :: rest) = scanFrom (p.next first) rest := by
  rw [scanFrom.eq_def]
  exact if_pos h

/-- The token at the head of a text comes first, and the others are those of what follows it. -/
theorem scanFrom_token {first : Char} {rest : List Char} {s : Scanned}
    (h : scan first rest = some s) (p : Position) :
    scanFrom p (first :: rest) = (scanFrom (p.after s.slice) s.rest).map
      (⟨s.kind, String.ofList s.lexeme, Span.between p (p.after s.slice)⟩ :: ·) := by
  rw [scanFrom.eq_def]
  dsimp only
  rw [if_neg (by simp [isBlank_of_scan h])]
  split
  next hnone => exact absurd (hnone.symm.trans h) (by simp)
  next s' hsome =>
    have hs : s' = s := Option.some.inj (hsome.symm.trans h)
    rw [hs]

/-- What has tokens and begins with one has the tokens of what follows it behind it. -/
theorem scanFrom_token_ok {first : Char} {rest : List Char} {s : Scanned}
    (h : scan first rest = some s) {p : Position} {ts : List Token}
    (hts : scanFrom p (first :: rest) = .ok ts) :
    ∃ others, scanFrom (p.after s.slice) s.rest = .ok others ∧
      ts = ⟨s.kind, String.ofList s.lexeme, Span.between p (p.after s.slice)⟩ :: others := by
  rw [scanFrom_token h] at hts
  cases hrest : scanFrom (p.after s.slice) s.rest with
  | error e => simp [hrest, Except.map] at hts
  | ok others => exact ⟨others, rfl, by simpa [hrest, Except.map, eq_comm] using hts⟩

/-- The error of a text that begins with a token is the error of what follows the token. -/
theorem scanFrom_token_error {first : Char} {rest : List Char} {s : Scanned}
    (h : scan first rest = some s) {p : Position} {e : Error}
    (he : scanFrom p (first :: rest) = .error e) :
    scanFrom (p.after s.slice) s.rest = .error e := by
  rw [scanFrom_token h] at he
  cases hrest : scanFrom (p.after s.slice) s.rest with
  | error e' => simpa [hrest, Except.map] using he
  | ok others => simp [hrest, Except.map] at he

/-- What is neither blank nor the head of a token is an error. -/
theorem scanFrom_none {first : Char} {rest : List Char} (hblank : Text.isBlank first = false)
    (h : scan first rest = none) (p : Position) :
    scanFrom p (first :: rest) = .error (.of (.unexpectedCharacter first) (Span.point p)) := by
  rw [scanFrom.eq_def]
  dsimp only
  rw [if_neg (by simp [hblank])]
  split
  next => rfl
  next s hsome => exact absurd (hsome.symm.trans h) (by simp)

/-! ## Tokens other than the end of the input -/

/-- No word is the end of the input. -/
theorem ofWord_ne_endOfInput (word : String) : TokenKind.ofWord word ≠ .endOfInput := by
  unfold TokenKind.ofWord
  repeat' split
  all_goals exact TokenKind.noConfusion

/-- No mark is the end of the input. -/
theorem ofMark?_ne_endOfInput (c : Char) : TokenKind.ofMark? c ≠ some .endOfInput := by
  unfold TokenKind.ofMark?
  split <;> simp

/-- What begins with a quote is a string. -/
theorem scanString_kind (behindQuote : List Char) : (scanString behindQuote).kind = .string := by
  unfold scanString
  rcases Text.Quoted.body behindQuote with ⟨body, _ | ⟨quote, rest⟩⟩ <;> rfl

/-- What begins with a digit is an integer or a float. -/
theorem scanNumber_kind (text : List Char) :
    (scanNumber text).kind = .integer ∨ (scanNumber text).kind = .float := by
  unfold scanNumber
  split
  · dsimp only
    split
    · exact .inr rfl
    · exact .inl rfl
  · exact .inl rfl

/-- No piece of a text is the end of the input. -/
theorem scan_kind_ne_endOfInput {first : Char} {rest : List Char} {s : Scanned}
    (h : scan first rest = some s) : s.kind ≠ .endOfInput := by
  unfold scan at h
  split at h
  next kind hmark =>
    rw [← Option.some.inj h]
    intro hkind
    exact ofMark?_ne_endOfInput first (hmark.trans (congrArg some hkind))
  next =>
    split at h
    next => rw [← Option.some.inj h, scanString_kind]; exact TokenKind.noConfusion
    next =>
      split at h
      next =>
        rw [← Option.some.inj h]
        obtain hkind | hkind := scanNumber_kind (first :: rest) <;> rw [hkind] <;>
          exact TokenKind.noConfusion
      next =>
        split at h
        next => rw [← Option.some.inj h]; exact ofWord_ne_endOfInput _
        next => exact absurd h (by simp)

end CatScript.Token
