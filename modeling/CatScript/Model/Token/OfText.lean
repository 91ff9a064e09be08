import CatScript.Model.Error
import CatScript.Model.Text.Blank
import CatScript.Model.Text.Quoted

/-!
# The tokens of a text

`Token.scan` finds the one token at the head of a text, as the slice of the text that it covers
and what follows. Numbers and words run as far as they can, and a string runs to its closing quote
or to the end. `Token.ofText` repeats this behind every blank, and carries the position along the
slices, so that no token need know where it stands (`scan_slice`: nothing is lost, and
`scan_slice_ne_nil`: a token covers something). The first character that is neither blank nor the
head of a token is an error.
-/

set_option autoImplicit false

namespace CatScript

/-- A token at the head of a text: its kind and lexeme, the characters it covers, and the others. -/
structure Scanned where
  kind : TokenKind
  lexeme : List Char
  slice : List Char
  rest : List Char

namespace Token

/-- Whether a character can stand in a word. -/
def isWordChar (c : Char) : Bool := c.isAlpha || c == '_'

/-- A string, from its opening quote to the closing one, or to the end of the text. -/
def scanString (behindQuote : List Char) : Scanned :=
  let (body, rest) := Text.Quoted.body behindQuote
  let lexeme := Text.Quoted.decode body
  match rest with
  | [] => ⟨.string, lexeme, '"' :: body, []⟩
  | quote :: rest => ⟨.string, lexeme, '"' :: (body ++ [quote]), rest⟩

/-- A number: all digits there are, and a point with the digits behind it if there is one. -/
def scanNumber (text : List Char) : Scanned :=
  let whole := text.takeWhile Char.isDigit
  match text.dropWhile Char.isDigit with
  | '.' :: digit :: rest =>
    if digit.isDigit then
      let slice := whole ++ '.' :: (digit :: rest).takeWhile Char.isDigit
      ⟨.float, slice, slice, (digit :: rest).dropWhile Char.isDigit⟩
    else ⟨.integer, whole, whole, '.' :: digit :: rest⟩
  | rest => ⟨.integer, whole, whole, rest⟩

/-- A word: all letters and underscores there are. -/
def scanWord (text : List Char) : Scanned :=
  let word := text.takeWhile isWordChar
  ⟨TokenKind.ofWord (String.ofList word), word, word, text.dropWhile isWordChar⟩

/-- The token at the head of a text, if its first character begins one. -/
def scan (first : Char) (rest : List Char) : Option Scanned :=
  match TokenKind.ofMark? first with
  | some kind => some ⟨kind, [first], [first], rest⟩
  | none =>
    if first = '"' then some (scanString rest)
    else if first.isDigit then some (scanNumber (first :: rest))
    else if isWordChar first then some (scanWord (first :: rest))
    else none

/-- A string token and what is left behind it are the text from its quote on. -/
theorem scanString_slice (behindQuote : List Char) :
    (scanString behindQuote).slice ++ (scanString behindQuote).rest = '"' :: behindQuote := by
  have h := Text.Quoted.body_append behindQuote
  unfold scanString
  revert h
  rcases Text.Quoted.body behindQuote with ⟨body, _ | ⟨quote, rest⟩⟩ <;> intro h <;> simp at h ⊢
  · exact h
  · exact h

/-- A number and what is left behind it are the text. -/
theorem scanNumber_slice (text : List Char) :
    (scanNumber text).slice ++ (scanNumber text).rest = text := by
  have h := List.takeWhile_append_dropWhile (p := Char.isDigit) (l := text)
  unfold scanNumber
  split
  next digit rest hd =>
    rw [hd] at h
    dsimp only
    split
    · rw [List.append_assoc, List.cons_append, List.takeWhile_append_dropWhile, h]
    · exact h
  next => exact h

/-- A word and what is left behind it are the text. -/
theorem scanWord_slice (text : List Char) : (scanWord text).slice ++ (scanWord text).rest = text :=
  List.takeWhile_append_dropWhile

/-- A token that is found and what is left behind it are the text. -/
theorem scan_slice {first : Char} {rest : List Char} {s : Scanned} (h : scan first rest = some s) :
    s.slice ++ s.rest = first :: rest := by
  unfold scan at h
  split at h
  next => rw [← Option.some.inj h]; rfl
  next =>
    split at h
    next hq => rw [← Option.some.inj h, hq, scanString_slice]
    next =>
      split at h
      next => rw [← Option.some.inj h, scanNumber_slice]
      next =>
        split at h
        next => rw [← Option.some.inj h, scanWord_slice]
        next => exact absurd h (by simp)

/-- A string token has its opening quote at least. -/
theorem scanString_slice_ne_nil (behindQuote : List Char) :
    (scanString behindQuote).slice ≠ [] := by
  unfold scanString
  rcases Text.Quoted.body behindQuote with ⟨body, _ | ⟨quote, rest⟩⟩ <;> simp

/-- A number has its first digit at least. -/
theorem scanNumber_slice_ne_nil {first : Char} (rest : List Char) (h : first.isDigit = true) :
    (scanNumber (first :: rest)).slice ≠ [] := by
  unfold scanNumber
  rw [List.takeWhile_cons_of_pos h]
  split
  · dsimp only; split <;> simp
  · simp

/-- A token that is found has characters, so what is left is shorter. -/
theorem scan_slice_ne_nil {first : Char} {rest : List Char} {s : Scanned}
    (h : scan first rest = some s) : s.slice ≠ [] := by
  unfold scan at h
  split at h
  next => rw [← Option.some.inj h]; simp
  next =>
    split at h
    next => rw [← Option.some.inj h]; exact scanString_slice_ne_nil rest
    next =>
      split at h
      next hd => rw [← Option.some.inj h]; exact scanNumber_slice_ne_nil rest hd
      next =>
        split at h
        next hw =>
          rw [← Option.some.inj h]
          unfold scanWord
          rw [List.takeWhile_cons_of_pos hw]
          simp
        next => exact absurd h (by simp)

/-- What follows a token is shorter than what began with it. -/
theorem length_scan_rest_le {first : Char} {rest : List Char} {s : Scanned}
    (h : scan first rest = some s) : s.rest.length ≤ rest.length := by
  have hl := congrArg List.length (scan_slice h)
  have hp := List.length_pos_iff.2 (scan_slice_ne_nil h)
  rw [List.length_append, List.length_cons] at hl
  omega

/-- The tokens of a text that begins at `p`. -/
def scanFrom (p : Position) : List Char → Except Error (List Token)
  | [] => .ok [⟨.endOfInput, "", Span.point p⟩]
  | first :: rest =>
    if Text.isBlank first then scanFrom (p.next first) rest
    else
      match _h : scan first rest with
      | none => .error (.of (.unexpectedCharacter first) (Span.point p))
      | some s =>
        let stop := p.after s.slice
        (scanFrom stop s.rest).map (⟨s.kind, String.ofList s.lexeme, Span.between p stop⟩ :: ·)
termination_by text => text.length
decreasing_by
  · simp
  · have := length_scan_rest_le _h
    simp only [List.length_cons]
    omega

/-- The tokens of a text, or the error at the first character that belongs to none. -/
def ofText (source : String) : Except Error (List Token) :=
  scanFrom Position.start source.toList

end Token

end CatScript
