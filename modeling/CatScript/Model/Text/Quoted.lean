/-!
# Quoted strings

How a string stands in a script. Between the quotes a backslash takes the next character with it:
`n`, `t` and `r` then mean a line feed, a tab and a carriage return, and every other character
means itself. A string that is never closed runs to the end of the text.

`body` finds where the string ends, `decode` reads what stands between the quotes, and `encode`
writes a string so that both give it back: `decode_encode` and `body_encode`.
-/

set_option autoImplicit false

namespace CatScript.Text.Quoted

/-- What a character means behind a backslash. -/
def unescape (c : Char) : Char :=
  if c = 'n' then '\n' else if c = 't' then '\t' else if c = 'r' then '\r' else c

/-- The text behind an opening quote, cut before the quote that closes it, or at the end of the
text if none does. A quote behind a backslash closes nothing. -/
def body : List Char → List Char × List Char
  | [] => ([], [])
  | '"' :: rest => ([], '"' :: rest)
  | '\\' :: c :: rest => ('\\' :: c :: (body rest).1, (body rest).2)
  | c :: rest => (c :: (body rest).1, (body rest).2)

/-- The string that a body stands for. A backslash with nothing behind it is dropped. -/
def decode : List Char → List Char
  | [] => []
  | ['\\'] => []
  | '\\' :: c :: rest => unescape c :: decode rest
  | c :: rest => c :: decode rest

/-- A body that stands for a string: a quote and a backslash get a backslash in front. -/
def encode : List Char → List Char
  | [] => []
  | c :: rest => if c = '"' ∨ c = '\\' then '\\' :: c :: encode rest else c :: encode rest

/-- The body of a string and what follows it are the text. -/
theorem body_append (text : List Char) : (body text).1 ++ (body text).2 = text := by
  fun_induction body text <;> simp_all

/-- What follows a body is nothing at all or a closing quote. -/
theorem body_snd (text : List Char) : (body text).2 = [] ∨ ∃ rest, (body text).2 = '"' :: rest := by
  fun_induction body text <;> simp_all

/-- Decoding undoes encoding. -/
theorem decode_encode (s : List Char) : decode (encode s) = s := by
  induction s with
  | nil => rfl
  | cons c rest ih =>
    unfold encode
    split
    next h => rcases h with rfl | rfl <;> simp [decode, unescape, ih]
    next h =>
      have hc : c ≠ '\\' := fun hc => h (Or.inr hc)
      rw [decode.eq_4]
      · rw [ih]
      · intro hx; exact absurd hx hc
      · intro _ _ hx; exact absurd hx hc

/-- The body of an encoded text is all of it, up to the quote behind it. -/
theorem body_encode (s rest : List Char) :
    body (encode s ++ '"' :: rest) = (encode s, '"' :: rest) := by
  induction s with
  | nil => simp [encode, body]
  | cons c s ih =>
    unfold encode
    split
    next h => rcases h with rfl | rfl <;> simp [body, ih]
    next h =>
      have hq : c ≠ '"' := fun hc => h (Or.inl hc)
      have hb : c ≠ '\\' := fun hc => h (Or.inr hc)
      rw [List.cons_append, body.eq_4]
      · rw [ih]
      · intro hx; exact absurd hx hq
      · intro _ _ hx; exact absurd hx hb

end CatScript.Text.Quoted
