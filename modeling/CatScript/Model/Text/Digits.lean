/-!
# Runs of digits

A natural number is written by a run of decimal digits that is not empty, with any number of
zeros in front. `number?` reads one and `padded` writes one of a fixed width; what
`Nat.toDigits` writes is read back (`number?_toDigits`).
-/

set_option autoImplicit false

namespace CatScript.Text

/-- The number that a run of digits writes. -/
def number? (text : List Char) : Option Nat :=
  if text ≠ [] ∧ text.all Char.isDigit then some (Nat.ofDigitChars 10 text 0) else none

/-- A number in so many digits, if it has no more than that. -/
def padded (width n : Nat) : List Char :=
  List.replicate (width - (Nat.toDigits 10 n).length) '0' ++ Nat.toDigits 10 n

/-- Whether a text begins with a minus, and what follows its sign if it has one. -/
def splitSign : List Char → Bool × List Char
  | '+' :: rest => (false, rest)
  | '-' :: rest => (true, rest)
  | rest => (false, rest)

/-- The digits of a number are decimal digits. -/
theorem isDigit_of_mem_toDigits {n : Nat} {c : Char} (h : c ∈ Nat.toDigits 10 n) :
    c.isDigit = true :=
  Nat.isDigit_of_mem_toDigits (by decide) (by decide) h

/-- Every number has digits. -/
theorem toDigits_ne_nil (n : Nat) : Nat.toDigits 10 n ≠ [] := by
  intro h
  have := Nat.length_toDigits_pos (b := 10) (n := n)
  rw [h] at this
  exact absurd this (by simp)

/-- The digits of a number read back as the number. -/
@[simp] theorem number?_toDigits (n : Nat) : number? (Nat.toDigits 10 n) = some n := by
  unfold number?
  rw [if_pos ⟨toDigits_ne_nil n, List.all_eq_true.2 fun _ hc => isDigit_of_mem_toDigits hc⟩,
    Nat.ofDigitChars_ten_toDigits]

end CatScript.Text
