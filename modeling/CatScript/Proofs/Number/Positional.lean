import CatScript.Model.Number.Integer64
import CatScript.Proofs.Token.Lexicon

/-!
# What digits write

A run of digits writes a number, in which every digit counts as often as its place says.  A number
is written by many runs, which differ in the zeros in front (`Text.positional_zeros`), and it is
printed as the one of them that has none (`Text.isNumeral_toDigits`).  As a 64-bit integer every run
is read whose number is in range (`Integer64.ofText?_digits`).
-/

set_option autoImplicit false

namespace CatScript

namespace Text

/-- The number that digits write. -/
def positional : List Char → Nat
  | [] => 0
  | c :: rest => (c.toNat - '0'.toNat) * 10 ^ rest.length + positional rest

/-- The digits that write a number with no zero in front, or one zero. -/
structure IsNumeral (n : Nat) (text : List Char) : Prop where
  digits : IsDigits text
  value : positional text = n
  plain : text.head? = some '0' → text = ['0']

/-- Zeros in front do not count. -/
theorem positional_zeros (zeros : Nat) (text : List Char) :
    positional (List.replicate zeros '0' ++ text) = positional text := by
  induction zeros with
  | zero => rfl
  | succ zeros ih =>
    rw [List.replicate_succ, List.cons_append, positional, ih, Nat.sub_self, Nat.zero_mul,
      Nat.zero_add]

/-- Read from the left, digit by digit, digits give the number that their places say. -/
theorem ofDigitChars_eq_positional (text : List Char) :
    Nat.ofDigitChars 10 text 0 = positional text := by
  induction text with
  | nil => rfl
  | cons c rest ih =>
    rw [Nat.ofDigitChars_cons, Nat.ofDigitChars_eq_ofDigitChars_zero, ih, positional, Nat.mul_zero,
      Nat.zero_add, Nat.mul_comm]

/-- The digits of a number other than zero begin with one other than zero. -/
theorem head?_toDigits_ne_zero {n : Nat} (hn : n ≠ 0) : (Nat.toDigits 10 n).head? ≠ some '0' := by
  induction n using Nat.strong_induction_on with
  | _ n ih =>
    by_cases hlt : n < 10
    · rw [Nat.toDigits_of_lt_base hlt]
      interval_cases n <;> simp_all [Nat.digitChar]
    · rw [Nat.toDigits_of_base_le (by decide) (Nat.le_of_not_lt hlt),
        List.head?_append_of_ne_nil _ (toDigits_ne_nil _)]
      exact ih (n / 10) (by omega) (by omega)

/-- The digits of a number are a numeral of it. -/
theorem isNumeral_toDigits (n : Nat) : IsNumeral n (Nat.toDigits 10 n) := by
  refine ⟨⟨toDigits_ne_nil n, fun _ => isDigit_of_mem_toDigits⟩, ?_, ?_⟩
  · rw [← ofDigitChars_eq_positional, Nat.ofDigitChars_ten_toDigits]
  · intro hzero
    by_cases hn : n = 0
    · rw [hn, Nat.toDigits_zero]
    · exact absurd hzero (head?_toDigits_ne_zero hn)

end Text

/-- Digits are read as the integer that they write, if there is one in range. -/
theorem Integer64.ofText?_digits {digits : List Char} (h : IsDigits digits) :
    Integer64.ofText? digits = Integer64.ofInt? (Text.positional digits) := by
  have hnumber : Text.number? digits = some (Text.positional digits) := by
    unfold Text.number?
    rw [if_pos ⟨h.nonempty, List.all_eq_true.2 h.digits⟩, Text.ofDigitChars_eq_positional]
  obtain ⟨first, rest, rfl⟩ := List.exists_cons_of_ne_nil h.nonempty
  unfold Integer64.ofText?
  rw [Text.splitSign_digits (h.digits first (List.mem_cons_self ..))]
  simp only [hnumber, Option.bind_some, Bool.false_eq_true, if_false]

end CatScript
