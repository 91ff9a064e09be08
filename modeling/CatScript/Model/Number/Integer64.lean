import CatScript.Model.Text.Digits

/-!
# Signed 64-bit integers and their decimal texts

`ofInt?` is the door through which every integer enters the 64-bit range: it keeps a number that
fits and refuses every other one (`ofInt?_eq_some_iff`). `text` writes an integer and `ofText?`
reads one, with any number of leading zeros and an optional sign.
-/

set_option autoImplicit false

namespace CatScript.Integer64

/-- The 64-bit integer equal to `n`, if `n` is in range. -/
def ofInt? (n : Int) : Option Int64 :=
  if Int64.minValue.toInt ≤ n ∧ n ≤ Int64.maxValue.toInt then some (Int64.ofInt n) else none

/-- A 64-bit integer is found for exactly the number that it is. -/
theorem ofInt?_eq_some_iff {n : Int} {i : Int64} : ofInt? n = some i ↔ i.toInt = n := by
  unfold ofInt?
  constructor
  · intro h
    split at h
    next hn =>
      rw [← Option.some.inj h,
        Int64.toInt_ofInt_of_le hn.1 (Int.lt_of_le_of_lt hn.2 (by decide))]
    next => exact absurd h (by simp)
  · rintro rfl
    rw [if_pos ⟨i.minValue_le_toInt, i.toInt_le⟩, Int64.ofInt_toInt]

/-- None is found for the numbers beyond the two ends of the range. -/
theorem ofInt?_eq_none_iff {n : Int} :
    ofInt? n = none ↔ n < Int64.minValue.toInt ∨ Int64.maxValue.toInt < n := by
  unfold ofInt?
  by_cases h : Int64.minValue.toInt ≤ n ∧ n ≤ Int64.maxValue.toInt
  · rw [if_pos h]
    exact ⟨fun e => absurd e (Option.some_ne_none _), fun o => by omega⟩
  · rw [if_neg h]
    exact ⟨fun _ => by omega, fun _ => rfl⟩

/-- Every 64-bit integer is found again. -/
@[simp] theorem ofInt?_toInt (i : Int64) : ofInt? i.toInt = some i :=
  ofInt?_eq_some_iff.2 rfl

/-- The 64-bit integer that a text writes: digits, behind a sign or not. -/
def ofText? (text : List Char) : Option Int64 :=
  let (negative, digits) := Text.splitSign text
  (Text.number? digits).bind fun n => ofInt? (if negative then -(n : Int) else n)

/-- The decimal digits of an integer, behind a minus if it is negative. -/
def text (i : Int64) : List Char :=
  if i.toInt < 0 then '-' :: Nat.toDigits 10 i.toInt.natAbs else Nat.toDigits 10 i.toInt.natAbs

end CatScript.Integer64
