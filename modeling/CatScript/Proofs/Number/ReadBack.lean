import Mathlib
import CatScript.Model.Number.Decimal
import CatScript.Model.Number.Integer64

/-!
# Numbers are read back from their texts

Rounding keeps what needs none: a quotient that is exactly as many units as a finite magnitude
stands for is rounded to this magnitude (`Binary64.nearest_exact`).  Hence a float that is written
out, be it whole or in as many places as a float can need, is read back, and every shorter decimal
is written only because it is read back.  The top theorems are `Decimal.ofText?_floatText` and
`Integer64.ofText?_text`.
-/

set_option autoImplicit false

namespace CatScript

/-! ## Rounding -/

namespace Binary64

/-- No power of two is zero. -/
theorem two_pow_pos (k : Nat) : 0 < Nat.pow 2 k := Nat.two_pow_pos k

/-- A power of ten is one of two times one of five. -/
theorem ten_pow_eq (k : Nat) : Nat.pow 10 k = Nat.pow 2 k * Nat.pow 5 k := Nat.mul_pow 2 5 k

/-- No power of ten is zero. -/
theorem ten_pow_pos (k : Nat) : 0 < Nat.pow 10 k := Nat.pow_pos (by decide)

/-- A whole quotient is not rounded. -/
theorem roundHalfEven_mul {denominator : Nat} (h : 0 < denominator) (quotient : Nat) :
    roundHalfEven (denominator * quotient) denominator = quotient := by
  unfold roundHalfEven
  rw [Nat.mul_mod_right, Nat.mul_div_cancel_left quotient h]
  exact if_pos (.inl (by omega))

/-- Doubling a number so many times adds as much to its logarithm. -/
theorem log2_mul_two_pow {n : Nat} (h : n ≠ 0) (k : Nat) : (n * 2 ^ k).log2 = n.log2 + k := by
  induction k with
  | zero => simp
  | succ k ih =>
    have hne : n * 2 ^ k ≠ 0 := Nat.mul_ne_zero h (Nat.ne_of_gt (Nat.two_pow_pos k))
    rw [Nat.pow_succ, ← Nat.mul_assoc, Nat.mul_comm (n * 2 ^ k) 2, Nat.log2_two_mul hne, ih]
    rfl

/-- The leading bit alone decides on the logarithm. -/
theorem log2_of_leading {mantissa : Nat} (h : mantissa < 2 ^ 52) :
    (2 ^ 52 + mantissa).log2 = 52 := by
  have hpos : 2 ^ 52 + mantissa ≠ 0 := by omega
  have hle : 52 ≤ (2 ^ 52 + mantissa).log2 := (Nat.le_log2 hpos).2 (by omega)
  have hlt : (2 ^ 52 + mantissa).log2 < 53 := (Nat.log2_lt hpos).2 (by omega)
  omega

/-- The significand of a normal magnitude fills its bits, so that the units show the exponent. -/
theorem units_of_normal {magnitude : Nat} (h : 2 ^ 52 ≤ magnitude) :
    (units magnitude).log2 - 52 = exponent magnitude ∧
      exponent magnitude * 2 ^ 52 + significand magnitude = magnitude := by
  have hsignificand : significand magnitude = magnitude % 2 ^ 52 + 2 ^ 52 :=
    if_neg (Nat.not_lt.2 h)
  have hlog : (significand magnitude).log2 = 52 := by
    rw [hsignificand, Nat.add_comm]
    exact log2_of_leading (Nat.mod_lt magnitude (by decide))
  constructor
  · show (significand magnitude * 2 ^ exponent magnitude).log2 - 52 = exponent magnitude
    rw [log2_mul_two_pow (by omega), hlog]
    omega
  · rw [hsignificand]
    show (magnitude / 2 ^ 52 - 1) * 2 ^ 52 + (magnitude % 2 ^ 52 + 2 ^ 52) = magnitude
    omega

/-- A subnormal magnitude is its own number of units. -/
theorem units_of_subnormal {magnitude : Nat} (h : magnitude < 2 ^ 52) :
    (units magnitude).log2 - 52 = 0 ∧ units magnitude = magnitude := by
  have hsignificand : significand magnitude = magnitude := if_pos h
  have hexponent : exponent magnitude = 0 := by
    show magnitude / 2 ^ 52 - 1 = 0
    omega
  have hunits : units magnitude = magnitude := by
    show significand magnitude * 2 ^ exponent magnitude = magnitude
    rw [hsignificand, hexponent, Nat.pow_zero, Nat.mul_one]
  refine ⟨?_, hunits⟩
  rw [hunits]
  by_cases hzero : magnitude = 0
  · rw [hzero, Nat.log2_zero]
  · have := (Nat.log2_lt hzero).2 h
    omega

/-- A quotient of exactly as many units as a finite magnitude stands for is rounded to it. -/
theorem nearest_exact {numerator denominator magnitude : Nat} (hfinite : magnitude < infinity)
    (hpos : 0 < denominator) (h : numerator * unitsPerOne = denominator * units magnitude) :
    nearest numerator denominator = magnitude := by
  unfold nearest
  simp only [h, Nat.mul_div_cancel_left _ hpos]
  suffices hsum : ((units magnitude).log2 - 52) * 2 ^ 52 +
      roundHalfEven (denominator * units magnitude)
        (denominator * 2 ^ ((units magnitude).log2 - 52)) = magnitude by
    show min (((units magnitude).log2 - 52) * 2 ^ 52 +
      roundHalfEven _ (denominator * 2 ^ ((units magnitude).log2 - 52))) infinity = magnitude
    rw [hsum]
    omega
  by_cases hnormal : 2 ^ 52 ≤ magnitude
  · obtain ⟨hexponent, hmagnitude⟩ := units_of_normal hnormal
    have hunits : denominator * units magnitude =
        denominator * 2 ^ exponent magnitude * significand magnitude := by
      show denominator * (significand magnitude * 2 ^ exponent magnitude) = _
      rw [Nat.mul_comm (significand magnitude), Nat.mul_assoc]
    have hscale : 0 < denominator * 2 ^ exponent magnitude :=
      Nat.mul_pos hpos (Nat.two_pow_pos _)
    rw [hexponent, hunits, roundHalfEven_mul hscale, hmagnitude]
  · obtain ⟨hexponent, hunits⟩ := units_of_subnormal (Nat.not_le.1 hnormal)
    rw [hexponent, hunits, Nat.pow_zero, Nat.mul_one, roundHalfEven_mul hpos]
    omega

/-! ## Bits -/

/-- A float is read back from its sign and its magnitude. -/
theorem ofParts_magnitude (x : Float) : ofParts (isNegative x) (magnitude x) = x := by
  have hlt : x.toBits.toNat < 2 ^ 64 := x.toBits.toNat_lt
  have hsign : signBit = 2 ^ 63 := rfl
  have hparts : (if isNegative x then magnitude x + signBit else magnitude x) =
      x.toBits.toNat := by
    unfold isNegative magnitude
    rw [hsign]
    by_cases h : 2 ^ 63 ≤ x.toBits.toNat
    · rw [if_pos (decide_eq_true h)]
      omega
    · rw [if_neg (by simpa using h)]
      omega
  unfold ofParts
  rw [hparts, UInt64.ofNat_toNat, Float.ofBits_toBits]

end Binary64

/-! ## Decimals -/

namespace Decimal

open Binary64

/-- A decimal is chosen only if it is read back. -/
theorem eq_of_choose? {low high d : Decimal} {lowReads highReads preferLow : Bool}
    (h : choose? low high lowReads highReads preferLow = some d) :
    low = d ∧ lowReads = true ∨ high = d ∧ highReads = true := by
  cases lowReads with
  | true =>
    cases highReads with
    | true =>
      cases preferLow with
      | true => exact .inl ⟨Option.some.inj h, rfl⟩
      | false => exact .inr ⟨Option.some.inj h, rfl⟩
    | false => exact .inl ⟨Option.some.inj h, rfl⟩
  | false =>
    cases highReads with
    | true => exact .inr ⟨Option.some.inj h, rfl⟩
    | false => exact absurd h (Option.some_ne_none d).symm

/-- A decimal of so many places is read back wherever it is chosen. -/
theorem nearest_of_atPlaces? {magnitude places : Nat} {d : Decimal}
    (h : atPlaces? magnitude places = some d) : d.nearest = magnitude ∧ d.places = places := by
  obtain ⟨rfl, hreads⟩ | ⟨rfl, hreads⟩ := eq_of_choose? h
  · exact ⟨beq_iff_eq.1 hreads, rfl⟩
  · exact ⟨beq_iff_eq.1 hreads, rfl⟩

/-- A number of places as large as the number of factors of two is enough for a quotient by their
product. -/
theorem div_two_pow_exact (n k : Nat) :
    n * Nat.pow 10 k / Nat.pow 2 k * Nat.pow 2 k = Nat.pow 10 k * n := by
  rw [ten_pow_eq, Nat.mul_left_comm, Nat.mul_div_cancel_left _ (two_pow_pos k),
    Nat.mul_comm (n * Nat.pow 5 k), Nat.mul_comm n, Nat.mul_assoc]

/-- In as many places as there are factors of two in one, every finite magnitude is exact. -/
theorem nearest_all_places {magnitude : Nat} (hfinite : magnitude < infinity) :
    Decimal.nearest ⟨units magnitude * Nat.pow 10 1074 / unitsPerOne, 1074⟩ = magnitude :=
  nearest_exact hfinite (ten_pow_pos 1074) (div_two_pow_exact (units magnitude) 1074)

/-- The shortest decimal of a finite magnitude is read back, and has a digit behind the point. -/
theorem nearest_shortest {magnitude : Nat} (hfinite : magnitude < infinity) :
    (shortest magnitude).nearest = magnitude ∧ 0 < (shortest magnitude).places := by
  unfold shortest
  cases hfound : (List.range' 1 1074).findSome? (atPlaces? magnitude) with
  | none => exact ⟨nearest_all_places hfinite, Nat.succ_pos 1073⟩
  | some d =>
    obtain ⟨places, hmem, hd⟩ := List.exists_of_findSome?_eq_some hfound
    obtain ⟨hnearest, hplaces⟩ := nearest_of_atPlaces? hd
    have := (List.mem_range'_1.1 hmem).1
    exact ⟨hnearest, by show 0 < d.places; omega⟩

/-- The decimal that stands for a finite magnitude is read back, and has a digit behind the
point. -/
theorem nearest_ofMagnitude {magnitude : Nat} (hfinite : magnitude < infinity) :
    (ofMagnitude magnitude).nearest = magnitude ∧ 0 < (ofMagnitude magnitude).places := by
  unfold ofMagnitude
  split
  next hwhole =>
    refine ⟨?_, Nat.one_pos⟩
    apply nearest_exact hfinite (ten_pow_pos 1)
    show units magnitude / unitsPerOne * 10 * unitsPerOne = 10 * units magnitude
    have hunits := Nat.div_mul_cancel (Nat.dvd_of_mod_eq_zero hwhole)
    rw [Nat.mul_right_comm, hunits, Nat.mul_comm]
  next => exact nearest_shortest hfinite

end Decimal

/-! ## Texts -/

/-- A number that fits into a width has as many digits once it is padded. -/
theorem Text.length_padded {width n : Nat} (hwidth : 0 < width) (h : n < 10 ^ width) :
    (Text.padded width n).length = width := by
  have hle := (Nat.length_toDigits_le_iff (by decide) hwidth).2 h
  simp only [Text.padded, List.length_append, List.length_replicate]
  omega

/-- A padded number reads back as the number. -/
theorem Text.ofDigitChars_padded (width n : Nat) :
    Nat.ofDigitChars 10 (Text.padded width n) 0 = n := by
  rw [Text.padded, Nat.ofDigitChars_append, Nat.ofDigitChars_replicate_zero, Nat.mul_zero,
    Nat.ofDigitChars_ten_toDigits]

/-- A padded number has only digits in it. -/
theorem Text.isDigit_of_mem_padded {width n : Nat} {c : Char} (h : c ∈ Text.padded width n) :
    c.isDigit = true := by
  obtain hzero | hdigit := List.mem_append.1 h
  · rw [(List.mem_replicate.1 hzero).2]
    rfl
  · exact Text.isDigit_of_mem_toDigits hdigit

/-- A run of digits ends where something else begins. -/
theorem Text.takeWhile_isDigit_append {digits rest : List Char}
    (hdigits : ∀ c ∈ digits, c.isDigit = true) (hrest : rest.takeWhile Char.isDigit = []) :
    (digits ++ rest).takeWhile Char.isDigit = digits := by
  rw [List.takeWhile_append_of_pos hdigits, hrest, List.append_nil]

/-- A run of digits with nothing behind it is taken as a whole. -/
theorem Text.takeWhile_isDigit {digits : List Char} (h : ∀ c ∈ digits, c.isDigit = true) :
    digits.takeWhile Char.isDigit = digits ∧ digits.dropWhile Char.isDigit = [] := by
  have htake : (digits ++ []).takeWhile Char.isDigit = digits :=
    Text.takeWhile_isDigit_append h rfl
  have hdrop : (digits ++ []).dropWhile Char.isDigit = [] := List.dropWhile_append_of_pos h
  rw [List.append_nil] at htake hdrop
  exact ⟨htake, hdrop⟩

/-- Digits are the text of a number without a sign. -/
theorem Text.splitSign_digits {c : Char} (h : c.isDigit = true) (rest : List Char) :
    Text.splitSign (c :: rest) = (false, c :: rest) := by
  unfold Text.splitSign
  split
  next heq => rw [(List.cons.inj heq).1] at h; exact absurd h (by decide)
  next heq => rw [(List.cons.inj heq).1] at h; exact absurd h (by decide)
  next => rfl

namespace Decimal

open Binary64

/-- A decimal is written as two runs of digits with a point between them, which together write its
steps. -/
theorem text_eq {d : Decimal} (hplaces : 0 < d.places) :
    ∃ whole fraction : List Char, d.text = whole ++ '.' :: fraction ∧
      whole ≠ [] ∧ fraction.length = d.places ∧
      (∀ c ∈ whole, c.isDigit = true) ∧ (∀ c ∈ fraction, c.isDigit = true) ∧
      Nat.ofDigitChars 10 (whole ++ fraction) 0 = d.steps := by
  have hone := ten_pow_pos d.places
  have hlength : (Text.padded d.places (d.steps % Nat.pow 10 d.places)).length = d.places :=
    Text.length_padded hplaces (Nat.mod_lt d.steps hone)
  refine ⟨_, _, rfl, Text.toDigits_ne_nil _, hlength, fun _ => Text.isDigit_of_mem_toDigits,
    fun _ => Text.isDigit_of_mem_padded, ?_⟩
  rw [Nat.ofDigitChars_append, Nat.ofDigitChars_ten_toDigits, Nat.ofDigitChars_eq_ofDigitChars_zero,
    Text.ofDigitChars_padded, hlength]
  exact Nat.div_add_mod d.steps (10 ^ d.places)

/-- Without an exponent nothing is scaled. -/
theorem scaleNearest_zero (d : Decimal) (digits : Nat) : scaleNearest d digits 0 = d.nearest := by
  have he : max (-((digits : Int) + 400)) (min ((digits : Int) + 400) 0) = 0 := by omega
  unfold scaleNearest
  have hsteps : d.steps * Nat.pow 10 0 = d.steps := Nat.mul_one d.steps
  simp only [he, Int.toNat_zero, Int.neg_zero, Nat.add_zero, hsteps]
  rw [Decimal.nearest]

/-- The text of a decimal is no word. -/
theorem word?_point {text : List Char} (h : '.' ∈ text) : word? text = none := by
  have hlower : '.' ∈ text.map Char.toLower := List.mem_map.2 ⟨'.', h, rfl⟩
  have hno {word : List Char} (hword : '.' ∉ word) : text.map Char.toLower ≠ word := by
    intro heq
    exact hword (heq ▸ hlower)
  unfold word?
  dsimp only
  rw [if_neg (fun hor => hor.elim (hno (by decide)) (hno (by decide))),
    if_neg (hno (by decide))]

section Point

variable {whole fraction : List Char}

/-- Two runs of digits with a point between them are a numeral, if there is a digit before it. -/
theorem numeral?_point (hne : whole ≠ []) (hwhole : ∀ c ∈ whole, c.isDigit = true)
    (hfraction : ∀ c ∈ fraction, c.isDigit = true) :
    numeral? (whole ++ '.' :: fraction) =
      some (Decimal.nearest ⟨Nat.ofDigitChars 10 (whole ++ fraction) 0, fraction.length⟩) := by
  have htake : (whole ++ '.' :: fraction).takeWhile Char.isDigit = whole :=
    Text.takeWhile_isDigit_append hwhole rfl
  have hdrop : (whole ++ '.' :: fraction).dropWhile Char.isDigit = '.' :: fraction := by
    rw [List.dropWhile_append_of_pos hwhole]
    rfl
  obtain ⟨hrun, hend⟩ := Text.takeWhile_isDigit hfraction
  unfold numeral?
  simp only [htake, hdrop, hrun, hend]
  rw [if_neg (fun hand => hne hand.1), exponent?, Option.map_some, scaleNearest_zero]

/-- Such a numeral is read as the nearest float. -/
theorem ofText?_point (hne : whole ≠ []) (hwhole : ∀ c ∈ whole, c.isDigit = true)
    (hfraction : ∀ c ∈ fraction, c.isDigit = true) :
    ofText? (whole ++ '.' :: fraction) = some (ofParts false
      (Decimal.nearest ⟨Nat.ofDigitChars 10 (whole ++ fraction) 0, fraction.length⟩)) := by
  have hsplit : Text.splitSign (whole ++ '.' :: fraction) = (false, whole ++ '.' :: fraction) := by
    obtain ⟨first, rest, rfl⟩ := List.exists_cons_of_ne_nil hne
    exact Text.splitSign_digits (hwhole first (List.mem_cons_self ..)) _
  have hpoint : '.' ∈ whole ++ '.' :: fraction := by simp
  rw [ofText?, hsplit]
  simp only [word?_point hpoint, numeral?_point hne hwhole hfraction]
  rfl

end Point

/-- A finite float without a sign is written as the decimal of its magnitude. -/
theorem floatText_eq {x : Float} (hfinite : magnitude x < infinity)
    (hsign : isNegative x = false) : floatText x = (ofMagnitude (magnitude x)).text := by
  have hnumber : ¬ infinity < magnitude x := by omega
  have hne : magnitude x ≠ infinity := by omega
  simp only [floatText, if_neg hnumber, if_neg hne, hsign, Bool.false_eq_true, if_false]

/-- A finite float without a sign is read back from its text. -/
theorem ofText?_floatText {x : Float} (hfinite : magnitude x < infinity)
    (hsign : isNegative x = false) : ofText? (floatText x) = some x := by
  obtain ⟨hnearest, hplaces⟩ := nearest_ofMagnitude hfinite
  obtain ⟨whole, fraction, htext, hne, hlength, hwhole, hfraction, hsteps⟩ := text_eq hplaces
  rw [floatText_eq hfinite hsign, htext, ofText?_point hne hwhole hfraction, hsteps, hlength,
    hnearest, ← hsign, ofParts_magnitude]

end Decimal

/-- An integer without a sign is written in digits. -/
theorem Integer64.text_eq {i : Int64} (h : 0 ≤ i.toInt) :
    Integer64.text i = Nat.toDigits 10 i.toInt.natAbs :=
  if_neg (by omega)

/-- An integer without a sign is read back from its text. -/
theorem Integer64.ofText?_text {i : Int64} (h : 0 ≤ i.toInt) :
    Integer64.ofText? (Integer64.text i) = some i := by
  rw [Integer64.text_eq h, Integer64.ofText?]
  have hnumber := Text.number?_toDigits i.toInt.natAbs
  obtain ⟨first, rest, hfirst⟩ :=
    List.exists_cons_of_ne_nil (Text.toDigits_ne_nil i.toInt.natAbs)
  have hdigit : first.isDigit = true :=
    @Text.isDigit_of_mem_toDigits i.toInt.natAbs first (by simp [hfirst])
  rw [hfirst] at hnumber ⊢
  simp only [Text.splitSign_digits hdigit, hnumber, Option.bind_some, Bool.false_eq_true, if_false]
  rw [Int.natAbs_of_nonneg h, Integer64.ofInt?_toInt]

end CatScript
