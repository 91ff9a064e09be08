import CatScript.Proofs.Evaluation.FirstFault

/-!
# Exact arithmetic

The operators mean the four operations on rational numbers.  Two integers give the integer that is
their exact result, if there is one within 64 bits, and otherwise the floats nearest to them are
operated on; nothing wraps around, and only a division by the integer zero fails
(`BinaryOp.applyIntegers_cases`).  Along the nodes of an expression over integers each operator
keeps the exact value or leaves the integers, so an evaluation that meets no float ends with the
rational value of the expression.
-/

set_option autoImplicit false

namespace CatScript

/-! ## Operators -/

/-- The operation on rational numbers. -/
def BinaryOp.onRationals (op : BinaryOp) (l r : ℚ) : ℚ :=
  match op with
  | .add => l + r
  | .subtract => l - r
  | .multiply => l * r
  | .divide => l / r

namespace Integer64

/-- The 64-bit integers are those from `-2 ^ 63` to `2 ^ 63 - 1`. -/
theorem exists_toInt_eq_iff {n : Int} :
    (∃ i : Int64, i.toInt = n) ↔ -2 ^ 63 ≤ n ∧ n ≤ 2 ^ 63 - 1 := by
  constructor
  · rintro ⟨i, rfl⟩
    exact ⟨i.minValue_le_toInt, i.toInt_le⟩
  · rintro ⟨hlo, hhi⟩
    exact ⟨Int64.ofInt n, Int64.toInt_ofInt_of_le hlo (by omega)⟩

/-- Only the 64-bit zero is the integer zero. -/
theorem toInt_eq_zero_iff {i : Int64} : i.toInt = 0 ↔ i = 0 := by
  rw [← Int64.toInt_inj, Int64.toInt_zero]

end Integer64

namespace BinaryOp

variable {op : BinaryOp}

/-- A quotient of integers is a whole number if and only if nothing remains. -/
theorem div_eq_intCast_iff {l r n : Int} (hr : r ≠ 0) :
    (l : ℚ) / r = n ↔ l % r = 0 ∧ l / r = n := by
  have hr' : (r : ℚ) ≠ 0 := Int.cast_ne_zero.2 hr
  rw [div_eq_iff hr']
  constructor
  · intro h
    have hl : l = n * r := by exact_mod_cast h
    rw [hl]
    exact ⟨Int.mul_emod_left n r, Int.mul_ediv_cancel n hr⟩
  · rintro ⟨hmod, hdiv⟩
    have hl : l = n * r := by
      rw [← hdiv, Int.ediv_mul_cancel (Int.dvd_of_emod_eq_zero hmod)]
    exact_mod_cast hl

/-- The whole number that an operation gives is its exact result. -/
theorem onInts?_eq_some_iff {l r n : Int} (h : ¬(op = .divide ∧ r = 0)) :
    op.onInts? l r = some n ↔ op.onRationals l r = n := by
  cases op with
  | add =>
    simp only [onInts?, onRationals, Option.some.injEq]
    norm_cast
  | subtract =>
    simp only [onInts?, onRationals, Option.some.injEq]
    norm_cast
  | multiply =>
    simp only [onInts?, onRationals, Option.some.injEq]
    norm_cast
  | divide =>
    have hr : r ≠ 0 := fun hr => h ⟨rfl, hr⟩
    simp [onInts?, onRationals, div_eq_intCast_iff hr, hr]

/-- What an operation on two integers gives: an error where an integer is divided by zero, else the
exact result if it is an integer, else the result among the floats. -/
theorem applyIntegers_cases (op : BinaryOp) (l r : Int64) :
    (op = .divide ∧ r = 0 ∧ op.applyIntegers l r = .error .divisionByZero) ∨
      ¬(op = .divide ∧ r = 0) ∧
        ((∃ i : Int64, op.onRationals l.toInt r.toInt = i.toInt ∧
            op.applyIntegers l r = .ok (.integer i)) ∨
          (∀ i : Int64, op.onRationals l.toInt r.toInt ≠ i.toInt) ∧
            op.applyIntegers l r =
              .ok (.float (op.onFloats (Integer64.toFloat l) (Integer64.toFloat r)))) := by
  by_cases hzero : op = .divide ∧ r.toInt = 0
  · refine .inl ⟨hzero.1, Integer64.toInt_eq_zero_iff.1 hzero.2, ?_⟩
    exact applyIntegers_eq_error_iff.2 ⟨hzero.1, hzero.2, rfl⟩
  · refine .inr ⟨by rwa [← Integer64.toInt_eq_zero_iff], ?_⟩
    have hexact : ∀ i : Int64, (op.onInts? l.toInt r.toInt).bind Integer64.ofInt? = some i ↔
        op.onRationals l.toInt r.toInt = i.toInt := by
      intro i
      rw [← onInts?_eq_some_iff hzero, Option.bind_eq_some_iff]
      simp only [Integer64.ofInt?_eq_some_iff]
      exact ⟨fun ⟨n, hn, hi⟩ => hi ▸ hn, fun h => ⟨_, h, rfl⟩⟩
    unfold applyIntegers
    rw [if_neg hzero]
    cases hresult : (op.onInts? l.toInt r.toInt).bind Integer64.ofInt? with
    | some i => exact .inl ⟨i, (hexact i).1 hresult, rfl⟩
    | none =>
      refine .inr ⟨fun i hi => ?_, ?_⟩
      · exact absurd (hresult.symm.trans ((hexact i).2 hi)) (by simp)
      · -- The divisor is no zero among the integers, hence none among the floats.
        have hfloat : ¬(op = .divide ∧ (Integer64.toFloat r == 0.0) = true) := by
          rwa [Integer64.toFloat_eq_zero_iff]
        show op.applyFloats _ _ = _
        unfold applyFloats
        rw [if_neg hfloat]

end BinaryOp

/-- The opposite of an integer is exact, but for the least one. -/
theorem Value.negate_integer (n : Int64) :
    (n ≠ Int64.minValue ∧ ∃ i : Int64, i.toInt = -n.toInt ∧
        (Value.integer n).negate = .ok (.integer i)) ∨
      (n = Int64.minValue ∧ (Value.integer n).negate = .ok (.float (Float.ofNat (2 ^ 63)))) := by
  have hmin : Int64.minValue.toInt = -2 ^ 63 := by decide
  have hmax : Int64.maxValue.toInt = 2 ^ 63 - 1 := by decide
  cases hresult : Integer64.ofInt? (-n.toInt) with
  | some i =>
    have hi := Integer64.ofInt?_eq_some_iff.1 hresult
    refine .inl ⟨?_, i, hi, by simp only [negate, hresult]⟩
    rintro rfl
    have hle := i.toInt_le
    omega
  | none =>
    have hrange := Integer64.ofInt?_eq_none_iff.1 hresult
    have hlo := n.minValue_le_toInt
    have hhi := n.toInt_le
    obtain rfl : n = Int64.minValue := Int64.toInt_inj.1 (by omega)
    exact .inr ⟨rfl, by simp only [negate, hresult, Integer64.neg_toFloat_minValue]⟩

/-! ## Expressions -/

/-- An expression is built from integers: literals and variables that are bound to integers, under
the operators. -/
inductive Expr.OverIntegers (scope : Scope) : Expr → Prop
  | literal (i : Int64) (span : Span) : OverIntegers scope (.integer i span)
  | variable {name : String} {i : Int64} (hname : scope.bindings.get? name = some (.integer i))
      (span : Span) : OverIntegers scope (.identifier name span)
  | negate {operand : Expr} (h : OverIntegers scope operand) (span : Span) :
      OverIntegers scope (.negate operand span)
  | binary (op : BinaryOp) {left right : Expr} (hl : OverIntegers scope left)
      (hr : OverIntegers scope right) (span : Span) :
      OverIntegers scope (.binary op left right span)

/-- The rational value of an expression over integers, if it divides nothing by zero. -/
def Expr.rational? (scope : Scope) : Expr → Option ℚ
  | .integer i _ => some i.toInt
  | .identifier name _ =>
    match scope.bindings.get? name with
    | some (.integer i) => some i.toInt
    | _ => none
  | .negate operand _ => (operand.rational? scope).map fun q => -q
  | .binary op left right _ =>
    (left.rational? scope).bind fun l => (right.rational? scope).bind fun r =>
      if op = .divide ∧ r = 0 then none else some (op.onRationals l r)
  | _ => none

/-- An evaluation of integers that meets no float gives the rational value of the expression. -/
theorem Expr.eval_rational {scope : Scope} {e : Expr} (he : e.OverIntegers scope) :
    ∀ {v : Value}, e.eval scope = .ok v →
      (∀ m ∈ e.postorder, ∀ x, m.eval scope ≠ .ok (.float x)) →
        ∃ i : Int64, v = .integer i ∧ e.rational? scope = some (i.toInt : ℚ) := by
  induction he with
  | literal i span =>
    intro v hv _
    rw [eval, Except.ok.injEq] at hv
    exact ⟨i, hv.symm, rfl⟩
  | «variable» hname span =>
    intro v hv _
    simp only [eval, Scope.lookup, hname, Except.ok.injEq] at hv
    exact ⟨_, hv.symm, by simp [rational?, hname]⟩
  | @negate operand _ span ih =>
    intro v hv hfloat
    cases hoperand : operand.eval scope with
    | error failure => simp [eval, hoperand] at hv
    | ok w =>
      obtain ⟨n, rfl, hrational⟩ := ih hoperand fun m hm => hfloat m (List.mem_append_left _ hm)
      simp only [eval, hoperand] at hv
      obtain ⟨-, i, hi, hnegate⟩ | ⟨-, hnegate⟩ := Value.negate_integer n
      · rw [hnegate, Except.mapError, Except.ok.injEq] at hv
        exact ⟨i, hv.symm, by simp [rational?, hrational, hi]⟩
      -- The opposite of the least integer is a float, and none is met.
      · have hnode : (Expr.negate operand span).eval scope =
            .ok (.float (Float.ofNat (2 ^ 63))) := by
          simp only [eval, hoperand, hnegate]
          rfl
        exact absurd hnode (hfloat _ (by simp [postorder]) _)
  | @binary op left right _ _ span ihl ihr =>
    intro v hv hfloat
    cases hleft : left.eval scope with
    | error failure => simp [eval, hleft] at hv
    | ok l =>
      cases hright : right.eval scope with
      | error failure => simp [eval, hleft, hright] at hv
      | ok r =>
        obtain ⟨l, rfl, hl⟩ := ihl hleft fun m hm => hfloat m (by simp [postorder, hm])
        obtain ⟨r, rfl, hr⟩ := ihr hright fun m hm => hfloat m (by simp [postorder, hm])
        simp only [eval, hleft, hright, BinaryOp.apply] at hv
        obtain ⟨-, -, hzero⟩ | ⟨hop, ⟨i, hi, happly⟩ | ⟨-, happly⟩⟩ := op.applyIntegers_cases l r
        · simp [hzero, Except.mapError] at hv
        · rw [happly, Except.mapError, Except.ok.injEq] at hv
          refine ⟨i, hv.symm, ?_⟩
          have hop' : ¬(op = .divide ∧ (r.toInt : ℚ) = 0) := by
            rwa [Int.cast_eq_zero, Integer64.toInt_eq_zero_iff]
          simp only [rational?, hl, hr, Option.bind_some, if_neg hop', hi]
        -- A result that is no integer within 64 bits is a float, and none is met.
        · have hnode : (Expr.binary op left right span).eval scope =
              .ok (.float (op.onFloats (Integer64.toFloat l) (Integer64.toFloat r))) := by
            simp only [eval, hleft, hright, BinaryOp.apply, happly]
            rfl
          exact absurd hnode (hfloat _ (by simp [postorder]) _)

/-- Arithmetic on integers is exact or goes on among the floats.  It fails if and only if it divides
by zero; it gives the integer that is its exact result wherever there is one within 64 bits, and the
sum, difference, product or quotient of the nearest floats wherever there is none.  The opposite of
an integer is exact, but for the least one, whose opposite is the float `2 ^ 63`.  An evaluation of
integers that meets no float gives the rational value of the expression. -/
theorem Value.integer_arithmetic_exact :
    (∀ (op : BinaryOp) (l r : Int64),
      (op.apply (.integer l) (.integer r) = .error .divisionByZero ↔ op = .divide ∧ r = 0) ∧
      (¬(op = .divide ∧ r = 0) →
        (∀ n : Int, -2 ^ 63 ≤ n → n ≤ 2 ^ 63 - 1 → op.onRationals l.toInt r.toInt = n →
          ∃ i : Int64, i.toInt = n ∧ op.apply (.integer l) (.integer r) = .ok (.integer i)) ∧
        ((∀ n : Int, -2 ^ 63 ≤ n → n ≤ 2 ^ 63 - 1 → op.onRationals l.toInt r.toInt ≠ n) →
          op.apply (.integer l) (.integer r) = .ok (.float (match op with
            | .add => Integer64.toFloat l + Integer64.toFloat r
            | .subtract => Integer64.toFloat l - Integer64.toFloat r
            | .multiply => Integer64.toFloat l * Integer64.toFloat r
            | .divide => Integer64.toFloat l / Integer64.toFloat r))))) ∧
    (∀ n : Int64, n ≠ Int64.minValue →
      ∃ i : Int64, i.toInt = -n.toInt ∧ (Value.integer n).negate = .ok (.integer i)) ∧
    (Value.integer Int64.minValue).negate = .ok (.float (Float.ofNat (2 ^ 63))) ∧
    ∀ (scope : Scope) (e : Expr) (v : Value), e.OverIntegers scope → e.eval scope = .ok v →
      (∀ m ∈ e.postorder, ∀ x, m.eval scope ≠ .ok (.float x)) →
        ∃ i : Int64, v = .integer i ∧ e.rational? scope = some (i.toInt : ℚ) := by
  refine ⟨fun op l r => ?_, fun n hn => ?_, ?_, fun scope e v he hv => Expr.eval_rational he hv⟩
  · show (op.applyIntegers l r = _ ↔ _) ∧ (_ → (∀ n : Int, _ → _ → _ → ∃ i : Int64, _ ∧
      op.applyIntegers l r = _) ∧ (_ → op.applyIntegers l r = _))
    obtain ⟨hop, hr, hzero⟩ | ⟨hop, ⟨i, hi, hexact⟩ | ⟨hnone, hfloat⟩⟩ := op.applyIntegers_cases l r
    · exact ⟨⟨fun _ => ⟨hop, hr⟩, fun _ => hzero⟩, fun h => absurd ⟨hop, hr⟩ h⟩
    · refine ⟨⟨fun h => by simp [hexact] at h, fun h => absurd h hop⟩, fun _ => ⟨?_, ?_⟩⟩
      · intro n _ _ hn
        rw [hi] at hn
        exact ⟨i, Int.cast_injective hn, hexact⟩
      · intro hnone
        obtain ⟨hlo, hhi⟩ := Integer64.exists_toInt_eq_iff.1 ⟨i, rfl⟩
        exact absurd hi (hnone _ hlo hhi)
    · refine ⟨⟨fun h => by simp [hfloat] at h, fun h => absurd h hop⟩,
        fun _ => ⟨?_, fun _ => hfloat.trans ?_⟩⟩
      · intro n hlo hhi hn
        obtain ⟨i, rfl⟩ := Integer64.exists_toInt_eq_iff.2 ⟨hlo, hhi⟩
        exact absurd hn (hnone i)
      · cases op <;> rfl
  · obtain ⟨-, hnegate⟩ | ⟨hmin, -⟩ := Value.negate_integer n
    · exact hnegate
    · exact absurd hmin hn
  · obtain ⟨hmin, -⟩ | ⟨-, hnegate⟩ := Value.negate_integer Int64.minValue
    · exact absurd rfl hmin
    · exact hnegate

/-- The expression `(7 - x) / -2`. -/
def halvedDifference : Expr :=
  .binary .divide
    (.binary .subtract (.integer 7 ⟨1, 2, 1, 2⟩) (.identifier "x" ⟨5, 6, 1, 6⟩) ⟨1, 6, 1, 2⟩)
    (.negate (.integer 2 ⟨11, 12, 1, 12⟩) ⟨10, 12, 1, 11⟩) ⟨1, 12, 1, 2⟩

/-- A sum, a difference and a product beyond the ends of the range, a quotient without and one with
a remainder, the quotient beyond the end, an opposite, and `halvedDifference` where `x` is one. -/
theorem Value.integer_arithmetic_exact_at_ends :
    BinaryOp.add.apply (.integer Int64.maxValue) (.integer 1) =
        .ok (.float (Integer64.toFloat Int64.maxValue + Integer64.toFloat 1)) ∧
      BinaryOp.subtract.apply (.integer Int64.minValue) (.integer 1) =
        .ok (.float (Integer64.toFloat Int64.minValue - Integer64.toFloat 1)) ∧
      BinaryOp.multiply.apply (.integer Int64.maxValue) (.integer (-2)) =
        .ok (.float (Integer64.toFloat Int64.maxValue * Integer64.toFloat (-2))) ∧
      (∃ i : Int64, i.toInt = -3 ∧
        BinaryOp.divide.apply (.integer 6) (.integer (-2)) = .ok (.integer i)) ∧
      BinaryOp.divide.apply (.integer 7) (.integer 2) =
        .ok (.float (Integer64.toFloat 7 / Integer64.toFloat 2)) ∧
      BinaryOp.divide.apply (.integer Int64.minValue) (.integer (-1)) =
        .ok (.float (Integer64.toFloat Int64.minValue / Integer64.toFloat (-1))) ∧
      (∃ i : Int64, i.toInt = -Int64.maxValue.toInt ∧
        (Value.integer Int64.maxValue).negate = .ok (.integer i)) ∧
      ∃ i : Int64, Value.integer (-3) = .integer i ∧
        halvedDifference.rational? (Scope.empty.define "x" (.integer 1)) = some (i.toInt : ℚ) := by
  obtain ⟨happly, hnegate, -, hrational⟩ := Value.integer_arithmetic_exact
  have hmin : Int64.minValue.toInt = -2 ^ 63 := by decide
  have hmax : Int64.maxValue.toInt = 2 ^ 63 - 1 := by decide
  refine ⟨?_, ?_, ?_, ?_, ?_, ?_, hnegate _ (by decide), ?_⟩
  · refine ((happly .add Int64.maxValue 1).2 (by decide)).2 fun n _ hhi hn => ?_
    have hsum : Int64.maxValue.toInt + (1 : Int64).toInt = n :=
      Option.some.inj ((BinaryOp.onInts?_eq_some_iff (by decide)).2 hn)
    rw [hmax, Int64.toInt_one] at hsum
    omega
  · refine ((happly .subtract Int64.minValue 1).2 (by decide)).2 fun n hlo _ hn => ?_
    have hdifference : Int64.minValue.toInt - (1 : Int64).toInt = n :=
      Option.some.inj ((BinaryOp.onInts?_eq_some_iff (by decide)).2 hn)
    rw [hmin, Int64.toInt_one] at hdifference
    omega
  · refine ((happly .multiply Int64.maxValue (-2)).2 (by decide)).2 fun n hlo _ hn => ?_
    have hproduct : Int64.maxValue.toInt * (-2 : Int64).toInt = n :=
      Option.some.inj ((BinaryOp.onInts?_eq_some_iff (by decide)).2 hn)
    rw [hmax, show (-2 : Int64).toInt = -2 by decide] at hproduct
    omega
  · exact ((happly .divide 6 (-2)).2 (by decide)).1 (-3) (by decide) (by decide)
      ((BinaryOp.div_eq_intCast_iff (by decide)).2 (by decide))
  · refine ((happly .divide 7 2).2 (by decide)).2 fun n _ _ hn => ?_
    exact absurd ((BinaryOp.div_eq_intCast_iff (by decide)).1 hn).1 (by decide)
  · refine ((happly .divide Int64.minValue (-1)).2 (by decide)).2 fun n _ hhi hn => ?_
    have hquotient : Int64.minValue.toInt / (-1 : Int64).toInt = 2 ^ 63 := by decide
    have hn' := ((BinaryOp.div_eq_intCast_iff (by decide)).1 hn).2
    omega
  · have hover : halvedDifference.OverIntegers (Scope.empty.define "x" (.integer 1)) :=
      .binary _ (.binary _ (.literal 7 _) (.variable rfl _) _) (.negate (.literal 2 _) _) _
    have hvalue : halvedDifference.eval (Scope.empty.define "x" (.integer 1)) =
        .ok (.integer (-3)) := by rfl
    refine hrational _ _ _ hover hvalue ?_
    simp only [halvedDifference, Expr.postorder, List.cons_append, List.nil_append,
      List.forall_mem_cons]
    refine ⟨?_, ?_, ?_, ?_, ?_, ?_, by simp⟩ <;> rintro x ⟨⟩

end CatScript
