import Mathlib
import CatScript.Model.Scope

/-!
# Kinds of values

Of every value it can be told without a run whether it is a string or a number, and of every
expression whether it stands for one of them or fails.  The scan of an expression follows its
evaluation: operands from left to right, then the operator.  It cannot see whether a divisor is
zero.  The top theorem `Expr.eval_foretold` says that it sees everything else: an evaluation gives a
value of the scanned kind, or fails with the scanned fault, unless it divides by zero first.
-/

set_option autoImplicit false

namespace CatScript

/-! ## Scans of expressions -/

/-- What a scan tells values apart by. -/
inductive Kind
  | text
  | number
deriving DecidableEq, Repr

/-- The kind of a value. -/
def Value.kind : Value → Kind
  | .string _ => .text
  | .integer _ | .float _ => .number

/-- What a scan knows of the variables: the kinds of those that are bound. -/
abbrev Kinds := String → Option Kind

/-- The kinds of the variables once a variable is bound to a value of a kind. -/
def Kinds.bind (kinds : Kinds) (name : String) (kind : Kind) : Kinds :=
  fun other => if other = name then some kind else kinds other

/-- The variables of a scope are those that the kinds say, and of these kinds. -/
def Scope.HasKinds (scope : Scope) (kinds : Kinds) : Prop :=
  ∀ name, (scope.bindings.get? name).map Value.kind = kinds name

/-- What a scan finds wrong with an expression, and where. -/
inductive Fault
  | unbound (name : String) (span : Span)
  | call (function : String) (span : Span)
  | operands (span : Span)
deriving DecidableEq, Repr

/-- The errors in which a fault shows. -/
def Fault.Explains : Fault → Error → Prop
  | .unbound name span, e => e = .of (.undefinedVariable name) span
  | .call function span, e =>
    e = .of (.undefinedFunction function) span ∨ e = .of (.unsupportedCall function) span
  | .operands span, e => ∃ operation, e = .of (.unsupportedOperator operation) span

/-- The kind that an operator gives, if it takes operands of these kinds. -/
def BinaryOp.kind? : BinaryOp → Kind → Kind → Option Kind
  | .add, .text, .text => some .text
  | _, .number, .number => some .number
  | _, _, _ => none

/-- The kind of a variable, asked for at a span. -/
def Kinds.scan (kinds : Kinds) (name : String) (span : Span) : Except Fault Kind :=
  match kinds name with
  | some kind => .ok kind
  | none => .error (.unbound name span)

/-- The kind that a minus gives: that of its operand, if it is a number. -/
def Kind.negate (kind : Kind) (span : Span) : Except Fault Kind :=
  if kind = .number then .ok .number else .error (.operands span)

/-- The kind that an operator gives, or the fault of operands that it does not take. -/
def BinaryOp.scan (op : BinaryOp) (l r : Kind) (span : Span) : Except Fault Kind :=
  match op.kind? l r with
  | some kind => .ok kind
  | none => .error (.operands span)

/-- The kind of an expression, or its first fault in the order of evaluation.  No call succeeds. -/
def Expr.scan (kinds : Kinds) : Expr → Except Fault Kind
  | .string _ _ => .ok .text
  | .integer _ _ | .float _ _ => .ok .number
  | .identifier name span => kinds.scan name span
  | .call function _ span => .error (.call function span)
  | .negate operand span => do
    let kind ← operand.scan kinds
    kind.negate span
  | .binary op left right span => do
    let l ← left.scan kinds
    let r ← right.scan kinds
    op.scan l r span

/-- The places that a scan passes once it has found a kind, and none if it has found a fault. -/
def passing (scan : Except Fault Kind) (places : Kind → List Span) : List Span :=
  match scan with
  | .ok kind => places kind
  | .error _ => []

/-- The place of a division of two numbers. -/
def BinaryOp.division (op : BinaryOp) (l r : Kind) (span : Span) : List Span :=
  if op = .divide ∧ l = .number ∧ r = .number then [span] else []

/-- The divisions that the scan of an expression passes, in order, before it ends or finds a
fault. -/
def Expr.divisions (kinds : Kinds) : Expr → List Span
  | .negate operand _ => operand.divisions kinds
  | .binary op left right span =>
    left.divisions kinds ++ passing (left.scan kinds) fun l =>
      right.divisions kinds ++ passing (right.scan kinds) fun r => op.division l r span
  | _ => []

/-- The error of a division by zero at one of the given places. -/
def Error.DividesByZero (e : Error) (divisions : List Span) : Prop :=
  ∃ span ∈ divisions, e = .of .divisionByZero span

/-- A division by zero at one of some places is one at one of more places. -/
theorem Error.DividesByZero.mono {e : Error} {divisions others : List Span}
    (h : e.DividesByZero divisions) (hsub : divisions ⊆ others) : e.DividesByZero others := by
  obtain ⟨span, hspan, he⟩ := h
  exact ⟨span, hsub hspan, he⟩

/-- An evaluation comes out as a scan says, or divides by zero at one of the given places. -/
def Foretells (divisions : List Span) : Except Fault Kind → Except Error Value → Prop
  | .ok kind, .ok v => v.kind = kind
  | .ok _, .error e => e.DividesByZero divisions
  | .error fault, .error e => fault.Explains e ∨ e.DividesByZero divisions
  | .error _, .ok _ => False

namespace Foretells

variable {divisions first others : List Span} {scan : Except Fault Kind}
  {outcome : Except Error Value}

/-- What is foretold with some divisions is foretold with more. -/
theorem mono (h : Foretells divisions scan outcome) (hsub : divisions ⊆ others) :
    Foretells others scan outcome := by
  cases scan with
  | error fault =>
    cases outcome with
    | error e => exact h.imp id fun hzero => hzero.mono hsub
    | ok v => exact h
  | ok kind =>
    cases outcome with
    | error e => exact Error.DividesByZero.mono h hsub
    | ok v => exact h

/-- What comes after an evaluation is foretold if it is foretold for every value of the scanned
kind. -/
theorem bind (h : Foretells first scan outcome) {second : Kind → List Span}
    {further : Kind → Except Fault Kind} {next : Value → Except Error Value}
    (hnext : ∀ v : Value, Foretells (second v.kind) (further v.kind) (next v)) :
    Foretells (first ++ passing scan second) (scan >>= further) (outcome >>= next) := by
  have hfirst : first ⊆ first ++ passing scan second := List.subset_append_left ..
  cases scan with
  | error fault =>
    cases outcome with
    | error e => exact h.imp id fun hzero => hzero.mono hfirst
    | ok v => exact h.elim
  | ok kind =>
    cases outcome with
    | error e =>
      have hzero := Error.DividesByZero.mono h hfirst
      show Foretells _ (further kind) (.error e)
      cases further kind with
      | error fault => exact .inr hzero
      | ok kind => exact hzero
    | ok v =>
      have hkind : v.kind = kind := h
      subst hkind
      exact (hnext v).mono (List.subset_append_right first (second v.kind))

end Foretells

/-! ## Operators -/

namespace Value

/-- The opposite of a number is a number. -/
theorem negate_of_number {v : Value} (h : v.kind = .number) :
    ∃ w, v.negate = .ok w ∧ w.kind = .number := by
  cases v with
  | string s => exact absurd h (by simp [kind])
  | integer i =>
    unfold negate
    dsimp only
    split
    · exact ⟨_, rfl, rfl⟩
    · exact ⟨_, rfl, rfl⟩
  | float x => exact ⟨_, rfl, rfl⟩

/-- A text has no opposite. -/
theorem negate_of_text {v : Value} (h : v.kind = .text) :
    ∃ operation, v.negate = .error (.unsupportedOperator operation) := by
  cases v with
  | string s => exact ⟨_, rfl⟩
  | integer i => exact absurd h (by simp [kind])
  | float x => exact absurd h (by simp [kind])

end Value

namespace BinaryOp

/-- An operation on floats gives a number, or it divides by zero. -/
theorem applyFloats_number (op : BinaryOp) (l r : Float) :
    (∃ v, op.applyFloats l r = .ok v ∧ v.kind = .number) ∨
      op = .divide ∧ op.applyFloats l r = .error .divisionByZero := by
  unfold applyFloats
  split
  next h => exact .inr ⟨h.1, rfl⟩
  next => exact .inl ⟨_, rfl, rfl⟩

/-- An operation on integers leaves the integers where it overflows, but not the numbers. -/
theorem applyIntegers_number (op : BinaryOp) (l r : Int64) :
    (∃ v, op.applyIntegers l r = .ok v ∧ v.kind = .number) ∨
      op = .divide ∧ op.applyIntegers l r = .error .divisionByZero := by
  unfold applyIntegers
  split
  next h => exact .inr ⟨h.1, rfl⟩
  next =>
    split
    · exact .inl ⟨_, rfl, rfl⟩
    · exact applyFloats_number op _ _

/-- Two numbers give a number, unless the second one is a zero that should divide. -/
theorem apply_of_number (op : BinaryOp) {l r : Value} (hl : l.kind = .number)
    (hr : r.kind = .number) :
    (∃ v, op.apply l r = .ok v ∧ v.kind = .number) ∨
      op = .divide ∧ op.apply l r = .error .divisionByZero := by
  cases l with
  | string a => exact absurd hl (by simp [Value.kind])
  | integer i =>
    cases r with
    | string b => exact absurd hr (by simp [Value.kind])
    | integer j => exact applyIntegers_number op i j
    | float y => exact applyFloats_number op _ y
  | float x =>
    cases r with
    | string b => exact absurd hr (by simp [Value.kind])
    | integer j => exact applyFloats_number op x _
    | float y => exact applyFloats_number op x y

/-- The operators take two numbers to a number, and a sum takes two texts to a text. -/
theorem kind?_eq_some_iff {op : BinaryOp} {l r kind : Kind} :
    op.kind? l r = some kind ↔ (l = .number ∧ r = .number ∧ kind = .number) ∨
      (op = .add ∧ l = .text ∧ r = .text ∧ kind = .text) := by
  cases op <;> cases l <;> cases r <;> cases kind <;> decide

/-- Operands of kinds that an operator takes give a value of the kind it gives, unless the second
one is a zero that should divide. -/
theorem apply_of_kind? {op : BinaryOp} {l r : Value} {kind : Kind}
    (h : op.kind? l.kind r.kind = some kind) :
    (∃ v, op.apply l r = .ok v ∧ v.kind = kind) ∨
      op = .divide ∧ op.apply l r = .error .divisionByZero := by
  obtain ⟨hl, hr, rfl⟩ | ⟨rfl, hl, hr, rfl⟩ := kind?_eq_some_iff.1 h
  · exact apply_of_number op hl hr
  · cases l with
    | string a =>
      cases r with
      | string b => exact .inl ⟨_, rfl, rfl⟩
      | integer j => exact absurd hr (by simp [Value.kind])
      | float y => exact absurd hr (by simp [Value.kind])
    | integer i => exact absurd hl (by simp [Value.kind])
    | float x => exact absurd hl (by simp [Value.kind])

/-- Operands of other kinds are refused: two strings where they are not joined, or a string beside
a number. -/
theorem apply_of_kind?_eq_none {op : BinaryOp} {l r : Value}
    (h : op.kind? l.kind r.kind = none) :
    ∃ operation, op.apply l r = .error (.unsupportedOperator operation) := by
  have hnumber (hl : l.kind = .number) (hr : r.kind = .number) : False := by
    have hsome : op.kind? l.kind r.kind = some .number :=
      kind?_eq_some_iff.2 (.inl ⟨hl, hr, rfl⟩)
    exact Option.some_ne_none _ (hsome.symm.trans h)
  cases l with
  | string a =>
    cases r with
    | string b =>
      have hop : op ≠ .add := by
        intro hadd
        have hsome : op.kind? (Value.string a).kind (Value.string b).kind = some .text :=
          kind?_eq_some_iff.2 (.inr ⟨hadd, rfl, rfl, rfl⟩)
        exact Option.some_ne_none _ (hsome.symm.trans h)
      exact ⟨_, if_neg hop⟩
    | integer j => exact ⟨_, rfl⟩
    | float y => exact ⟨_, rfl⟩
  | integer i =>
    cases r with
    | string b => exact ⟨_, rfl⟩
    | integer j => exact (hnumber rfl rfl).elim
    | float y => exact (hnumber rfl rfl).elim
  | float x =>
    cases r with
    | string b => exact ⟨_, rfl⟩
    | integer j => exact (hnumber rfl rfl).elim
    | float y => exact (hnumber rfl rfl).elim

end BinaryOp

/-- The opposite of a value comes out as the kind of the value says. -/
theorem Value.negate_foretold (v : Value) (span : Span) :
    Foretells [] (v.kind.negate span) (v.negate.mapError (Error.of · span)) := by
  unfold Kind.negate
  cases hkind : v.kind with
  | number =>
    obtain ⟨w, hw, hnumber⟩ := Value.negate_of_number hkind
    rw [if_pos rfl, hw]
    exact hnumber
  | text =>
    obtain ⟨operation, hop⟩ := Value.negate_of_text hkind
    rw [if_neg (by decide), hop]
    exact .inl ⟨operation, rfl⟩

/-- An operation on two values comes out as the kinds of the values say. -/
theorem BinaryOp.apply_foretold (op : BinaryOp) (l r : Value) (span : Span) :
    Foretells (op.division l.kind r.kind span) (op.scan l.kind r.kind span)
      ((op.apply l r).mapError (Error.of · span)) := by
  unfold BinaryOp.scan
  cases hkind : op.kind? l.kind r.kind with
  | none =>
    obtain ⟨operation, hop⟩ := apply_of_kind?_eq_none hkind
    rw [hop]
    exact .inl ⟨operation, rfl⟩
  | some kind =>
    obtain ⟨v, hv, hv'⟩ | ⟨hdivide, hzero⟩ := apply_of_kind? hkind
    · rw [hv]
      exact hv'
    · subst hdivide
      obtain ⟨hl, hr, -⟩ | ⟨hadd, -⟩ := kind?_eq_some_iff.1 hkind
      · rw [hzero, BinaryOp.division, if_pos ⟨rfl, hl, hr⟩]
        exact ⟨span, List.mem_singleton_self span, rfl⟩
      · exact absurd hadd (by decide)

/-! ## Expressions -/

/-- An opposite is evaluated behind its operand. -/
theorem Expr.eval_negate (scope : Scope) (operand : Expr) (span : Span) :
    (Expr.negate operand span).eval scope =
      operand.eval scope >>= fun v => v.negate.mapError (Error.of · span) := by
  rw [Expr.eval]
  cases operand.eval scope <;> rfl

/-- An operation is evaluated behind its left operand and then its right one. -/
theorem Expr.eval_binary (scope : Scope) (op : BinaryOp) (left right : Expr) (span : Span) :
    (Expr.binary op left right span).eval scope =
      left.eval scope >>= fun l => right.eval scope >>= fun r =>
        (op.apply l r).mapError (Error.of · span) := by
  rw [Expr.eval]
  cases left.eval scope with
  | error e => rfl
  | ok l => cases right.eval scope <;> rfl

/-- A look-up comes out as the kinds of the scope say. -/
theorem Scope.lookup_foretold {scope : Scope} {kinds : Kinds} (h : scope.HasKinds kinds)
    (name : String) (span : Span) :
    Foretells [] (kinds.scan name span) (scope.lookup name span) := by
  have hname := h name
  unfold Kinds.scan Scope.lookup
  cases hget : scope.bindings.get? name with
  | none =>
    rw [hget, Option.map_none] at hname
    rw [← hname]
    exact .inl rfl
  | some v =>
    rw [hget, Option.map_some] at hname
    rw [← hname]
    exact rfl

/-- The evaluation of an expression comes out as its scan says, or divides by zero at a division
that the scan passes. -/
theorem Expr.eval_foretold {scope : Scope} {kinds : Kinds} (h : scope.HasKinds kinds) :
    (e : Expr) → Foretells (e.divisions kinds) (e.scan kinds) (e.eval scope)
  | .string _ _ => rfl
  | .integer _ _ => rfl
  | .float _ _ => rfl
  | .identifier name span => by
    simpa only [Expr.divisions, Expr.scan, Expr.eval] using scope.lookup_foretold h name span
  | .call function _ span => by
    simp only [Expr.scan, Expr.eval]
    left
    unfold Scope.callCause
    split
    · exact .inr rfl
    · exact .inl rfl
  | .negate operand span => by
    simp only [Expr.divisions, Expr.scan, Expr.eval_negate]
    have hbind : Foretells (operand.divisions kinds ++ passing (operand.scan kinds) fun _ => [])
        (operand.scan kinds >>= fun kind => kind.negate span)
        (operand.eval scope >>= fun v => v.negate.mapError (Error.of · span)) := by
      apply (operand.eval_foretold h).bind
      intro v
      exact v.negate_foretold span
    apply hbind.mono
    cases operand.scan kinds <;> simp [passing]
  | .binary op left right span => by
    simp only [Expr.divisions, Expr.scan, Expr.eval_binary]
    apply (left.eval_foretold h).bind
    intro l
    apply (right.eval_foretold h).bind
    intro r
    exact op.apply_foretold l r span

end CatScript
