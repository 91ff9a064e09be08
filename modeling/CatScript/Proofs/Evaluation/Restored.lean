import CatScript.Proofs.Conversation.Step
import CatScript.Proofs.Evaluation.Layout
import CatScript.Proofs.Evaluation.Scan
import CatScript.Proofs.Number.Negated
import CatScript.Proofs.Syntax.Declared

/-!
# Floats are restored from their texts

The text that a finite float is printed as is an expression again, and the float is its value.  A
float without a sign is printed as digits with a point between them, which are one token; a float
with a sign is printed as its opposite behind a minus (`Decimal.floatText_of_neg`), and the minus is
an operator that takes the opposite once more.  Both zeros, subnormal and whole floats make no
exception (`Session.runText_declared_float`).
-/

set_option autoImplicit false

namespace CatScript

open Grammar
open Token (Scans Begins apart_nil)
open Binary64 (isNegative magnitude infinity)

variable {x : Float}

/-! ## Texts and tokens -/

/-- A float with a sign is printed as its opposite behind a minus. -/
theorem Decimal.floatText_of_neg (h : x.isFinite = true) (hneg : isNegative x = true) :
    Decimal.floatText x = '-' :: Decimal.floatText (-x) := by
  obtain ⟨hmagnitude, hsign⟩ := Binary64.neg_parts h
  have hsize := (Binary64.isFinite_iff x).1 h
  have hnumber : ¬ infinity < magnitude x := by omega
  have hne : magnitude x ≠ infinity := by omega
  simp only [Decimal.floatText, hmagnitude, hsign, hneg, if_neg hnumber, if_neg hne, Bool.not_true,
    if_true, Bool.false_eq_true, if_false]

/-- The tokens of a printed float: a minus if it has a sign, and a float token with the digits. -/
def Token.AreFloat (x : Float) : List Token → Prop :=
  if isNegative x then
    Begins .minus (String.ofList ['-'])
      (Begins .float (String.ofList (Decimal.floatText (-x))) (Begins .endOfInput "" (· = [])))
  else Begins .float (String.ofList (Decimal.floatText x)) (Begins .endOfInput "" (· = []))

/-- A printed float is found again as such tokens. -/
theorem Decimal.scans_floatText (h : x.isFinite = true) :
    Scans (Decimal.floatText x) (Token.AreFloat x) := by
  have hsize := (Binary64.isFinite_iff x).1 h
  unfold Token.AreFloat
  split
  next hneg =>
    obtain ⟨hmagnitude, hsign⟩ := Binary64.neg_parts h
    have hsize' : magnitude (-x) < infinity := by rwa [hmagnitude]
    have hdigits := Scans.nil.float hsize' (by rw [hsign, hneg]; rfl) apart_nil
    rw [List.append_nil] at hdigits
    rw [Decimal.floatText_of_neg h hneg]
    exact hdigits.mark rfl
  next hneg =>
    have hdigits := Scans.nil.float hsize (Bool.eq_false_iff.2 hneg) apart_nil
    rwa [List.append_nil] at hdigits

/-- The tokens of a float are a minus, if it is negative, the float and the end of the input. -/
theorem Token.AreFloat.kinds {ts : List Token} (h : Token.AreFloat x ts) :
    ts.map Token.kind = (if isNegative x then [.minus] else []) ++ [.float, .endOfInput] := by
  unfold Token.AreFloat at h
  split at h
  next hneg =>
    obtain ⟨minus, _, rfl, hminus, -, number, _, rfl, hnumber, -, stop, _, rfl, hstop, -, rfl⟩ := h
    simp [hneg, hminus, hnumber, hstop]
  next hneg =>
    obtain ⟨number, _, rfl, hnumber, -, stop, _, rfl, hstop, -, rfl⟩ := h
    simp [hneg, hnumber, hstop]

/-! ## Expressions -/

/-- The expression that a printed float is read as. -/
def Expr.ofFloat (x : Float) (span : Span) : Expr :=
  if isNegative x then .negate (.float (-x) span) span else .float x span

/-- Tokens of a printed float derive this expression, with nothing left over. -/
theorem Token.AreFloat.derives (h : x.isFinite = true) {ts : List Token}
    (hts : Token.AreFloat x ts) (span : Span) :
    Derives @Expression.tree (Expr.ofFloat x span).shape
      (fun rest => ahead rest = .endOfInput) ts := by
  have hsize := (Binary64.isFinite_iff x).1 h
  suffices hprimary : Derives @Primary.tree (Expr.ofFloat x span).shape
      (Begins .endOfInput "" (· = [])) ts by
    obtain ⟨rest, hrest, d, hd⟩ :=
      hprimary.expression fun ts hts => .of_ahead hts.ahead_eq ⟨rfl, rfl⟩
    exact ⟨rest, hrest.ahead_eq, d, hd⟩
  unfold Token.AreFloat at hts
  unfold Expr.ofFloat
  split at hts
  next hneg =>
    obtain ⟨hmagnitude, hsign⟩ := Binary64.neg_parts h
    obtain ⟨minus, number, rfl, hminus, hlexeme, hnumber⟩ := hts
    have hdigits := Derives.float (by rwa [hmagnitude]) (by rw [hsign, hneg]; rfl) hnumber
    rw [if_pos hneg]
    exact Derives.negate ⟨minus, number, rfl, hminus, hlexeme, hdigits⟩
  next hneg =>
    rw [if_neg hneg]
    exact Derives.float hsize (Bool.eq_false_iff.2 hneg) hts

/-- The value of this expression is the float, with all its bits. -/
theorem Expr.eval_ofFloat (h : x.isFinite = true) (scope : Scope) (span : Span) :
    (Expr.ofFloat x span).eval scope = .ok (.float x) := by
  unfold Expr.ofFloat
  split
  next =>
    have hback : (Value.float (-x)).negate = .ok (.float x) := by
      rw [Value.negate, Binary64.neg_neg h]
    simp only [Expr.eval, hback, Except.mapError]
  next => rfl

/-! ## Runs -/

namespace Session

/-- A program of one declaration gives the name the value of any expression of that shape, whatever
the sink does. -/
theorem run_declaration (s : Session) {program : Program} {name : String} {e : Expr} {v : Value}
    (h : program.shape = [.declare name e.shape]) (hv : e.eval s.scope = .ok v) :
    (s.run program).2.scope = s.scope.define name v ∧
      (s.sink.NeverFails → (s.run program).1 = none) := by
  obtain ⟨hafter, hnone⟩ := @run_of_shape s program ⟨[.declare name e e.span]⟩ h
  rw [hafter, hnone]
  have hdeclare : s.exec (.declare name e e.span) = s.perform e.span (.define name v) :=
    exec_eq_perform (Stmt.deed_eq_define_iff.2 ⟨_, _, rfl, hv⟩)
  refine ⟨?_, fun hsink => ?_⟩
  · rw [scope_run, execAll_cons, hdeclare]
    rfl
  · rw [run_eq_andThen, execAll_cons, hdeclare]
    exact Option.map_eq_none_iff.2 (hsink.2 _ _ _)

/-- A finite float is restored from its text.  Behind the head of a declaration the text is a float
token, with one minus in front of it if the float has a sign, and the script is a program; it
declares the variable as a float with exactly the bits of this one. -/
theorem runText_declared_float (x : Float) (h : x.isFinite = true) :
    (∃ tokens, Token.ofText (declaration "x" (Value.float x).text) = .ok tokens ∧
      tokens.map Token.kind = [.meow, .identifier, .equal] ++
        (if isNegative x then [.minus] else []) ++ [.float, .endOfInput]) ∧
    (∃ program, Program.ofText (declaration "x" (Value.float x).text) = .ok program) ∧
    ∀ s : Session, ∃ y : Float, y.toBits = x.toBits ∧
      (s.runText (declaration "x" (Value.float x).text)).2.scope =
        s.scope.define "x" (.float y) ∧
      (s.sink.NeverFails → (s.runText (declaration "x" (Value.float x).text)).1 = none) := by
  have hx : IsName "x" := by decide
  let span := Span.between .start .start
  have htext : (Value.float x).text.toList = Decimal.floatText x := String.toList_ofList
  obtain ⟨ts, hts, hfloat⟩ :=
    Decimal.scans_floatText h (Position.start.after (declarationHead "x"))
  rw [← htext] at hts
  obtain ⟨program, hprogram, hshape⟩ :=
    (Program.ofText_declaration_iff hx hts (Expr.ofFloat x span).shape).2 (hfloat.derives h span)
  refine ⟨?_, ⟨program, hprogram⟩, fun s => ⟨x, rfl, ?_⟩⟩
  · obtain ⟨meow, word, equal, hhead, htokens⟩ := Token.ofText_declaration hx (Value.float x).text
    obtain ⟨hmeow, hword, hequal⟩ := hhead.kinds
    rw [hts] at htokens
    refine ⟨_, htokens, ?_⟩
    simp only [List.map_cons, hmeow, hword, hequal, hfloat.kinds, List.cons_append,
      List.nil_append]
  · obtain ⟨mid, hread, hscope, hsink⟩ := s.exists_read (declaration "x" (Value.float x).text)
    have hrun := mid.run_declaration hshape (Expr.eval_ofFloat h mid.scope span)
    rw [hscope, hsink] at hrun
    unfold runText
    rw [hread, hprogram]
    exact hrun

/-- A zero with a sign is restored with its sign, and so is the least subnormal float. -/
theorem runText_declared_float_signed :
    let zero := Float.ofBits 0x8000000000000000
    let least := Float.ofBits 0x8000000000000001
    let s := start Sink.working
    zero.isFinite = true ∧ least.isFinite = true ∧
      (s.runText "meow x = -0.0").2.scope = Scope.empty.define "x" (.float zero) ∧
      (s.runText (declaration "x" (Value.float least).text)).2.scope =
        Scope.empty.define "x" (.float least) := by
  intro zero least s
  have hzero : zero.isFinite = true := by decide +kernel
  have hleast : least.isFinite = true := by decide +kernel
  have hsource : "meow x = -0.0" = declaration "x" (Value.float zero).text := by decide +kernel
  obtain ⟨y, hy, hscope, -⟩ := (runText_declared_float zero hzero).2.2 s
  obtain ⟨z, hz, hscope', -⟩ := (runText_declared_float least hleast).2.2 s
  obtain rfl : y = zero := by rw [← Float.ofBits_toBits y, hy, Float.ofBits_toBits]
  obtain rfl : z = least := by rw [← Float.ofBits_toBits z, hz, Float.ofBits_toBits]
  exact ⟨hzero, hleast, hsource ▸ hscope, hscope'⟩

end Session

end CatScript
