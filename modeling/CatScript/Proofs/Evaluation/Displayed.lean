import CatScript.Proofs.Conversation.Step
import CatScript.Proofs.Evaluation.Scan
import CatScript.Proofs.Syntax.ReadBack

/-!
# Integers as they are displayed

The text that an integer is printed as is an expression again, and the integer is its value: digits
are a literal, and a minus before digits is an operator before one.  The digits are read before the
minus is looked at, so they have to be an integer without their sign, and those of the least integer
are not.  Its own text is refused, with a help that has the least integer within the range.
-/

set_option autoImplicit false

namespace CatScript

open Grammar
open Token (Scans Begins apart_nil apart_cons)

/-! ## The expression of a displayed integer -/

/-- The expression that a displayed integer is read as. -/
def Expr.Shape.ofInteger (n : Int64) : Expr.Shape :=
  if n.toInt < 0 then .negate (.integer (-n)) else .integer n

namespace Integer64

variable {n : Int64}

/-- Every integer but the least has an opposite. -/
theorem toInt_neg_of_ne (hn : n ≠ Int64.minValue) : (-n).toInt = -n.toInt := by
  have hmin : Int64.minValue.toInt = -2 ^ 63 := by decide
  have hmax : Int64.maxValue.toInt = 2 ^ 63 - 1 := by decide
  have hne : n.toInt ≠ Int64.minValue.toInt := fun h => hn (Int64.toInt_inj.1 h)
  have hlo := n.minValue_le_toInt
  have hhi := n.toInt_le
  rw [Int64.toInt_neg]
  exact Int.bmod_eq_of_le (by omega) (by omega)

/-- A negative integer is displayed as its opposite behind a minus. -/
theorem text_of_neg (hn : n ≠ Int64.minValue) (hneg : n.toInt < 0) :
    text n = '-' :: text (-n) := by
  have hopposite := toInt_neg_of_ne hn
  have hpositive : 0 ≤ (-n).toInt := by omega
  rw [text_eq hpositive, hopposite, Int.natAbs_neg]
  exact if_pos hneg

end Integer64

/-- An expression of this shape has the integer as its value, whatever the scope. -/
theorem Expr.eval_of_shape_ofInteger {n : Int64} (hn : n ≠ Int64.minValue) {e : Expr}
    (h : e.shape = .ofInteger n) (scope : Scope) : e.eval scope = .ok (.integer n) := by
  unfold Shape.ofInteger at h
  split at h
  next hneg =>
    cases e with
    | negate operand span =>
      cases operand <;>
        simp only [shape, Shape.negate.injEq, Shape.integer.injEq, reduceCtorEq] at h
      have hback : Integer64.ofInt? (-(-n).toInt) = some n := by
        rw [Integer64.toInt_neg_of_ne hn, Int.neg_neg, Integer64.ofInt?_toInt]
      simp only [eval, h, Value.negate, hback, Except.mapError]
    | _ => simp [shape] at h
  next =>
    cases e with
    | integer i span =>
      simp only [shape, Shape.integer.injEq] at h
      rw [eval, h]
    | _ => simp [shape] at h

/-- A displayed integer is found again as its expression. -/
theorem Integer64.scans_text {n : Int64} (hn : n ≠ Int64.minValue) {rest : List Char}
    {P : List Token → Prop} (h : BehindArgument rest P) :
    Scans (Integer64.text n ++ rest) (Derives @Expression.tree (.ofInteger n) P) := by
  unfold Expr.Shape.ofInteger
  split
  next hneg =>
    have hopposite := Integer64.toInt_neg_of_ne hn
    have hpositive : 0 ≤ (-n).toInt := by omega
    rw [Integer64.text_of_neg hn hneg]
    have hdigits := (h.scans.integer hpositive h.apart).mono fun ts hts =>
      Derives.integer hpositive hts
    have hminus := hdigits.mark (c := '-') rfl
    exact h.expression (hminus.mono fun ts hts => Derives.negate hts)
  next hneg =>
    have hpositive : 0 ≤ n.toInt := by omega
    have hdigits := h.scans.integer hpositive h.apart
    exact h.expression (hdigits.mono fun ts hts => Derives.integer hpositive hts)

/-! ## Printing it -/

/-- The script that prints an integer as it is displayed. -/
def Integer64.printed (n : Int64) : String := "purr(" ++ (Value.integer n).text ++ ")"

/-- A program of the shape of one print statement is one. -/
theorem Program.eq_print_of_shape {program : Program} {shape : Expr.Shape}
    (h : program.shape = [.print shape]) :
    ∃ argument span, program = ⟨[.print argument span]⟩ ∧ argument.shape = shape := by
  obtain ⟨_ | ⟨statement, _ | ⟨next, rest⟩⟩⟩ := program
  · simp [Program.shape, Stmt.shapes] at h
  · cases statement with
    | print argument span =>
      simp only [Program.shape, Stmt.shapes, Stmt.shape, List.cons.injEq, Stmt.Shape.print.injEq,
        and_true] at h
      exact ⟨argument, span, rfl, h⟩
    | _ => simp [Program.shape, Stmt.shapes, Stmt.shape] at h
  · simp [Program.shape, Stmt.shapes] at h

/-- The script that prints an integer is a word and the text of the integer in parentheses. -/
theorem Integer64.toList_printed (n : Int64) :
    (Integer64.printed n).toList = "purr".toList ++ (parenthesized (Integer64.text n) ++ []) := by
  simp [Integer64.printed, Value.text, parenthesized]

/-- The script that prints an integer is read as one print statement of that integer. -/
theorem Integer64.scans_printed {n : Int64} (hn : n ≠ Int64.minValue) :
    Scans (Integer64.printed n).toList
      (Derives @Statements.trees [.print (.ofInteger n)] (Begins .endOfInput "" (· = []))) := by
  have hscans := scans_parenthesized (Integer64.scans_text hn) Scans.nil
  rw [Integer64.toList_printed]
  have hpurr : Scans ("purr".toList ++ (parenthesized (Integer64.text n) ++ [])) _ :=
    hscans.keyword "purr" .purr (by decide) (apart_cons (by decide) _)
  exact hpurr.mono fun ts hts =>
    (Derives.print hts).2.statements fun rest hrest => ⟨rest, hrest, .none, rfl⟩

/-- The script is a program that prints an expression of this shape. -/
theorem Program.ofText_printed {n : Int64} (hn : n ≠ Int64.minValue) :
    ∃ argument span, Program.ofText (Integer64.printed n) = .ok ⟨[.print argument span]⟩ ∧
      argument.shape = .ofInteger n := by
  obtain ⟨ts, hts, rest, hrest, statements, htrees⟩ := Integer64.scans_printed hn .start
  let script : Script ts := ⟨rest, statements, hrest.ahead_eq⟩
  have hread : Program.ofTokens ts = .ok script.program :=
    (ofTokens_eq_ok_iff ts _).2 ⟨script, rfl⟩
  have hprogram : Program.ofText (Integer64.printed n) = .ok script.program := by
    unfold Program.ofText Token.ofText
    rw [hts]
    exact hread
  have hshape : script.program.shape = [.print (.ofInteger n)] := script.shape_program.trans htrees
  obtain ⟨argument, span, hstatements, hargument⟩ := Program.eq_print_of_shape hshape
  exact ⟨argument, span, hprogram.trans (congrArg _ hstatements), hargument⟩

/-- A script that prints a value does so, on a sink that never fails. -/
theorem Session.runText_print {s : Session} (hsink : s.sink.NeverFails) {source : String}
    {argument : Expr} {span : Span}
    (hprogram : Program.ofText source = .ok ⟨[.print argument span]⟩) {v : Value}
    (hv : argument.eval s.scope = .ok v) :
    ∃ after, s.runText source = (none, after) ∧
      after.sink.held = s.sink.held ++ (v.text ++ "\n").toUTF8 := by
  obtain ⟨mid, hread, hscope, hsame⟩ := s.exists_read source
  rw [← hscope] at hv
  rw [← hsame] at hsink ⊢
  rw [hprogram] at hread
  let held := mid.sink.held ++ (v.text ++ "\n").toUTF8
  refine ⟨{ mid.record .trace .evaluator s!"purr {v.text}" with
    sink := ⟨mid.sink.policy, mid.sink.writes + 1, mid.sink.flushes + 1, held⟩ }, ?_, rfl⟩
  have hmid : (mid.record .trace .evaluator s!"purr {v.text}").sink = mid.sink := rfl
  simp only [runText, hread, run, execAll, exec, hv, print, Sink.write, hmid, hsink.1,
    Option.map_none, flush, Sink.flush, hsink.2 _ _ _, held]

/-- An integer as it is displayed is an expression with the integer as its value, and the script
that prints the expression prints the integer. -/
def Integer64.PrintsItself (n : Int64) : Prop :=
  ∃ argument span, Program.ofText (Integer64.printed n) = .ok ⟨[.print argument span]⟩ ∧
    (∀ scope : Scope, argument.eval scope = .ok (.integer n)) ∧
    ∀ s : Session, s.sink.NeverFails → ∃ after, s.runText (Integer64.printed n) = (none, after) ∧
      after.sink.held = s.sink.held ++ ((Value.integer n).text ++ "\n").toUTF8

/-- The script for the least integer. -/
theorem Integer64.printed_minValue :
    Integer64.printed Int64.minValue = "purr(-9223372036854775808)" := by cbv

/-- The digits of the least integer are refused, with a help that has it within the range. -/
theorem Program.ofText_printed_minValue :
    Program.ofText "purr(-9223372036854775808)" = .error
      ⟨.unexpectedToken .integerInRange .integer, ⟨6, 25, 1, 7⟩, some
        "Integer literals must lie between -9223372036854775808 and 9223372036854775807."⟩ := by
  cbv

/-- The least integer does not print itself, for its script is no program. -/
theorem Integer64.not_printsItself_minValue : ¬ Integer64.PrintsItself Int64.minValue := by
  rintro ⟨argument, span, hprogram, -⟩
  rw [Integer64.printed_minValue] at hprogram
  exact absurd (hprogram.symm.trans Program.ofText_printed_minValue) (by simp)

/-- Every integer but the least is an expression as it is displayed, and prints itself. -/
theorem Session.runText_printed_iff (n : Int64) :
    Integer64.PrintsItself n ↔ n ≠ Int64.minValue := by
  constructor
  · rintro h rfl
    exact Integer64.not_printsItself_minValue h
  · intro hn
    obtain ⟨argument, span, hprogram, hshape⟩ := Program.ofText_printed hn
    have hvalue := Expr.eval_of_shape_ofInteger hn hshape
    exact ⟨argument, span, hprogram, hvalue,
      fun s hsink => Session.runText_print hsink hprogram (hvalue s.scope)⟩

/-- The greatest integer behind a minus prints itself. -/
theorem Session.runText_printed_greatest :
    Integer64.printed (-Int64.maxValue) = "purr(-9223372036854775807)" ∧
      -Int64.maxValue ≠ Int64.minValue ∧ Integer64.PrintsItself (-Int64.maxValue) :=
  have hn : -Int64.maxValue ≠ Int64.minValue := by decide
  ⟨by cbv, hn, (Session.runText_printed_iff _).2 hn⟩

/-- The least integer does not print itself: its own text is no program. -/
theorem Session.runText_printed_least :
    Integer64.printed Int64.minValue = "purr(-9223372036854775808)" ∧
      Program.ofText "purr(-9223372036854775808)" = .error
        ⟨.unexpectedToken .integerInRange .integer, ⟨6, 25, 1, 7⟩,
          some "Integer literals must lie between -9223372036854775808 and 9223372036854775807."⟩ ∧
      ¬ Integer64.PrintsItself Int64.minValue :=
  ⟨Integer64.printed_minValue, Program.ofText_printed_minValue,
    Integer64.not_printsItself_minValue⟩

end CatScript
