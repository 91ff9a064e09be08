import CatScript.Proofs.Conversation.Step
import CatScript.Proofs.Evaluation.Layout
import CatScript.Proofs.Evaluation.Scan
import CatScript.Proofs.Number.Positional
import CatScript.Proofs.Syntax.Declared
import CatScript.Proofs.Token.Excerpt

/-!
# Digits mean their number

A run of digits in a script is one token, however long it is.  If the number that the digits write
is at most the greatest integer, the token stands for that integer, which is printed without the
zeros in front; otherwise it is rejected, and the script is no program.  Both are said of the script
that declares a variable with the digits and prints it (`Text.declared`), in every session: the
tokens in front of the digits and behind them are known, and the digits lie under the span of theirs
(`Token.ofText_declared`).
-/

set_option autoImplicit false

namespace CatScript

open Grammar
open Token (Scans Begins apart_nil apart_cons)

/-- The script that declares a variable with the number that digits write, and prints it. -/
def Text.declared (digits : List Char) : String :=
  "meow x = " ++ String.ofList digits ++ "\npurr(x)"

variable {digits : List Char}

/-- Digits behind zeros are digits. -/
theorem IsDigits.zeros (h : IsDigits digits) (zeros : Nat) :
    IsDigits (List.replicate zeros '0' ++ digits) where
  nonempty := List.append_ne_nil_of_right_ne_nil _ h.nonempty
  digits := by
    intro c hc
    obtain hc | hc := List.mem_append.1 hc
    · rw [List.eq_of_mem_replicate hc]
      rfl
    · exact h.digits c hc

/-- An integer that is no less than zero is displayed as its digits. -/
theorem Value.text_integer_natCast {i : Int64} {n : Nat} (h : i.toInt = n) :
    (Value.integer i).text = toString n := by
  apply String.toList_inj.1
  rw [show (toString n).toList = Nat.toDigits 10 n from String.toList_ofList, Value.text,
    String.toList_ofList, Integer64.text_eq (by omega), h, Int.natAbs_natCast]

/-- A number is an integer up to the greatest one. -/
theorem Integer64.exists_ofInt?_natCast_iff (n : Nat) :
    (∃ i, Integer64.ofInt? n = some i) ↔ n ≤ 2 ^ 63 - 1 := by
  have hmin : Int64.minValue.toInt = -2 ^ 63 := by decide
  have hmax : Int64.maxValue.toInt = 2 ^ 63 - 1 := by decide
  rw [← Option.isSome_iff_exists, ← Option.ne_none_iff_isSome, ne_eq,
    Integer64.ofInt?_eq_none_iff, hmin, hmax]
  omega

/-! ## Tokens -/

/-- The script declares the variable, and what stands behind its head are the digits and the print
statement. -/
theorem Text.declared_eq (digits : List Char) :
    Text.declared digits = declaration "x" (String.ofList digits ++ "\npurr(x)") := by
  apply String.toList_inj.1
  simp [Text.declared, declaration]

/-- The digits are what stands under the span of their token. -/
theorem Text.excerpt_declared (digits : List Char) :
    Span.excerpt (Text.declared digits).toList ⟨9, 9 + digits.length, 1, 10⟩ = digits := by
  have htext : (Text.declared digits).toList =
      "meow x = ".toList ++ (digits ++ "\npurr(x)".toList) := by
    simp [Text.declared]
  rw [htext]
  exact Span.excerpt_append rfl rfl

/-- Tokens of one statement that prints the variable, with nothing left over. -/
def Token.IsPurr (ts : List Token) : Prop :=
  NoOperator ts ∧
    Derives @Statements.trees [.print (.identifier "x")] (Begins .endOfInput "" (· = [])) ts

/-- The second line is read as the tokens of a print statement of the variable. -/
theorem Text.scans_purr : Scans "\npurr(x)".toList Token.IsPurr := by
  have hend : BehindStatement [] (Begins .endOfInput "" (· = [])) :=
    ⟨.nil, apart_nil, fun ts hts => .of_ahead hts.ahead_eq ⟨rfl, rfl⟩⟩
  let span := Span.between .start .start
  have hprint := (Stmt.print (.identifier "x" span) span).scans_written
    (show IsName "x" by decide) hend
  exact hprint.newline.mono fun ts hts =>
    ⟨hts.1, hts.2.statements fun rest hrest => ⟨rest, hrest, .none, rfl⟩⟩

/-- A run of digits is one token, wherever it stands. -/
theorem Token.scanFrom_digits (h : IsDigits digits) {rest : List Char} (hrest : Apart rest)
    (p : Position) : scanFrom p (digits ++ rest) = (scanFrom (p.after digits) rest).map
      (⟨.integer, String.ofList digits, Span.between p (p.after digits)⟩ :: ·) := by
  have hcut := scanNumber_digits h.digits (fun c tail h => (hrest c tail h).2.1)
    fun d tail h => absurd rfl (hrest '.' _ h).2.2
  obtain ⟨first, tail, rfl⟩ := List.exists_cons_of_ne_nil h.nonempty
  have hscan := scan_digit (h.digits first (List.mem_cons_self ..)) (tail ++ rest)
  rw [← List.cons_append, hcut] at hscan
  exact scanFrom_token hscan p

/-- The tokens of the script: the head of the declaration, the digits under their span, and a
statement that prints the variable. -/
theorem Token.ofText_declared (h : IsDigits digits) :
    ∃ meow word equal others, DeclarationHead "x" meow word equal ∧
      Token.IsPurr others ∧ Token.ofText (Text.declared digits) = .ok (meow :: word :: equal ::
        ⟨.integer, String.ofList digits, ⟨9, 9 + digits.length, 1, 10⟩⟩ :: others) := by
  obtain ⟨meow, word, equal, hhead, htokens⟩ :=
    Token.ofText_declaration (show IsName "x" by decide) (String.ofList digits ++ "\npurr(x)")
  obtain ⟨others, hothers, hpurr⟩ :=
    Text.scans_purr ((Position.start.after (declarationHead "x")).after digits)
  refine ⟨meow, word, equal, others, hhead, hpurr, ?_⟩
  have happart : Apart "\npurr(x)".toList := apart_cons (by decide) _
  have hspan : Span.between ⟨9, 1, 10⟩ (Position.after ⟨9, 1, 10⟩ digits) =
      ⟨9, 9 + digits.length, 1, 10⟩ := by
    simp [Span.between, Position.after_offset]
  rw [Text.declared_eq, htokens, String.toList_append, String.toList_ofList,
    Token.scanFrom_digits h happart, hothers]
  simp only [Except.map]
  rw [show Position.start.after (declarationHead "x") = ⟨9, 1, 10⟩ by rfl, hspan]

/-! ## Programs -/

/-- If the digits write an integer, the script is a program that declares it and prints it. -/
theorem Program.ofText_declared (h : IsDigits digits) {n : Int64}
    (hn : Integer64.ofText? digits = some n) :
    ∃ program, Program.ofText (Text.declared digits) = .ok program ∧
      program.shape = [.declare "x" (.integer n), .print (.identifier "x")] := by
  obtain ⟨meow, word, equal, others, hhead, ⟨hnext, rest, hrest, statements, htrees⟩, htokens⟩ :=
    Token.ofText_declared h
  let token : Token := ⟨.integer, String.ofList digits, ⟨9, 9 + digits.length, 1, 10⟩⟩
  let number : Primary (token :: others) others :=
    .integer token n rfl (by rw [show token.lexeme.toList = digits from String.toList_ofList, hn])
  let value : Expression (token :: others) others :=
    .mk (.mk number (.done hnext.2)) (.done hnext)
  let script : Script (meow :: word :: equal :: token :: others) :=
    ⟨rest, .more (.declare meow word equal hhead.kinds value) statements, hrest.ahead_eq⟩
  refine ⟨script.program, ?_, ?_⟩
  · unfold Program.ofText
    rw [htokens]
    exact (ofTokens_eq_ok_iff _ _).2 ⟨script, rfl⟩
  · rw [script.shape_program]
    show Stmt.Shape.declare word.lexeme (.integer n) :: statements.trees = _
    rw [hhead.names, htrees]

/-- If the digits write no integer, they are rejected, and the script is no program. -/
theorem Program.ofText_declared_error (h : IsDigits digits)
    (hn : Integer64.ofText? digits = none) :
    Program.ofText (Text.declared digits) = .error ⟨.unexpectedToken .integerInRange .integer,
      ⟨9, 9 + digits.length, 1, 10⟩, some Expr.rangeHelp⟩ := by
  obtain ⟨meow, word, equal, others, hhead, -, htokens⟩ := Token.ofText_declared h
  obtain ⟨hmeow, hword, hequal⟩ := hhead.kinds
  let token : Token := ⟨.integer, String.ofList digits, ⟨9, 9 + digits.length, 1, 10⟩⟩
  have hscript : Token.script (meow :: word :: equal :: token :: others) =
      meow :: word :: equal :: token :: Token.script others := by
    simp [Token.script, hmeow, hword, hequal, token]
  have hnumber := Expr.of_operand_integer_none (t := token) rfl
    (by rw [show token.lexeme.toList = digits from String.toList_ofList, hn])
    (Token.script others)
  have hfirst := Stmt.of_declare hmeow (word :: equal :: token :: Token.script others)
  rw [Reader.andThen, Token.of_expect hword] at hfirst
  simp only [Except.bind] at hfirst
  rw [Reader.andThen, Token.of_expect hequal] at hfirst
  simp only [Except.bind] at hfirst
  rw [Expr.of_climb, Reader.map, Reader.andThen, Reader.andThen, hnumber] at hfirst
  simp only [Except.bind] at hfirst
  unfold Program.ofText
  rw [htokens]
  show Program.ofTokens _ = _
  unfold Program.ofTokens
  rw [hscript, Stmt.all_cons, hfirst]
  rfl

/-- The script is a program if the number is within 64 bits, and only then. -/
theorem Program.ofText_declared_iff (h : IsDigits digits) :
    (∃ program, Program.ofText (Text.declared digits) = .ok program) ↔
      Text.positional digits ≤ 2 ^ 63 - 1 := by
  rw [← Integer64.exists_ofInt?_natCast_iff, ← Integer64.ofText?_digits h]
  cases hn : Integer64.ofText? digits with
  | none => simp [Program.ofText_declared_error h hn]
  | some i =>
    obtain ⟨program, hprogram, -⟩ := Program.ofText_declared h hn
    exact iff_of_true ⟨program, hprogram⟩ ⟨i, rfl⟩

/-! ## Runs -/

namespace Session

/-- A program that declares an integer and prints it binds the name to it, whatever becomes of the
output, and prints its text. -/
theorem run_declared (s : Session) (n : Int64) {program : Program}
    (h : program.shape = [.declare "x" (.integer n), .print (.identifier "x")]) :
    (s.run program).2.scope = s.scope.define "x" (.integer n) ∧
      (s.sink.NeverFails → (s.run program).1 = none ∧
        (s.run program).2.sink.held =
          s.sink.held ++ ((Value.integer n).text ++ "\n").toUTF8) := by
  let span := Span.between .start .start
  let plain : Program :=
    ⟨[.declare "x" (.integer n span) span, .print (.identifier "x" span) span]⟩
  obtain ⟨hafter, hnone⟩ := @run_of_shape s program plain h
  rw [hafter, hnone]
  let declared := (s.perform span (.define "x" (.integer n))).2
  have hbound : (Expr.identifier "x" span).eval declared.scope = .ok (.integer n) := by
    show declared.scope.lookup "x" span = _
    unfold Scope.lookup
    rw [show declared.scope.bindings = s.scope.bindings.bind "x" (.integer n) from rfl,
      Bindings.get?_bind, if_pos rfl]
  have hdeclare : s.exec (.declare "x" (.integer n span) span) = (none, declared) :=
    exec_eq_perform (Stmt.deed_eq_define_iff.2 ⟨_, _, rfl, rfl⟩)
  have hprint : declared.exec (.print (.identifier "x" span) span) =
      declared.perform span (.print (Value.integer n).text) :=
    exec_eq_perform (Stmt.deed_eq_print_iff.2 ⟨_, _, _, rfl, hbound, rfl⟩)
  have hall : s.execAll plain.statements =
      declared.perform span (.print (Value.integer n).text) := by
    rw [execAll_cons, hdeclare]
    show declared.execAll [.print (.identifier "x" span) span] = _
    rw [execAll_cons, hprint]
    rcases declared.perform span (.print (Value.integer n).text) with ⟨_ | e, mid⟩ <;> rfl
  refine ⟨?_, fun hsink => ?_⟩
  · rw [scope_run, hall, scope_perform]
    rfl
  · have hsame (message : String) :
        (declared.record .trace .evaluator message).sink = s.sink := rfl
    rw [run_eq_andThen, hall]
    simp only [perform, print, Sink.write, hsame, hsink.1, Option.map_none, andThen, flush,
      Sink.flush, hsink.2 _ _ _, and_self]

/-- The script binds the variable to the integer that the digits write, and prints the number. -/
theorem runText_declared_of_text (s : Session) (h : IsDigits digits) {i : Int64} {n : Nat}
    (hi : Integer64.ofText? digits = some i) (hn : i.toInt = n) :
    (s.runText (Text.declared digits)).2.scope = s.scope.define "x" (.integer i) ∧
      (s.sink.NeverFails → (s.runText (Text.declared digits)).1 = none ∧
        (s.runText (Text.declared digits)).2.sink.held =
          s.sink.held ++ (toString n ++ "\n").toUTF8) := by
  obtain ⟨program, hprogram, hshape⟩ := Program.ofText_declared h hi
  obtain ⟨mid, hread, hscope, hsink⟩ := s.exists_read (Text.declared digits)
  have hrun := mid.run_declared i hshape
  rw [hscope, hsink, Value.text_integer_natCast hn] at hrun
  unfold runText
  rw [hread, hprogram]
  exact hrun

/-- Digits mean their number.  If a run of digits writes a number within 64 bits, the script that
declares a variable with it and prints it binds the variable to that integer, whatever becomes of
the output, and prints the number with no zero in front on a line of its own; otherwise it fails
before anything runs, with an error about an integer out of range whose span is that of the digits.
Zeros in front of the digits do not change the number, and no script is rejected for them. -/
theorem runText_declared (digits : List Char) (h : IsDigits digits) :
    let n := Text.positional digits
    let source := Text.declared digits
    let error : Error := ⟨.unexpectedToken .integerInRange .integer,
      ⟨9, 9 + digits.length, 1, 10⟩, some Expr.rangeHelp⟩
    (n ≤ 2 ^ 63 - 1 →
      Text.IsNumeral n (toString n).toList ∧
      ∃ i : Int64, i.toInt = n ∧ ∀ s : Session,
        (s.runText source).2.scope = s.scope.define "x" (.integer i) ∧
          (s.sink.NeverFails → (s.runText source).1 = none ∧
            (s.runText source).2.sink.held = s.sink.held ++ (toString n ++ "\n").toUTF8)) ∧
    (2 ^ 63 - 1 < n →
      Program.ofText source = .error error ∧ error.span.excerpt source.toList = digits ∧
      ∀ s : Session, (s.runText source).1 = some error ∧
        (s.runText source).2.scope = s.scope ∧ (s.runText source).2.sink = s.sink) ∧
    ∀ zeros : Nat, Text.positional (List.replicate zeros '0' ++ digits) = n ∧
      ((∃ program, Program.ofText
          (Text.declared (List.replicate zeros '0' ++ digits)) = .ok program) ↔
        ∃ program, Program.ofText source = .ok program) := by
  intro n source error
  have hreads : Integer64.ofText? digits = Integer64.ofInt? n := Integer64.ofText?_digits h
  have hinteger := Integer64.exists_ofInt?_natCast_iff n
  refine ⟨fun hn => ?_, fun hn => ?_, fun zeros => ?_⟩
  · obtain ⟨i, hi⟩ := hinteger.2 hn
    have htoInt : i.toInt = n := Integer64.ofInt?_eq_some_iff.1 hi
    have hnumeral := Text.isNumeral_toDigits n
    rw [← show (toString n).toList = Nat.toDigits 10 n from String.toList_ofList] at hnumeral
    exact ⟨hnumeral, i, htoInt, fun s => s.runText_declared_of_text h (hreads.trans hi) htoInt⟩
  · have hnone : Integer64.ofText? digits = none := by
      rw [hreads, Option.eq_none_iff_forall_ne_some]
      exact fun i hi => absurd (hinteger.1 ⟨i, hi⟩) (by omega)
    have herror : Program.ofText source = .error error := Program.ofText_declared_error h hnone
    refine ⟨herror, Text.excerpt_declared digits, fun s => ?_⟩
    obtain ⟨hfails, hscope, hsink, -⟩ := s.unread_keeps herror
    exact ⟨hfails, hscope, hsink⟩
  · have hzeros := Text.positional_zeros zeros digits
    refine ⟨hzeros, ?_⟩
    rw [Program.ofText_declared_iff (h.zeros zeros), Program.ofText_declared_iff h, hzeros]

/-- The greatest integer behind zeros is printed without them, and the next number is rejected. -/
theorem runText_declared_greatest :
    let s := start Sink.working
    IsDigits "0009223372036854775807".toList ∧ IsDigits "9223372036854775808".toList ∧
      (s.runText "meow x = 0009223372036854775807\npurr(x)").2.scope =
        Scope.empty.define "x" (.integer 9223372036854775807) ∧
      (s.runText "meow x = 0009223372036854775807\npurr(x)").2.sink.held =
        "9223372036854775807\n".toUTF8 ∧
      (s.runText "meow x = 9223372036854775808\npurr(x)").1 =
        some ⟨.unexpectedToken .integerInRange .integer, ⟨9, 28, 1, 10⟩, some Expr.rangeHelp⟩ := by
  intro s
  have hfits : IsDigits "0009223372036854775807".toList :=
    ⟨by decide, List.all_eq_true.1 (by decide)⟩
  have hover : IsDigits "9223372036854775808".toList :=
    ⟨by decide, List.all_eq_true.1 (by decide)⟩
  obtain ⟨-, i, hi, hruns⟩ := (runText_declared _ hfits).1 (by decide)
  obtain ⟨-, -, hfails⟩ := (runText_declared _ hover).2.1 (by decide)
  obtain ⟨hscope, hprints⟩ := hruns s
  obtain rfl : i = 9223372036854775807 := Int64.toInt_inj.1 (hi.trans (by decide))
  exact ⟨hfits, hover, hscope, (hprints Sink.working_neverFails).2, (hfails s).1⟩

end Session

end CatScript
