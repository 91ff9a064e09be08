import CatScript.Proofs.Syntax.Derives
import CatScript.Proofs.Syntax.Grammar.Complete
import CatScript.Proofs.Token.Lexicon

/-!
# Written programs are read back

A written program is read as the same program up to spans.  What is written is followed from its
end: in front of a text whose tokens are known, an expression or a statement gives tokens with a
derivation that stands for it.  The induction is on the tree, over all texts that may follow; an
expression that stands bare is followed by a comma or a closing parenthesis, and a statement by
nothing that could go on with it, since no written statement begins with an operator.  The top
theorem is `Program.ofText_written`.
-/

set_option autoImplicit false

namespace CatScript

open Grammar
open Token (Scans Begins Apart apart_nil apart_cons)

variable {rest : List Char} {P : List Token → Prop}

/-! ## Blanks and marks -/

namespace Token.Scans

/-- A space in front does not matter. -/
theorem space (h : Scans rest P) : Scans (' ' :: rest) P := h.blank rfl

/-- A line end in front does not matter. -/
theorem newline (h : Scans rest P) : Scans ('\n' :: rest) P := h.blank rfl

end Token.Scans

/-- What may stand behind an argument: tokens that end it, in a text that no word goes on with. -/
structure BehindArgument (rest : List Char) (P : List Token → Prop) : Prop where
  scans : Scans rest P
  apart : Apart rest
  ends : ∀ ts, P ts → EndsArgument ts

/-- What may stand behind a statement: tokens without an operator in front, in a text that no word
goes on with. -/
structure BehindStatement (rest : List Char) (P : List Token → Prop) : Prop where
  scans : Scans rest P
  apart : Apart rest
  next : ∀ ts, P ts → NoOperator ts

/-- A closing parenthesis may stand behind an argument. -/
theorem BehindArgument.rightParen (h : Scans rest P) :
    BehindArgument (')' :: rest) (Begins .rightParen (String.ofList [')']) P) where
  scans := h.mark rfl
  apart := apart_cons (by decide) rest
  ends := fun _ hts => .inr hts.ahead_eq

/-- A comma and a space may stand behind an argument. -/
theorem BehindArgument.comma (h : Scans rest P) :
    BehindArgument (',' :: ' ' :: rest) (Begins .comma (String.ofList [',']) P) where
  scans := h.space.mark rfl
  apart := apart_cons (by decide) (' ' :: rest)
  ends := fun _ hts => .inl hts.ahead_eq

/-- In front of what ends an argument, a primary is an expression. -/
theorem BehindArgument.expression (h : BehindArgument rest P) {text : List Char}
    {shape : Expr.Shape} (hscans : Scans text (Derives @Primary.tree shape P)) :
    Scans text (Derives @Expression.tree shape P) :=
  hscans.mono fun _ hts => hts.expression fun ts hP => (h.ends ts hP).noOperator

/-- A line end may stand behind a statement, if no operator follows. -/
theorem BehindStatement.newline (h : Scans rest P) (next : ∀ ts, P ts → NoOperator ts) :
    BehindStatement ('\n' :: rest) P where
  scans := h.newline
  apart := apart_cons (by decide) rest
  next := next

/-! ## Expressions -/

section Parenthesized

variable {text : List Char} {shape : Expr.Shape}
  (inner : ∀ {rest : List Char} {P : List Token → Prop}, BehindArgument rest P →
    Scans (text ++ rest) (Derives @Expression.tree shape P))

include inner

/-- An expression in parentheses needs nothing of what stands behind it. -/
theorem scans_parenthesized (h : Scans rest P) :
    Scans (parenthesized text ++ rest)
      (Begins .leftParen (String.ofList ['('])
        (Derives @Expression.tree shape (Begins .rightParen (String.ofList [')']) P))) := by
  have hinner := inner (.rightParen h)
  simp only [parenthesized, List.cons_append, List.append_assoc, List.nil_append]
  exact hinner.mark rfl

/-- An operand is read from its text in parentheses. -/
theorem scans_operand (h : Scans rest P) :
    Scans (parenthesized text ++ rest) (Derives @Primary.tree shape P) :=
  (scans_parenthesized inner h).mono fun _ hts => .group hts

end Parenthesized

/-- The mark of an operator is scanned as a token that stands for the operator. -/
theorem exists_mark_symbol (op : BinaryOp) :
    ∃ kind, TokenKind.ofMark? op.symbol = some kind ∧
      (sumOp? kind = some op ∨ productOp? kind = some op) := by
  cases op with
  | add => exact ⟨.plus, rfl, .inl rfl⟩
  | subtract => exact ⟨.minus, rfl, .inl rfl⟩
  | multiply => exact ⟨.star, rfl, .inr rfl⟩
  | divide => exact ⟨.slash, rfl, .inr rfl⟩

mutual

/-- An expression is read back from its text, in front of what may stand behind an argument. -/
theorem Expr.scans_written : (e : Expr) → e.Writable →
    ∀ {rest : List Char} {P : List Token → Prop}, BehindArgument rest P →
      Scans (e.written ++ rest) (Derives @Expression.tree e.shape P)
  | .string value _, _ => by
    intro h
    have hscans := h.scans.quoted value
    simp only [Expr.written, List.cons_append, List.append_assoc, List.nil_append]
    exact h.expression (hscans.mono fun ts hts => Derives.string hts)
  | .integer value _, hvalue => by
    intro h
    have hscans := h.scans.integer hvalue h.apart
    exact h.expression (hscans.mono fun ts hts => Derives.integer hvalue hts)
  | .float value _, hvalue => by
    intro h
    have hscans := h.scans.float hvalue.1 hvalue.2 h.apart
    exact h.expression (hscans.mono fun ts hts => Derives.float hvalue.1 hvalue.2 hts)
  | .identifier name _, hname => by
    intro h
    have hscans := h.scans.name hname h.apart
    exact h.expression (hscans.mono fun ts hts => Derives.name hts h.ends)
  | .call function arguments _, hcall => by
    intro h
    have hscans := Expr.scans_commaSeparated arguments hcall.2 (.rightParen h.scans)
    have hopening := hscans.mark (c := '(') rfl
    have hcallee := hopening.name hcall.1 (apart_cons (by decide) _)
    simp only [Expr.written, parenthesized, List.cons_append, List.append_assoc, List.nil_append]
    exact h.expression (hcallee.mono fun ts hts => Derives.call hts)
  | .negate operand _, hoperand => by
    intro h
    have hscans := scans_operand (Expr.scans_written operand hoperand) h.scans
    have hminus := hscans.mark (c := '-') rfl
    exact h.expression (hminus.mono fun ts hts => Derives.negate hts)
  | .binary op left right _, hoperands => by
    intro h
    obtain ⟨kind, hmark, hkind⟩ := exists_mark_symbol op
    have hright := scans_operand (Expr.scans_written right hoperands.2) h.scans
    have hsymbol := (hright.space.mark hmark).space
    have hleft := scans_operand (Expr.scans_written left hoperands.1) hsymbol
    simp only [Expr.written, List.cons_append, List.append_assoc]
    exact hleft.mono fun ts hts => Derives.binary hkind hts fun ts hP => (h.ends ts hP).noOperator

/-- Arguments are read back from their texts with commas between them. -/
theorem Expr.scans_commaSeparated : (es : List Expr) → Expr.AllWritable es →
    ∀ {rest : List Char} {P : List Token → Prop}, BehindArgument rest P →
      Scans (commaSeparated (Expr.writtenAll es) ++ rest)
        (Derives @Arguments.trees (Expr.shapes es) P)
  | [], _ => by
    intro h
    exact h.scans.mono fun ts hts => ⟨ts, hts, .none, rfl⟩
  | [e], he => by
    intro h
    have hscans := Expr.scans_written e he.1 h
    simp only [Expr.writtenAll, commaSeparated_singleton]
    exact hscans.mono fun ts hts => Derives.lastArgument hts
  | e :: e' :: es, he => by
    intro h
    have hothers := Expr.scans_commaSeparated (e' :: es) he.2 h
    have hscans := Expr.scans_written e he.1 (.comma hothers)
    simp only [Expr.writtenAll, commaSeparated_cons_cons, List.append_assoc, List.cons_append]
      at hscans ⊢
    exact hscans.mono fun ts hts => Derives.argument hts

end

/-! ## Parameters -/

/-- Parameters are read back from their names with commas between them. -/
theorem scans_parameters (ps : List Parameter) (hps : ∀ p ∈ ps, IsName p.name)
    (h : BehindArgument rest P) :
    Scans (commaSeparated (ps.map fun p => p.name.toList) ++ rest)
      (Derives @Parameters.names (ps.map Parameter.name) P) := by
  induction ps with
  | nil => exact h.scans.mono fun ts hts => ⟨ts, hts, .none, rfl⟩
  | cons p ps ih =>
    have hname := hps p (List.mem_cons_self ..)
    have hothers := ih fun q hq => hps q (List.mem_cons_of_mem p hq)
    cases ps with
    | nil =>
      have hscans := h.scans.name hname h.apart
      simp only [List.map_cons, List.map_nil, commaSeparated_singleton]
      exact hscans.mono fun ts hts => Derives.lastParameter hts
    | cons q ps =>
      have hcomma := BehindArgument.comma hothers
      have hscans := hcomma.scans.name hname hcomma.apart
      simp only [List.map_cons, commaSeparated_cons_cons, List.append_assoc, List.cons_append]
        at hscans ⊢
      exact hscans.mono fun ts hts => Derives.parameter hts

/-! ## Statements -/

/-- A keyword in front of something apart from it is read as its kind. -/
theorem Token.Scans.keyword (word : String) (kind : TokenKind)
    (hword : word ≠ "" ∧ word.toList.all isWordChar = true ∧ TokenKind.ofWord word = kind)
    (hrest : Apart rest) (h : Scans rest P) : Scans (word.toList ++ rest) (Begins kind word P) := by
  obtain ⟨hne, hletters, rfl⟩ := hword
  exact Scans.word hne (List.all_eq_true.1 hletters) hrest h

mutual

/-- A statement is read back from its text, and begins with no operator. -/
theorem Stmt.scans_written : (s : Stmt) → s.Writable →
    ∀ {rest : List Char} {P : List Token → Prop}, BehindStatement rest P →
      Scans (s.written ++ rest) fun ts => NoOperator ts ∧ Derives @Statement.tree s.shape P ts
  | .print argument _, hargument => by
    intro h
    have hscans := scans_parenthesized (argument.scans_written hargument) h.scans
    have hpurr := hscans.keyword "purr" .purr (by decide) (apart_cons (by decide) _)
    simp only [Stmt.written, List.append_assoc]
    exact hpurr.mono fun ts hts => Derives.print hts
  | .declare name value _, hdeclare => by
    intro h
    have hscans := scans_operand (value.scans_written hdeclare.2) h.scans
    have hvalue := hscans.mono fun ts hts => Derives.expression hts h.next
    have hequal := hvalue.space.mark (c := '=') rfl
    have hname := hequal.space.name hdeclare.1 (apart_cons (by decide) _)
    have hmeow := hname.space.keyword "meow" .meow (by decide) (apart_cons (by decide) _)
    simp only [Stmt.written, List.append_assoc, List.cons_append]
    exact hmeow.mono fun ts hts => Derives.declare hts
  | .access name _, hname => by
    intro h
    have hscans := h.scans.name hname h.apart
    have hwoof := hscans.space.keyword "woof" .woof (by decide) (apart_cons (by decide) _)
    simp only [Stmt.written, List.append_assoc, List.cons_append]
    exact hwoof.mono fun ts hts => Derives.ask hts
  | .trick name parameters body _, htrick => by
    intro h
    have hbrace := h.scans.mark (c := '}') rfl
    have hbody := Stmt.scans_lineSeparated body htrick.2.2
      (.newline hbrace fun ts hts => .of_ahead hts.ahead_eq ⟨rfl, rfl⟩)
    have hleft := (hbody.mono fun _ hts => hts.2).newline.mark (c := '{') rfl
    have hparameters := scans_parameters parameters htrick.2.1 (.rightParen hleft.space)
    have hopening := hparameters.mark (c := '(') rfl
    have hname := hopening.name htrick.1 (apart_cons (by decide) _)
    have hscans := hname.space.keyword "trick" .trick (by decide) (apart_cons (by decide) _)
    simp only [Stmt.written, parenthesized, List.append_assoc, List.cons_append, List.nil_append]
    exact hscans.mono fun ts hts => Derives.trick hts
  | .expression value _, hvalue => by
    intro h
    have hscans := scans_parenthesized (value.scans_written hvalue) h.scans
    exact hscans.mono fun ts hts => Derives.statement hts h.next

/-- Statements are read back from their texts on lines of their own. -/
theorem Stmt.scans_lineSeparated : (ss : List Stmt) → Stmt.AllWritable ss →
    ∀ {rest : List Char} {P : List Token → Prop}, BehindStatement rest P →
      Scans (lineSeparated (Stmt.writtenAll ss) ++ rest) fun ts =>
        NoOperator ts ∧ Derives @Statements.trees (Stmt.shapes ss) P ts
  | [], _ => by
    intro h
    exact h.scans.mono fun ts hts => ⟨h.next ts hts, ts, hts, .none, rfl⟩
  | [s], hs => by
    intro h
    have hscans := s.scans_written hs.1 h
    simp only [Stmt.writtenAll, lineSeparated_singleton]
    refine hscans.mono fun ts hts => ⟨hts.1, hts.2.statements fun rest hrest => ?_⟩
    exact ⟨rest, hrest, .none, rfl⟩
  | s :: s' :: ss, hs => by
    intro h
    have hothers := Stmt.scans_lineSeparated (s' :: ss) hs.2 h
    have hscans := s.scans_written hs.1 (.newline hothers fun ts hts => hts.1)
    simp only [Stmt.writtenAll, lineSeparated_cons_cons, List.append_assoc, List.cons_append]
      at hscans ⊢
    exact hscans.mono fun ts hts => ⟨hts.1, hts.2.statements fun _ h => h.2⟩

end

/-- A written program is read as the same program up to spans. -/
theorem Program.ofText_written (program : Program) (h : program.Writable) :
    ∃ read, Program.ofText (String.ofList program.written) = .ok read ∧
      read.shape = program.shape := by
  have hend : BehindStatement [] (Begins .endOfInput "" (· = [])) :=
    ⟨.nil, apart_nil, fun ts hts => .of_ahead hts.ahead_eq ⟨rfl, rfl⟩⟩
  obtain ⟨ts, hts, -, rest, hrest, statements, htrees⟩ :=
    Stmt.scans_lineSeparated program.statements h hend .start
  rw [List.append_nil] at hts
  let script : Script ts := ⟨rest, statements, hrest.ahead_eq⟩
  have hread : Program.ofTokens ts = .ok script.program :=
    (ofTokens_eq_ok_iff ts _).2 ⟨script, rfl⟩
  refine ⟨script.program, ?_, script.shape_program.trans htrees⟩
  unfold Program.ofText Token.ofText Program.written
  rw [String.toList_ofList, hts]
  exact hread

/-- A function in a function, a quoted quote, and what could be taken for a call or an operator
behind the line before it. -/
def nested : Program where
  statements :=
    let s := Span.between .start .start
    [.trick "outer" [⟨"a", s⟩, ⟨"b_", s⟩]
      [.trick "inner" [] [.access "a" s] s,
        .expression (.call "inner" [] s) s,
        .declare "half" (.binary .divide (.float (Float.ofBits 0x3FF8000000000000) s)
          (.call "inner" [.string "say \"\\\n" s, .identifier "half" s] s) s) s] s,
      .access "outer" s,
      .expression (.negate (.integer 9223372036854775807 s) s) s,
      .print (.binary .subtract (.identifier "half" s)
        (.binary .multiply (.integer 0 s) (.negate (.identifier "half" s) s) s) s) s]

/-- The nested functions are read back from their text. -/
theorem Program.ofText_written_nested :
    nested.Writable ∧ ∃ read, Program.ofText (String.ofList nested.written) = .ok read ∧
      read.shape = nested.shape := by
  have h : nested.Writable := by
    simp only [nested, Program.Writable, Stmt.AllWritable, Stmt.Writable, Expr.AllWritable,
      Expr.Writable, List.forall_mem_cons]
    decide
  exact ⟨h, Program.ofText_written nested h⟩

end CatScript
