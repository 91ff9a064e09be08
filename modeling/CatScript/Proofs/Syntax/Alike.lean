import CatScript.Proofs.Syntax.Shape
import CatScript.Proofs.Token.Spacing

/-!
# Reading tokens that stand elsewhere

Two lists of tokens that are alike, one by one, are read alike: as programs of the same shape, or
they are rejected at tokens that correspond to each other, with the same expectation and the same
help.  The functions that read look at the kinds and the lexemes of tokens, and copy their spans.
`Reading.Agree` says that two readings agree up to spans; it is carried through one reading behind
another (`Agree.bind`), and then through every function that reads, by the recursion of these
functions.
-/

set_option autoImplicit false

namespace CatScript

open List (Forall₂)
open Token (Alike)

/-- Two readings agree: what they read looks alike and what they leave is alike, or both are
rejections with the same expectation and help in front of tokens that are alike. -/
def Reading.Agree {α γ : Type} {n m : Nat} (look : α → γ) :
    Except Rejection (Reading α n) → Except Rejection (Reading α m) → Prop
  | .ok r, .ok r' => look r.value = look r'.value ∧ Forall₂ Alike r.rest r'.rest
  | .error r, .error r' =>
    r.expected = r'.expected ∧ r.help = r'.help ∧ Forall₂ Alike r.rest r'.rest
  | _, _ => False

namespace Reading.Agree

variable {α β γ δ : Type} {n m k l : Nat} {look : α → γ}
variable {x : Except Rejection (Reading α n)} {y : Except Rejection (Reading α m)}

/-- One reading behind another, where both agree. -/
theorem bind {look' : β → δ} {f : Reading α n → Except Rejection (Reading β k)}
    {f' : Reading α m → Except Rejection (Reading β l)} (h : Agree look x y)
    (hf : ∀ r r', look r.value = look r'.value → Forall₂ Alike r.rest r'.rest →
      Agree look' (f r) (f' r')) : Agree look' (x >>= f) (y >>= f') := by
  cases x with
  | error r =>
    cases y with
    | error r' => exact h
    | ok r' => exact h.elim
  | ok r =>
    cases y with
    | error r' => exact h.elim
    | ok r' => exact hf r r' h.1 h.2

/-- A help for rejections is the same on both sides. -/
theorem mapError (h : Agree look x y) {help help' : String} (hhelp : help = help') :
    Agree look (x.mapError (·.orHelp help)) (y.mapError (·.orHelp help')) := by
  subst hhelp
  cases x with
  | error r =>
    cases y with
    | error r' =>
      obtain ⟨hexpected, hhelp, hrest⟩ := h
      exact ⟨hexpected, congrArg (Option.or · (some help)) hhelp, hrest⟩
    | ok r' => exact h.elim
  | ok r =>
    cases y with
    | error r' => exact h.elim
    | ok r' => exact h

end Reading.Agree

open Reading (Agree)

namespace Token

variable {ts us : List Token}

/-- Tokens that are alike are alike behind the first one. -/
theorem alike_tail (h : Forall₂ Alike ts us) : Forall₂ Alike ts.tail us.tail := by
  cases h with
  | nil => exact .nil
  | cons _ hrest => exact hrest

/-- Tokens that are alike are alike behind a comma. -/
theorem alike_skipComma (h : Forall₂ Alike ts us) :
    Forall₂ Alike (skipComma ts) (skipComma us) := by
  cases h with
  | nil => exact .nil
  | cons hfirst hrest =>
    rw [skipComma, skipComma, ← hfirst.kind]
    split
    · exact hrest
    · exact .cons hfirst hrest

/-- Tokens that are alike open the same calls. -/
theorem opensCall_eq (h : Forall₂ Alike ts us) : opensCall ts = opensCall us := by
  cases h with
  | nil => rfl
  | cons hfirst _ => simp [opensCall, hfirst.kind]

/-- A token that has to stand here is read or missed in both. -/
theorem agree_expect (kind : TokenKind) (help : String) (h : Forall₂ Alike ts us) :
    Agree lexeme (expect kind help ts) (expect kind help us) := by
  cases h with
  | nil => exact ⟨rfl, rfl, .nil⟩
  | cons hfirst hrest =>
    rw [expect, expect, ← hfirst.kind]
    split
    · exact ⟨hfirst.lexeme, hrest⟩
    · exact ⟨rfl, rfl, .cons hfirst hrest⟩

end Token

/-! ## Expressions -/

namespace Expr

/-- All that reads expressions agrees on tokens that are alike.  The four functions call each other,
so the induction is on their common recursion. -/
theorem expressions_agree :
    (∀ ts us, Forall₂ Alike ts us → Agree shape (operand ts) (operand us)) ∧
      (∀ floor ts us, Forall₂ Alike ts us → Agree shape (climb floor ts) (climb floor us)) ∧
      (∀ floor left ts left' us, left.shape = left'.shape → Forall₂ Alike ts us →
        Agree shape (chain floor left ts) (chain floor left' us)) ∧
      ∀ ts us, Forall₂ Alike ts us →
        Agree (fun args => shapes args.1) (arguments ts) (arguments us) := by
  -- The induction follows the reading of one list. The other one stays open in every statement,
  -- since each reading goes on with what the one before it leaves.
  apply Expr.operand.mutual_induct
    (fun ts => ∀ us, Forall₂ Alike ts us → Agree shape (operand ts) (operand us))
    (fun floor ts => ∀ us, Forall₂ Alike ts us → Agree shape (climb floor ts) (climb floor us))
    (fun floor left ts => ∀ left' us, left.shape = left'.shape → Forall₂ Alike ts us →
      Agree shape (chain floor left ts) (chain floor left' us))
    (fun ts => ∀ us, Forall₂ Alike ts us →
      Agree (fun args => shapes args.1) (arguments ts) (arguments us))
  case case1 =>
    rintro _ ⟨⟩
    rw [operand]
    exact ⟨rfl, rfl, .nil⟩
  case case2 =>
    rintro t ts kind ih _ (_ | @⟨_, u, _, us, hfirst, hrest⟩)
    rw [operand, operand, ← hfirst.kind, kind]
    refine (ih us hrest).bind fun e e' he hleft => ⟨?_, hleft⟩
    exact congrArg Shape.negate he
  case case3 =>
    rintro t ts kind i reads _ (_ | @⟨_, u, _, us, hfirst, hrest⟩)
    rw [operand, operand, ← hfirst.kind, ← hfirst.lexeme, kind]
    simp only [reads]
    exact ⟨rfl, hrest⟩
  case case4 =>
    rintro t ts kind reads _ (_ | @⟨_, u, _, us, hfirst, hrest⟩)
    rw [operand, operand, ← hfirst.kind, ← hfirst.lexeme, kind]
    simp only [reads]
    exact ⟨rfl, rfl, .cons hfirst hrest⟩
  case case5 =>
    rintro t ts kind x reads _ (_ | @⟨_, u, _, us, hfirst, hrest⟩)
    rw [operand, operand, ← hfirst.kind, ← hfirst.lexeme, kind]
    simp only [reads]
    exact ⟨rfl, hrest⟩
  case case6 =>
    rintro t ts kind reads _ (_ | @⟨_, u, _, us, hfirst, hrest⟩)
    rw [operand, operand, ← hfirst.kind, ← hfirst.lexeme, kind]
    simp only [reads]
    exact ⟨rfl, rfl, .cons hfirst hrest⟩
  case case7 =>
    rintro t ts kind _ (_ | @⟨_, u, _, us, hfirst, hrest⟩)
    rw [operand, operand, ← hfirst.kind, ← hfirst.lexeme, kind]
    exact ⟨rfl, hrest⟩
  case case8 =>
    rintro t ts kind opens ih _ (_ | @⟨_, u, _, us, hfirst, hrest⟩)
    rw [operand, operand, ← hfirst.kind, ← hfirst.lexeme, kind]
    dsimp only
    rw [if_pos opens, if_pos (Token.opensCall_eq hrest ▸ opens)]
    refine (ih us.tail (Token.alike_tail hrest)).bind fun args args' hargs hleft => ⟨?_, hleft⟩
    exact congrArg (Shape.call t.lexeme) hargs
  case case9 =>
    rintro t ts kind opens _ (_ | @⟨_, u, _, us, hfirst, hrest⟩)
    rw [operand, operand, ← hfirst.kind, ← hfirst.lexeme, kind]
    dsimp only
    rw [if_neg opens, if_neg (Token.opensCall_eq hrest ▸ opens)]
    exact ⟨rfl, hrest⟩
  case case10 =>
    rintro t ts kind ih _ (_ | @⟨_, u, _, us, hfirst, hrest⟩)
    rw [operand, operand, ← hfirst.kind, kind]
    refine (ih us hrest).bind fun e e' he hleft => ?_
    exact (Token.agree_expect .rightParen groupHelp hleft).bind fun close close' _ hleft =>
      ⟨he, hleft⟩
  case case11 =>
    rintro t ts minus integer float string identifier leftParen _
      (_ | @⟨_, u, _, us, hfirst, hrest⟩)
    rw [operand, operand, ← hfirst.kind]
    cases hk : t.kind <;> simp_all [Agree]
  case case12 =>
    intro floor ts ihFirst ihAll us h
    rw [climb, climb]
    refine (ihFirst us h).bind fun first first' hfirst hleft => ?_
    exact (ihAll first first'.value first'.rest hfirst hleft).bind fun all all' hall hleft =>
      ⟨hall, hleft⟩
  case case13 =>
    rintro floor left left' _ hshape ⟨⟩
    rw [chain, chain]
    exact ⟨hshape, .nil⟩
  case case14 =>
    rintro floor left t ts kind left' _ hshape (_ | @⟨_, u, _, us, hfirst, hrest⟩)
    rw [chain, chain, ← hfirst.kind, kind]
    exact ⟨hshape, .cons hfirst hrest⟩
  case case15 =>
    rintro floor left t ts op kind tight ihRight ihAll left' _ hshape
      (_ | @⟨_, u, _, us, hfirst, hrest⟩)
    rw [chain, chain, ← hfirst.kind, kind]
    dsimp only
    rw [if_pos tight, if_pos tight]
    refine ((ihRight us hrest).mapError (congrArg operandHelp hfirst.lexeme)).bind
      fun right right' hright hleft => ?_
    refine (ihAll right _ right'.rest ?_ hleft).bind fun all all' hall hleft => ⟨hall, hleft⟩
    exact congrArg₂ (Shape.binary op) hshape hright
  case case16 =>
    rintro floor left t ts op kind loose left' _ hshape (_ | @⟨_, u, _, us, hfirst, hrest⟩)
    rw [chain, chain, ← hfirst.kind, kind]
    dsimp only
    rw [if_neg loose, if_neg loose]
    exact ⟨hshape, .cons hfirst hrest⟩
  case case17 =>
    rintro _ ⟨⟩
    rw [arguments]
    exact ⟨rfl, rfl, .nil⟩
  case case18 =>
    rintro t ts kind _ (_ | @⟨_, u, _, us, hfirst, hrest⟩)
    rw [arguments, arguments, if_pos kind, if_pos (hfirst.kind ▸ kind)]
    exact ⟨rfl, hrest⟩
  case case19 =>
    rintro t ts kind ihFirst ihOthers _ (_ | @⟨_, u, _, us, hfirst, hrest⟩)
    rw [arguments, arguments, if_neg kind, if_neg (hfirst.kind ▸ kind)]
    refine (ihFirst (u :: us) (.cons hfirst hrest)).bind fun e e' he hleft => ?_
    refine (ihOthers e _ (Token.alike_skipComma hleft)).bind fun others others' hothers hleft =>
      ⟨?_, hleft⟩
    exact congrArg₂ List.cons he hothers

/-- Whole expressions of tokens that are alike agree. -/
theorem agree_ofTokens {ts us : List Token} (h : Forall₂ Alike ts us) :
    Agree shape (ofTokens ts) (ofTokens us) :=
  expressions_agree.2.1 0 ts us h

end Expr

/-! ## Statements -/

namespace Stmt

variable {ts us : List Token}

/-- Parameters agree on tokens that are alike. -/
theorem agree_parameters (ts : List Token) : ∀ us, Forall₂ Alike ts us →
    Agree (List.map Parameter.name) (parameters ts) (parameters us) := by
  induction ts using parameters.induct with
  | case1 =>
    rintro _ ⟨⟩
    rw [parameters]
    exact ⟨rfl, rfl, .nil⟩
  | case2 t ts kind =>
    rintro _ (_ | @⟨_, u, _, us, hfirst, hrest⟩)
    rw [parameters, parameters, if_pos kind, if_pos (hfirst.kind ▸ kind)]
    exact ⟨rfl, hrest⟩
  | case3 t ts close kind ih =>
    rintro _ (_ | @⟨_, u, _, us, hfirst, hrest⟩)
    rw [parameters, parameters, ← hfirst.kind, if_neg close, if_neg close, if_pos kind,
      if_pos kind]
    refine (ih _ (Token.alike_skipComma hrest)).bind fun others others' hothers hleft =>
      ⟨?_, hleft⟩
    exact congrArg₂ List.cons hfirst.lexeme hothers
  | case4 t ts close kind =>
    rintro _ (_ | @⟨_, u, _, us, hfirst, hrest⟩)
    rw [parameters, parameters, ← hfirst.kind, if_neg close, if_neg close, if_neg kind,
      if_neg kind]
    exact ⟨rfl, rfl, .cons hfirst hrest⟩

/-- A print statement agrees on tokens that are alike. -/
theorem agree_printOf (purr purr' : Token) (h : Forall₂ Alike ts us) :
    Agree shape (printOf purr ts) (printOf purr' us) :=
  (Token.agree_expect _ _ h).bind fun _ _ _ hleft =>
    (Expr.agree_ofTokens hleft).bind fun _ _ hargument hleft =>
      (Token.agree_expect _ _ hleft).bind fun _ _ _ hleft =>
        ⟨congrArg Shape.print hargument, hleft⟩

/-- A declaration agrees on tokens that are alike. -/
theorem agree_declareOf (meow meow' : Token) (h : Forall₂ Alike ts us) :
    Agree shape (declareOf meow ts) (declareOf meow' us) :=
  (Token.agree_expect _ _ h).bind fun _ _ hname hleft =>
    (Token.agree_expect _ _ hleft).bind fun _ _ _ hleft =>
      (Expr.agree_ofTokens hleft).bind fun _ _ hvalue hleft =>
        ⟨congrArg₂ Shape.declare hname hvalue, hleft⟩

/-- An access agrees on tokens that are alike. -/
theorem agree_accessOf (woof woof' : Token) (h : Forall₂ Alike ts us) :
    Agree shape (accessOf woof ts) (accessOf woof' us) :=
  (Token.agree_expect _ _ h).bind fun _ _ hname hleft => ⟨congrArg Shape.access hname, hleft⟩

/-- The head of a function agrees on tokens that are alike. -/
theorem agree_trickHead (h : Forall₂ Alike ts us) :
    Agree (fun head : String × List Parameter => (head.1, head.2.map Parameter.name))
      (trickHead ts) (trickHead us) :=
  (Token.agree_expect _ _ h).bind fun _ _ hname hleft =>
    (Token.agree_expect _ _ hleft).bind fun _ _ _ hleft =>
      (agree_parameters _ _ hleft).bind fun _ _ hparams hleft =>
        (Token.agree_expect _ _ hleft).bind fun _ _ _ hleft =>
          ⟨congrArg₂ Prod.mk hname hparams, hleft⟩

/-- An expression as a statement agrees on tokens that are alike. -/
theorem agree_expressionOf (h : Forall₂ Alike ts us) :
    Agree shape (expressionOf ts) (expressionOf us) :=
  (Expr.agree_ofTokens h).bind fun _ _ he hleft => ⟨congrArg Shape.expression he, hleft⟩

/-- All that reads statements agrees on tokens that are alike, by induction on the common recursion
of statements and bodies. -/
theorem statements_agree :
    (∀ ts us, Forall₂ Alike ts us → Agree shape (ofTokens ts) (ofTokens us)) ∧
      ∀ ts us, Forall₂ Alike ts us →
        Agree (fun block => shapes block.1) (body ts) (body us) := by
  apply Stmt.ofTokens.mutual_induct
    (fun ts => ∀ us, Forall₂ Alike ts us → Agree shape (ofTokens ts) (ofTokens us))
    (fun ts => ∀ us, Forall₂ Alike ts us →
      Agree (fun block => shapes block.1) (body ts) (body us))
  case case1 =>
    rintro _ ⟨⟩
    rw [ofTokens]
    exact agree_expressionOf .nil
  case case2 =>
    rintro t ts kind _ (_ | @⟨_, u, _, us, hfirst, hrest⟩)
    rw [ofTokens, ofTokens, ← hfirst.kind, kind]
    exact (agree_printOf t u hrest).bind fun _ _ hstatement hleft => ⟨hstatement, hleft⟩
  case case3 =>
    rintro t ts kind _ (_ | @⟨_, u, _, us, hfirst, hrest⟩)
    rw [ofTokens, ofTokens, ← hfirst.kind, kind]
    exact (agree_declareOf t u hrest).bind fun _ _ hstatement hleft => ⟨hstatement, hleft⟩
  case case4 =>
    rintro t ts kind _ (_ | @⟨_, u, _, us, hfirst, hrest⟩)
    rw [ofTokens, ofTokens, ← hfirst.kind, kind]
    exact (agree_accessOf t u hrest).bind fun _ _ hstatement hleft => ⟨hstatement, hleft⟩
  case case5 =>
    rintro t ts kind ih _ (_ | @⟨_, u, _, us, hfirst, hrest⟩)
    rw [ofTokens, ofTokens, ← hfirst.kind, kind]
    refine (agree_trickHead hrest).bind fun head head' hhead hleft => ?_
    refine (ih head _ hleft).bind fun block block' hblock hleft => ⟨?_, hleft⟩
    obtain ⟨hname, hparams⟩ := Prod.mk.inj hhead
    change Shape.trick head.value.1 _ _ = Shape.trick head'.value.1 _ _
    rw [hname, hparams]
    exact congrArg (Shape.trick _ _) hblock
  case case6 =>
    rintro t ts kind opens _ (_ | @⟨_, u, _, us, hfirst, hrest⟩)
    rw [ofTokens, ofTokens, ← hfirst.kind, ← hfirst.lexeme, kind]
    dsimp only
    rw [if_pos opens, if_pos (Token.opensCall_eq hrest ▸ opens)]
    have hargs := Expr.expressions_agree.2.2.2 ts.tail us.tail (Token.alike_tail hrest)
    refine hargs.bind fun args args' hargs hleft => ⟨?_, hleft⟩
    exact congrArg (fun shapes => Shape.expression (.call t.lexeme shapes)) hargs
  case case7 =>
    rintro t ts kind opens _ (_ | @⟨_, u, _, us, hfirst, hrest⟩)
    rw [ofTokens, ofTokens, ← hfirst.kind, ← hfirst.lexeme, kind]
    dsimp only
    rw [if_neg opens, if_neg (Token.opensCall_eq hrest ▸ opens)]
    exact ⟨rfl, hrest⟩
  case case8 =>
    rintro t ts purr meow woof trick name _ (_ | @⟨_, u, _, us, hfirst, hrest⟩)
    have h := agree_expressionOf (.cons hfirst hrest)
    rw [ofTokens, ofTokens, ← hfirst.kind]
    cases hk : t.kind <;> simp_all
  case case9 =>
    rintro _ ⟨⟩
    rw [body]
    exact ⟨rfl, rfl, .nil⟩
  case case10 =>
    rintro t ts kind _ (_ | @⟨_, u, _, us, hfirst, hrest⟩)
    rw [body, body, if_pos kind, if_pos (hfirst.kind ▸ kind)]
    exact ⟨rfl, hrest⟩
  case case11 =>
    rintro t ts kind ihFirst ihOthers _ (_ | @⟨_, u, _, us, hfirst, hrest⟩)
    rw [body, body, if_neg kind, if_neg (hfirst.kind ▸ kind)]
    refine (ihFirst (u :: us) (.cons hfirst hrest)).bind fun first first' hfirst hleft => ?_
    refine (ihOthers first _ hleft).bind fun others others' hothers hleft => ⟨?_, hleft⟩
    exact congrArg₂ List.cons hfirst hothers

/-- All statements of tokens that are alike have the same shapes, or are rejected alike. -/
theorem all_agree (ts : List Token) : ∀ us, Forall₂ Alike ts us →
    (∃ ss ss', all ts = .ok ss ∧ all us = .ok ss' ∧ shapes ss = shapes ss') ∨
      ∃ r r', all ts = .error r ∧ all us = .error r' ∧ r.expected = r'.expected ∧
        r.help = r'.help ∧ Forall₂ Alike r.rest r'.rest := by
  induction ts using all.induct with
  | case1 =>
    rintro _ ⟨⟩
    exact .inl ⟨[], [], by rw [all], by rw [all], rfl⟩
  | case2 t ts ih =>
    rintro _ (_ | @⟨_, u, _, us, hfirst, hrest⟩)
    have hagree := statements_agree.1 (t :: ts) (u :: us) (.cons hfirst hrest)
    rw [all, all]
    -- The first statement is read in both lists or rejected in both.
    cases hr : ofTokens (t :: ts) with
    | error r =>
      cases hr' : ofTokens (u :: us) with
      | error r' =>
        rw [hr, hr'] at hagree
        exact .inr ⟨r, r', rfl, rfl, hagree⟩
      | ok first' =>
        rw [hr, hr'] at hagree
        exact hagree.elim
    | ok first =>
      cases hr' : ofTokens (u :: us) with
      | error r' =>
        rw [hr, hr'] at hagree
        exact hagree.elim
      | ok first' =>
        rw [hr, hr'] at hagree
        obtain ⟨ss, ss', hss, hss', hshapes⟩ | ⟨r, r', hs, hs', hagrees⟩ :=
          ih first first'.rest hagree.2
        · refine .inl ⟨first.value :: ss, first'.value :: ss', ?_, ?_,
            congrArg₂ List.cons hagree.1 hshapes⟩
          · simp only [Bind.bind, Except.bind, hss]
            rfl
          · simp only [Bind.bind, Except.bind, hss']
            rfl
        · refine .inr ⟨r, r', ?_, ?_, hagrees⟩
          · simp only [Bind.bind, Except.bind, hs]
          · simp only [Bind.bind, Except.bind, hs']

end Stmt

/-! ## Programs -/

/-- Scripts of tokens that are alike are alike. -/
theorem Token.alike_script {ts us : List Token} (h : Forall₂ Alike ts us) :
    Forall₂ Alike (script ts) (script us) := by
  induction h with
  | nil => exact .nil
  | cons hfirst _ ih =>
    simp only [script, List.takeWhile_cons, ← hfirst.kind]
    split
    · exact .cons hfirst ih
    · exact .nil

/-- Rejections in front of tokens that are alike stand for errors that say the same. -/
theorem Rejection.what_error {r r' : Rejection} (hexpected : r.expected = r'.expected)
    (hhelp : r.help = r'.help) (hrest : Forall₂ Alike r.rest r'.rest) (finish finish' : Span) :
    (r.error finish).what = (r'.error finish').what := by
  obtain ⟨expected, rest, help⟩ := r
  obtain ⟨_, rest', _⟩ := r'
  dsimp only at hexpected hhelp hrest
  subst hexpected hhelp
  cases hrest with
  | nil => rfl
  | cons hfirst _ => simp [error, Error.what, hfirst.kind]

/-- Tokens that are alike make up programs of the same shape, or fail with errors that say the
same. -/
theorem Program.alike_ofTokens {ts us : List Token} (h : Forall₂ Alike ts us) :
    (∃ p q, ofTokens ts = .ok p ∧ ofTokens us = .ok q ∧ p.shape = q.shape) ∨
      ∃ e e', ofTokens ts = .error e ∧ ofTokens us = .error e' ∧ e.what = e'.what := by
  unfold ofTokens
  obtain ⟨ss, ss', hss, hss', hshapes⟩ | ⟨r, r', hr, hr', hexpected, hhelp, hrest⟩ :=
    Stmt.all_agree _ _ (Token.alike_script h)
  · rw [hss, hss']
    exact .inl ⟨⟨ss⟩, ⟨ss'⟩, rfl, rfl, hshapes⟩
  · rw [hr, hr']
    exact .inr ⟨_, _, rfl, rfl, Rejection.what_error hexpected hhelp hrest _ _⟩

end CatScript
