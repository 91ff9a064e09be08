import CatScript.Proofs.Syntax.Grammar
import CatScript.Proofs.Token.Written

/-!
# Derivations of written tokens

The productions of the grammar, said of tokens of which only the kinds, the lexemes and what
follows are known.  `Derives` says that a derivation stands for a given tree and that what it leaves
over has a property; there is one lemma for each form in which the printer writes something.  A
production that looks ahead asks for a property of the next token: `NoOperator` where an expression
ends, and `EndsArgument` behind an argument.
-/

set_option autoImplicit false

namespace CatScript

open Grammar
open Token (Begins)

/-- The tokens begin with a derivation that stands for something, and the others have a
property. -/
def Derives {X : List Token → List Token → Type} {α : Type}
    (tree : ∀ {ts rest}, X ts rest → α) (value : α) (P : List Token → Prop)
    (ts : List Token) : Prop :=
  ∃ rest, P rest ∧ ∃ d : X ts rest, tree d = value

/-- The next token is no operator. -/
def NoOperator (ts : List Token) : Prop :=
  sumOp? (ahead ts) = none ∧ productOp? (ahead ts) = none

/-- The next token ends an argument. -/
def EndsArgument (ts : List Token) : Prop := ahead ts = .comma ∨ ahead ts = .rightParen

variable {P : List Token → Prop} {ts : List Token}

/-- A token of a kind that stands for no operator is none. -/
theorem NoOperator.of_ahead {kind : TokenKind} (h : ahead ts = kind)
    (hkind : sumOp? kind = none ∧ productOp? kind = none) : NoOperator ts := by
  unfold NoOperator
  rw [h]
  exact hkind

/-- What ends an argument is no operator. -/
theorem EndsArgument.noOperator (h : EndsArgument ts) : NoOperator ts := by
  obtain h | h := h
  · exact .of_ahead h ⟨rfl, rfl⟩
  · exact .of_ahead h ⟨rfl, rfl⟩

/-- What ends an argument opens nothing. -/
theorem EndsArgument.ahead_ne_leftParen (h : EndsArgument ts) : ahead ts ≠ .leftParen := by
  obtain h | h := h
  · simp [h]
  · simp [h]

/-- The kind of the first token is the one ahead. -/
theorem Token.Begins.ahead_eq {kind : TokenKind} {lexeme : String} (h : Begins kind lexeme P ts) :
    ahead ts = kind := by
  obtain ⟨t, rest, rfl, hkind, -, -⟩ := h
  exact hkind

/-! ## Derivations of what is written -/

namespace Derives

/-- A primary with no operator behind it is an expression. -/
theorem expression {shape : Expr.Shape} (h : Derives @Primary.tree shape P ts)
    (stops : ∀ ts, P ts → NoOperator ts) : Derives @Expression.tree shape P ts := by
  obtain ⟨rest, hrest, d, rfl⟩ := h
  have next := stops rest hrest
  exact ⟨rest, hrest, .mk (.mk d (.done next.2)) (.done next), rfl⟩

/-- A string token stands for the string. -/
theorem string {value : String} (h : Begins .string value P ts) :
    Derives @Primary.tree (.string value) P ts := by
  obtain ⟨t, rest, rfl, hkind, rfl, hrest⟩ := h
  exact ⟨rest, hrest, .string t hkind, rfl⟩

/-- The digits of an integer that is not negative stand for it. -/
theorem integer {value : Int64} (hvalue : 0 ≤ value.toInt)
    (h : Begins .integer (String.ofList (Integer64.text value)) P ts) :
    Derives @Primary.tree (.integer value) P ts := by
  obtain ⟨t, rest, rfl, hkind, hlexeme, hrest⟩ := h
  have hreads : Integer64.ofText? t.lexeme.toList = some value := by
    rw [hlexeme, String.toList_ofList]
    exact Integer64.ofText?_text hvalue
  exact ⟨rest, hrest, .integer t value hkind hreads, rfl⟩

/-- The text of a finite float that is not negative stands for it. -/
theorem float {value : Float} (hfinite : Binary64.magnitude value < Binary64.infinity)
    (hsign : Binary64.isNegative value = false)
    (h : Begins .float (String.ofList (Decimal.floatText value)) P ts) :
    Derives @Primary.tree (.float value) P ts := by
  obtain ⟨t, rest, rfl, hkind, hlexeme, hrest⟩ := h
  have hreads : Decimal.ofText? t.lexeme.toList = some value := by
    rw [hlexeme, String.toList_ofList]
    exact Decimal.ofText?_floatText hfinite hsign
  exact ⟨rest, hrest, .float t value hkind hreads, rfl⟩

/-- A name is no call, since no parenthesis opens behind it. -/
theorem name {name : String} (h : Begins .identifier name P ts)
    (ends : ∀ ts, P ts → EndsArgument ts) : Derives @Primary.tree (.identifier name) P ts := by
  obtain ⟨t, rest, rfl, hkind, rfl, hrest⟩ := h
  exact ⟨rest, hrest, .name t hkind (ends rest hrest).ahead_ne_leftParen, rfl⟩

/-- A name, and arguments in parentheses, stand for a call. -/
theorem call {function opening closing : String} {arguments : List Expr.Shape}
    (h : Begins .identifier function (Begins .leftParen opening
      (Derives @Arguments.trees arguments (Begins .rightParen closing P))) ts) :
    Derives @Primary.tree (.call function arguments) P ts := by
  obtain ⟨t, _, rfl, hkind, rfl, left, _, rfl, hleft, -, _, ⟨right, rest, rfl, hright, -, hrest⟩,
    d, rfl⟩ := h
  exact ⟨rest, hrest, .call t left right ⟨hkind, hleft, hright⟩ d, rfl⟩

/-- A minus in front of an operand stands for its opposite. -/
theorem negate {minus : String} {operand : Expr.Shape}
    (h : Begins .minus minus (Derives @Primary.tree operand P) ts) :
    Derives @Primary.tree (.negate operand) P ts := by
  obtain ⟨t, _, rfl, hkind, -, rest, hrest, d, rfl⟩ := h
  exact ⟨rest, hrest, .negate t hkind d, rfl⟩

/-- An expression in parentheses is a primary. -/
theorem group {shape : Expr.Shape} {opening closing : String}
    (h : Begins .leftParen opening
      (Derives @Expression.tree shape (Begins .rightParen closing P)) ts) :
    Derives @Primary.tree shape P ts := by
  obtain ⟨left, _, rfl, hleft, -, _, ⟨right, rest, rfl, hright, -, hrest⟩, d, rfl⟩ := h
  exact ⟨rest, hrest, .group left right ⟨hleft, hright⟩ d, rfl⟩

/-- An operator between two expressions in parentheses makes an expression, whichever layer of the
grammar it belongs to. -/
theorem binary {op : BinaryOp} {kind : TokenKind} {symbol : String} {left right : Expr.Shape}
    (hkind : sumOp? kind = some op ∨ productOp? kind = some op)
    (h : Derives @Primary.tree left (Begins kind symbol (Derives @Primary.tree right P)) ts)
    (stops : ∀ ts, P ts → NoOperator ts) :
    Derives @Expression.tree (.binary op left right) P ts := by
  obtain ⟨_, ⟨t, _, rfl, rfl, -, rest, hrest, r, rfl⟩, l, rfl⟩ := h
  have next := stops rest hrest
  obtain hsum | hproduct := hkind
  · have hno : productOp? t.kind = none := by
      cases hk : t.kind <;> simp [hk, sumOp?] at hsum <;> rfl
    exact ⟨rest, hrest, .mk (.mk l (.done hno))
      (.more t op hsum (.mk r (.done next.2)) (.done next)), rfl⟩
  · exact ⟨rest, hrest, .mk (.mk l (.more t op hproduct r (.done next.2))) (.done next), rfl⟩

/-- A further argument stands in front of a comma. -/
theorem argument {shape : Expr.Shape} {shapes : List Expr.Shape} {comma : String}
    (h : Derives @Expression.tree shape
      (Begins .comma comma (Derives @Arguments.trees shapes P)) ts) :
    Derives @Arguments.trees (shape :: shapes) P ts := by
  obtain ⟨_, ⟨t, _, rfl, hkind, -, rest, hrest, others, rfl⟩, first, rfl⟩ := h
  exact ⟨rest, hrest, .comma t hkind first others, rfl⟩

/-- The last argument has no comma behind it. -/
theorem lastArgument {shape : Expr.Shape} (h : Derives @Expression.tree shape P ts) :
    Derives @Arguments.trees [shape] P ts := by
  obtain ⟨rest, hrest, d, rfl⟩ := h
  exact ⟨rest, hrest, .bare d .none, rfl⟩

/-- A name and a comma in front of parameters stand for one more. -/
theorem parameter {name : String} {names : List String} {comma : String}
    (h : Begins .identifier name (Begins .comma comma (Derives @Parameters.names names P)) ts) :
    Derives @Parameters.names (name :: names) P ts := by
  obtain ⟨t, _, rfl, hkind, rfl, c, _, rfl, hcomma, -, rest, hrest, others, rfl⟩ := h
  exact ⟨rest, hrest, .comma t c ⟨hkind, hcomma⟩ others, rfl⟩

/-- A name alone stands for one parameter. -/
theorem lastParameter {name : String} (h : Begins .identifier name P ts) :
    Derives @Parameters.names [name] P ts := by
  obtain ⟨t, rest, rfl, hkind, rfl, hrest⟩ := h
  exact ⟨rest, hrest, .bare t hkind .none, rfl⟩

/-! A written statement begins with a keyword or a parenthesis, so that it cannot be taken for the
rest of the expression before it. -/

/-- The keyword and an argument in parentheses stand for a print statement. -/
theorem print {purr opening closing : String} {argument : Expr.Shape}
    (h : Begins .purr purr (Begins .leftParen opening
      (Derives @Expression.tree argument (Begins .rightParen closing P))) ts) :
    NoOperator ts ∧ Derives @Statement.tree (.print argument) P ts := by
  refine ⟨.of_ahead h.ahead_eq ⟨rfl, rfl⟩, ?_⟩
  obtain ⟨t, _, rfl, hpurr, -, left, _, rfl, hleft, -, _, ⟨right, rest, rfl, hright, -, hrest⟩,
    d, rfl⟩ := h
  exact ⟨rest, hrest, .print t left right ⟨hpurr, hleft, hright⟩ d, rfl⟩

/-- The keyword, a name, an equals sign and a value stand for a declaration. -/
theorem declare {meow name equal : String} {value : Expr.Shape}
    (h : Begins .meow meow (Begins .identifier name (Begins .equal equal
      (Derives @Expression.tree value P))) ts) :
    NoOperator ts ∧ Derives @Statement.tree (.declare name value) P ts := by
  refine ⟨.of_ahead h.ahead_eq ⟨rfl, rfl⟩, ?_⟩
  obtain ⟨t, _, rfl, hmeow, -, n, _, rfl, hname, rfl, e, _, rfl, hequal, -,
    rest, hrest, d, rfl⟩ := h
  exact ⟨rest, hrest, .declare t n e ⟨hmeow, hname, hequal⟩ d, rfl⟩

/-- The keyword and a name stand for an access. -/
theorem ask {woof name : String} (h : Begins .woof woof (Begins .identifier name P) ts) :
    NoOperator ts ∧ Derives @Statement.tree (.access name) P ts := by
  refine ⟨.of_ahead h.ahead_eq ⟨rfl, rfl⟩, ?_⟩
  obtain ⟨t, _, rfl, hwoof, -, n, rest, rfl, hname, rfl, hrest⟩ := h
  exact ⟨rest, hrest, .ask t n ⟨hwoof, hname⟩, rfl⟩

/-- The keyword, a name, parameters in parentheses and statements in braces stand for a function. -/
theorem trick {trick name opening closing left right : String} {parameters : List String}
    {body : List Stmt.Shape}
    (h : Begins .trick trick (Begins .identifier name (Begins .leftParen opening
      (Derives @Parameters.names parameters (Begins .rightParen closing (Begins .leftBrace left
        (Derives @Statements.trees body (Begins .rightBrace right P))))))) ts) :
    NoOperator ts ∧ Derives @Statement.tree (.trick name parameters body) P ts := by
  refine ⟨.of_ahead h.ahead_eq ⟨rfl, rfl⟩, ?_⟩
  obtain ⟨t, _, rfl, htrick, -, n, _, rfl, hname, rfl, o, _, rfl, hopening, -, hparameters⟩ := h
  obtain ⟨_, ⟨c, _, rfl, hclosing, -, l, _, rfl, hleft, -, hbody⟩, ps, rfl⟩ := hparameters
  obtain ⟨_, ⟨r, rest, rfl, hright, -, hrest⟩, ss, rfl⟩ := hbody
  exact ⟨rest, hrest, .trick t n o c l r ⟨htrick, hname, hopening⟩ ps ⟨hclosing, hleft, hright⟩ ss,
    rfl⟩

/-- An expression in parentheses is a statement, since no name stands in front. -/
theorem statement {opening closing : String} {value : Expr.Shape}
    (h : Begins .leftParen opening
      (Derives @Expression.tree value (Begins .rightParen closing P)) ts)
    (stops : ∀ ts, P ts → NoOperator ts) :
    NoOperator ts ∧ Derives @Statement.tree (.expression value) P ts := by
  refine ⟨.of_ahead h.ahead_eq ⟨rfl, rfl⟩, ?_⟩
  have hfirst : ahead ts ≠ .identifier := by
    rw [h.ahead_eq]
    simp
  obtain ⟨rest, hrest, d, rfl⟩ := (group h).expression stops
  exact ⟨rest, hrest, .expression hfirst d, rfl⟩

/-- A statement in front of statements stands for all of them. -/
theorem statements {Q : List Token → Prop} {shape : Stmt.Shape} {shapes : List Stmt.Shape}
    (h : Derives @Statement.tree shape Q ts)
    (hothers : ∀ ts, Q ts → Derives @Statements.trees shapes P ts) :
    Derives @Statements.trees (shape :: shapes) P ts := by
  obtain ⟨mid, hmid, first, rfl⟩ := h
  obtain ⟨rest, hrest, others, rfl⟩ := hothers mid hmid
  exact ⟨rest, hrest, .more first others, rfl⟩

end Derives

end CatScript
