import CatScript.Proofs.Syntax.Refit

/-!
# Lists in a script

The lists in a script are the arguments of its calls, at any depth, and the parameters of its
functions.  A list, or the end of one from an element on, can be exchanged for another one that ends
in front of the same closing parenthesis: whatever contains it stays a derivation, as long as the
tokens before it look at the same kind of token (`Listing.Like`), and the tree changes exactly if
the elements do (`Script.exchanges`).
-/

set_option autoImplicit false

namespace CatScript.Grammar

variable {ts mid rest us : List Token}

/-- The arguments of a call or the parameters of a function, from one of them on. -/
inductive Listing
  | arguments {ts rest : List Token} (a : Arguments ts rest)
  | parameters {ts rest : List Token} (p : Parameters ts rest)

namespace Listing

/-- The tokens from the first element on. -/
def tokens : Listing → List Token
  | @arguments ts _ _ => ts
  | @parameters ts _ _ => ts

/-- The tokens behind the last element. -/
def behind : Listing → List Token
  | @arguments _ rest _ => rest
  | @parameters _ rest _ => rest

/-- The elements. -/
def contents : Listing → List Expr.Shape ⊕ List String
  | arguments a => .inl a.trees
  | parameters p => .inr p.names

/-- Lists of the same sort that begin with tokens of the same kind and end at the same place. -/
inductive Like : Listing → Listing → Prop
  | arguments {ts ts' rest : List Token} (a : Arguments ts rest) (a' : Arguments ts' rest)
      (next : ahead ts' = ahead ts) : Like (.arguments a) (.arguments a')
  | parameters {ts ts' rest : List Token} (p : Parameters ts rest) (p' : Parameters ts' rest)
      (next : ahead ts' = ahead ts) : Like (.parameters p) (.parameters p')

/-- A list that is like another one begins with the same kind of token. -/
theorem Like.ahead_eq {l l' : Listing} (h : l.Like l') : ahead l'.tokens = ahead l.tokens := by
  cases h with
  | arguments _ _ next => exact next
  | parameters _ _ next => exact next

end Listing

/-! ## Where lists stand -/

mutual

/-- A list is among those in a primary. -/
def Primary.Holds {ts rest : List Token} : Primary ts rest → Listing → Prop
  | .call _ _ _ _ arguments, l => arguments.Holds l
  | .group _ _ _ inner, l => inner.Holds l
  | .negate _ _ operand, l => operand.Holds l
  | _, _ => False

/-- A list is among those in further primaries. -/
def Factors.Holds {ts rest : List Token} : Factors ts rest → Listing → Prop
  | .done _, _ => False
  | .more _ _ _ factor others, l => factor.Holds l ∨ others.Holds l

/-- A list is among those in a product. -/
def Product.Holds {ts rest : List Token} : Product ts rest → Listing → Prop
  | .mk first others, l => first.Holds l ∨ others.Holds l

/-- A list is among those in further products. -/
def Summands.Holds {ts rest : List Token} : Summands ts rest → Listing → Prop
  | .done _, _ => False
  | .more _ _ _ summand others, l => summand.Holds l ∨ others.Holds l

/-- A list is among those in an expression. -/
def Expression.Holds {ts rest : List Token} : Expression ts rest → Listing → Prop
  | .mk first others, l => first.Holds l ∨ others.Holds l

/-- A list is one of arguments, from one of them on, or among those in an argument. -/
def Arguments.Holds {ts rest : List Token} : Arguments ts rest → Listing → Prop
  | .none, _ => False
  | .bare first others, l => l = .arguments (.bare first others) ∨ first.Holds l ∨ others.Holds l
  | .comma c kind first others, l =>
    l = .arguments (.comma c kind first others) ∨ first.Holds l ∨ others.Holds l

end

/-- A list is one of parameters, from one of them on. -/
def Parameters.Holds {ts rest : List Token} : Parameters ts rest → Listing → Prop
  | .none, _ => False
  | .bare name kind others, l => l = .parameters (.bare name kind others) ∨ others.Holds l
  | .comma name c kinds others, l =>
    l = .parameters (.comma name c kinds others) ∨ others.Holds l

mutual

/-- A list is among those in a statement. -/
def Statement.Holds {ts rest : List Token} : Statement ts rest → Listing → Prop
  | .print _ _ _ _ argument, l => argument.Holds l
  | .declare _ _ _ _ value, l => value.Holds l
  | .trick _ _ _ _ _ _ _ parameters _ body, l => parameters.Holds l ∨ body.Holds l
  | .call _ _ _ _ arguments, l => arguments.Holds l
  | .expression _ value, l => value.Holds l
  | _, _ => False

/-- A list is among those in statements. -/
def Statements.Holds {ts rest : List Token} : Statements ts rest → Listing → Prop
  | .none, _ => False
  | .more first others, l => first.Holds l ∨ others.Holds l

end

/-- A list is among those in a script: the arguments of a call at any depth, or the parameters of a
function, from one of them on. -/
def Script.Holds (script : Script ts) (l : Listing) : Prop := script.statements.Holds l

/-! ## Exchanging a list -/

/-- A list ends in front of a closing parenthesis and can be exchanged for others like it, and the
tree changes exactly if the elements of the list do. -/
def Exchanges {X : List Token → List Token → Type} {α : Type} (tree : ∀ {ts rest}, X ts rest → α)
    {ts rest : List Token} (d : X ts rest) (l : Listing) : Prop :=
  ahead l.behind = .rightParen ∧ ∃ before, ts = before ++ l.tokens ∧ ∀ l', l.Like l' →
    ∃ d' : X (before ++ l'.tokens) rest, tree d' = tree d ↔ l'.contents = l.contents

namespace Exchanges

variable {X Y Z : List Token → List Token → Type} {α β γ : Type}
  {treeX : ∀ {ts rest}, X ts rest → α} {treeY : ∀ {ts rest}, Y ts rest → β}
  {treeZ : ∀ {ts rest}, Z ts rest → γ} {May : List Token → List Token → List Token → Prop}
  {l : Listing}

/-- A list in a piece with nothing but tokens in front of it. -/
theorem first (front : List Token) {x : X ts mid} (hx : Exchanges @treeX x l) {d : Z us rest}
    (hus : us = front ++ ts) (make : ∀ {ts'}, X ts' mid → Z (front ++ ts') rest)
    (htree : ∀ {ts'} (x' : X ts' mid), treeZ (make x') = treeZ d ↔ treeX x' = treeX x) :
    Exchanges @treeZ d l := by
  obtain ⟨hclosed, before, rfl, hexchange⟩ := hx
  refine ⟨hclosed, front ++ before, by simp [hus], fun l' hl => ?_⟩
  obtain ⟨x', hx'⟩ := hexchange l' hl
  rw [List.append_assoc]
  exact ⟨make x', (htree x').trans hx'⟩

/-- A list in a piece behind another piece. -/
theorem second (front between : List Token) {mid' : List Token} {x : X ts (between ++ mid)}
    {y : Y mid mid'} (hx : Refits @treeX May x)
    (hMay : ∀ {covered rest rest'}, ahead rest' = ahead rest → May covered rest rest')
    (hy : Exchanges @treeY y l) {d : Z us rest} (hus : us = front ++ ts)
    (make : ∀ {ts' mid''}, X ts' (between ++ mid'') → Y mid'' mid' → Z (front ++ ts') rest)
    (htree : ∀ {ts' mid''} (x' : X ts' (between ++ mid'')) (y' : Y mid'' mid'),
      treeX x' = treeX x → (treeZ (make x' y') = treeZ d ↔ treeY y' = treeY y)) :
    Exchanges @treeZ d l := by
  obtain ⟨hclosed, before, rfl, hexchange⟩ := hy
  obtain ⟨covered, rfl, hrefit⟩ := hx
  refine ⟨hclosed, front ++ (covered ++ (between ++ before)), by simp [hus], fun l' hl => ?_⟩
  obtain ⟨y', hy'⟩ := hexchange l' hl
  have hahead : ahead (between ++ (before ++ l'.tokens)) =
      ahead (between ++ (before ++ l.tokens)) :=
    ahead_append_congr between (ahead_append_congr before hl.ahead_eq)
  obtain ⟨x', hx'⟩ := hrefit (between ++ (before ++ l'.tokens)) (hMay hahead)
  have hassoc : front ++ (covered ++ (between ++ before)) ++ l'.tokens =
      front ++ (covered ++ (between ++ (before ++ l'.tokens))) := by
    simp
  rw [hassoc]
  exact ⟨make x' y', (htree x' y' hx').trans hy'⟩

/-- A list by itself. -/
theorem arguments {a : Arguments ts rest} (h : ahead rest = .rightParen) :
    Exchanges @Arguments.trees a (.arguments a) := by
  refine ⟨h, [], rfl, ?_⟩
  rintro _ (⟨_, a', -⟩ | _)
  exact ⟨a', congrArg Sum.inl, Sum.inl.inj⟩

/-- Parameters can be exchanged for others in their own place. -/
theorem parameters {p : Parameters ts rest} (h : ahead rest = .rightParen) :
    Exchanges @Parameters.names p (.parameters p) := by
  refine ⟨h, [], rfl, ?_⟩
  rintro _ (_ | ⟨_, p', -⟩)
  exact ⟨p', congrArg Sum.inr, Sum.inr.inj⟩

end Exchanges

/-! ## The grammar -/

/-- What stands to the left of operators can be told from the tree. -/
theorem Factors.left_of_tree {ts rest : List Token} : (d : Factors ts rest) →
    ∀ {left left' : Expr.Shape}, d.tree left = d.tree left' → left = left'
  | .done _, _, _, h => h
  | .more t op kind part others, left, left', h => by
    have hbinary : Expr.Shape.binary op left part.tree = .binary op left' part.tree :=
      others.left_of_tree h
    exact (Expr.Shape.binary.inj hbinary).2.1

/-- The tree of further products determines what stands in front of them. -/
theorem Summands.left_of_tree {ts rest : List Token} : (d : Summands ts rest) →
    ∀ {left left' : Expr.Shape}, d.tree left = d.tree left' → left = left'
  | .done _, _, _, h => h
  | .more t op kind part others, left, left', h => by
    have hbinary : Expr.Shape.binary op left part.tree = .binary op left' part.tree :=
      others.left_of_tree h
    exact (Expr.Shape.binary.inj hbinary).2.1

/-- The tree of further factors determines what stands in front of them. -/
theorem Factors.tree_injective (d : Factors ts rest) : Function.Injective d.tree :=
  fun _ _ h => d.left_of_tree h

/-- The tree of further products determines what stands in front of them. -/
theorem Summands.tree_injective (d : Summands ts rest) : Function.Injective d.tree :=
  fun _ _ h => d.left_of_tree h

mutual

/-- A list in a primary can be exchanged. -/
theorem Primary.exchanges {ts rest : List Token} {l : Listing} : (d : Primary ts rest) →
    d.Holds l → Exchanges @Primary.tree d l
  | .call name opening closing kinds arguments, h =>
    .first [name, opening] (arguments.exchanges kinds.2.2 h) rfl (.call name opening closing kinds)
      fun a => by simp [Primary.tree]
  | .group opening closing kinds inner, h =>
    .first [opening] (inner.exchanges h) rfl (.group opening closing kinds) fun _ => .rfl
  | .negate minus kind operand, h =>
    .first [minus] (operand.exchanges h) rfl (.negate minus kind) fun e => by simp [Primary.tree]

/-- A list in further factors can be exchanged, whatever stands in front of them. -/
theorem Factors.exchanges {ts rest : List Token} {l : Listing} : (d : Factors ts rest) →
    d.Holds l → ∀ left, Exchanges (X := Factors) (fun f => f.tree left) d l
  | .more t op kind factor others, h, left => by
    obtain h | h := h
    · exact .first [t] (factor.exchanges h) rfl (.more t op kind · others) fun p => by
        simp [Factors.tree, others.tree_injective.eq_iff]
    · exact .second [t] [] factor.refits .of_ahead
        (others.exchanges h (.binary op left factor.tree)) rfl (.more t op kind)
        fun p f hp => by simp only [Factors.tree, hp]

/-- A list in a product can be exchanged. -/
theorem Product.exchanges {ts rest : List Token} {l : Listing} : (d : Product ts rest) →
    d.Holds l → Exchanges @Product.tree d l
  | .mk first others, h => by
    obtain h | h := h
    · exact .first [] (first.exchanges h) rfl (.mk · others) fun p => others.tree_injective.eq_iff
    · exact .second [] [] first.refits .of_ahead (others.exchanges h first.tree) rfl .mk
        fun p f hp => by simp only [Product.tree, hp]

/-- A list in further products can be exchanged, whatever stands in front of them. -/
theorem Summands.exchanges {ts rest : List Token} {l : Listing} : (d : Summands ts rest) →
    d.Holds l → ∀ left, Exchanges (X := Summands) (fun s => s.tree left) d l
  | .more t op kind summand others, h, left => by
    obtain h | h := h
    · exact .first [t] (summand.exchanges h) rfl (.more t op kind · others) fun p => by
        simp [Summands.tree, others.tree_injective.eq_iff]
    · exact .second [t] [] summand.refits .of_ahead
        (others.exchanges h (.binary op left summand.tree)) rfl (.more t op kind)
        fun p s hp => by simp only [Summands.tree, hp]

/-- A list in an expression can be exchanged. -/
theorem Expression.exchanges {ts rest : List Token} {l : Listing} : (d : Expression ts rest) →
    d.Holds l → Exchanges @Expression.tree d l
  | .mk first others, h => by
    obtain h | h := h
    · exact .first [] (first.exchanges h) rfl (.mk · others) fun p => others.tree_injective.eq_iff
    · exact .second [] [] first.refits .of_ahead (others.exchanges h first.tree) rfl .mk
        fun p s hp => by simp only [Expression.tree, hp]

/-- A list in the arguments of a call can be exchanged, the arguments themselves among them. -/
theorem Arguments.exchanges {ts rest : List Token} {l : Listing} : (d : Arguments ts rest) →
    ahead rest = .rightParen → d.Holds l → Exchanges @Arguments.trees d l
  | .bare first others, hclosed, h => by
    obtain rfl | h | h := h
    · exact .arguments hclosed
    · exact .first [] (first.exchanges h) rfl (.bare · others) fun e => by simp [Arguments.trees]
    · exact .second [] [] first.refits .of_ahead (others.exchanges hclosed h) rfl .bare
        fun e a he => by simp [Arguments.trees, he]
  | .comma c kind first others, hclosed, h => by
    obtain rfl | h | h := h
    · exact .arguments hclosed
    · exact .first [] (first.exchanges h) rfl (.comma c kind · others) fun e => by
        simp [Arguments.trees]
    · exact .second [] [c] first.refits .of_ahead (others.exchanges hclosed h) rfl (.comma c kind)
        fun e a he => by simp [Arguments.trees, he]

end

/-- A list of the last parameters of a function can be exchanged. -/
theorem Parameters.exchanges {l : Listing} (d : Parameters ts rest)
    (hclosed : ahead rest = .rightParen) (h : d.Holds l) : Exchanges @Parameters.names d l := by
  induction d with
  | none => exact h.elim
  | bare name kind others ih =>
    obtain rfl | h := h
    · exact .parameters hclosed
    · exact .first [name] (ih hclosed h) rfl (.bare name kind) fun p => by simp [Parameters.names]
  | comma name c kinds others ih =>
    obtain rfl | h := h
    · exact .parameters hclosed
    · exact .first [name, c] (ih hclosed h) rfl (.comma name c kinds) fun p => by
        simp [Parameters.names]

mutual

/-- A list in a statement can be exchanged. -/
theorem Statement.exchanges {ts rest : List Token} {l : Listing} : (d : Statement ts rest) →
    d.Holds l → Exchanges @Statement.tree d l
  | .print purr opening closing kinds argument, h =>
    .first [purr, opening] (argument.exchanges h) rfl (.print purr opening closing kinds)
      fun e => by simp [Statement.tree]
  | .declare meow name equal kinds value, h =>
    .first [meow, name, equal] (value.exchanges h) rfl (.declare meow name equal kinds)
      fun e => by simp [Statement.tree]
  | .trick trick name opening closing left right head parameters kinds body, h => by
    obtain h | h := h
    · exact .first [trick, name, opening] (parameters.exchanges kinds.1 h) rfl
        (.trick trick name opening closing left right head · kinds body) fun p => by
          simp [Statement.tree]
    · exact .second [trick, name, opening] [closing, left] parameters.refits .of_ahead
        (body.exchanges h) rfl (.trick trick name opening closing left right head · kinds ·)
        fun p b hp => by simp [Statement.tree, hp]
  | .call name opening closing kinds arguments, h =>
    .first [name, opening] (arguments.exchanges kinds.2.2 h) rfl (.call name opening closing kinds)
      fun a => by simp [Statement.tree]
  | .expression first value, h => by
    obtain ⟨hclosed, before, rfl, hexchange⟩ := value.exchanges h
    refine ⟨hclosed, before, rfl, fun l' hl => ?_⟩
    obtain ⟨value', hvalue'⟩ := hexchange l' hl
    have first' : ahead (before ++ l'.tokens) ≠ .identifier := by
      rwa [ahead_append_congr before hl.ahead_eq]
    exact ⟨.expression first' value', by simp [Statement.tree, hvalue']⟩

/-- A list in statements can be exchanged. -/
theorem Statements.exchanges {ts rest : List Token} {l : Listing} : (d : Statements ts rest) →
    d.Holds l → Exchanges @Statements.trees d l
  | .more first others, h => by
    obtain h | h := h
    · exact .first [] (first.exchanges h) rfl (.more · others) fun s => by simp [Statements.trees]
    · exact .second [] [] first.refits .of_ahead (others.exchanges h) rfl .more
        fun s o hs => by simp [Statements.trees, hs]

end

/-- A list in a script can be exchanged for others like it, and the tree changes exactly if the
elements of the list do. -/
theorem Script.exchanges {l : Listing} (d : Script ts) (h : d.Holds l) :
    ahead l.behind = .rightParen ∧ ∃ before, ts = before ++ l.tokens ∧ ∀ l', l.Like l' →
      ∃ d' : Script (before ++ l'.tokens), d'.tree = d.tree ↔ l'.contents = l.contents := by
  obtain ⟨hclosed, before, hts, hexchange⟩ := d.statements.exchanges h
  refine ⟨hclosed, before, hts, fun l' hl => ?_⟩
  obtain ⟨statements', hstatements'⟩ := hexchange l' hl
  exact ⟨⟨d.rest, statements', d.next⟩, hstatements'⟩

end CatScript.Grammar
