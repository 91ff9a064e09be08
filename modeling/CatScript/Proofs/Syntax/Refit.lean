import CatScript.Proofs.Syntax.Grammar.Complete

/-!
# Derivations in front of other tokens

A derivation looks no further than the first token that it leaves over.  It stays one, and stands
for the same tree, when other tokens stand behind it, as long as the first of them opens no call
behind a name (`NoCall`) and is no operator that goes on with an expression (`Admits`).  Every
production is a piece, or two pieces, with tokens before, between and behind them, so that two
lemmas about such productions, `Refits.enclosed` and `Refits.joined`, carry the whole grammar.
-/

set_option autoImplicit false

namespace CatScript.Grammar

variable {covered ts rest rest' : List Token}

/-! ## What may stand behind -/

/-- Behind a name, other tokens do not open a call that was not opened. -/
def NoCall (covered rest rest' : List Token) : Prop :=
  ∀ t, [t] <:+ covered → t.kind = .identifier → ahead rest ≠ .leftParen → ahead rest' ≠ .leftParen

/-- Other tokens go on with nothing that was at its end. -/
structure Admits (covered rest rest' : List Token) : Prop where
  noCall : NoCall covered rest rest'
  product : productOp? (ahead rest) = none → productOp? (ahead rest') = none
  sum : sumOp? (ahead rest) = none → sumOp? (ahead rest') = none

/-- Tokens that begin with the same kind open no other call. -/
theorem NoCall.of_ahead (h : ahead rest' = ahead rest) : NoCall covered rest rest' :=
  fun _ _ _ next => by rwa [h]

/-- Tokens that begin with the same kind go on with nothing more. -/
theorem Admits.of_ahead (h : ahead rest' = ahead rest) : Admits covered rest rest' :=
  ⟨.of_ahead h, fun next => by rwa [h], fun next => by rwa [h]⟩

/-- Nothing at all goes on with nothing. -/
theorem Admits.nil : Admits covered rest [] := by
  refine ⟨fun _ _ _ _ => ?_, fun _ => rfl, fun _ => rfl⟩
  simp

/-- Neither a comma nor a closing parenthesis goes on with anything. -/
theorem Admits.of_closing (h : ahead rest' = .comma ∨ ahead rest' = .rightParen) :
    Admits covered rest rest' := by
  obtain h | h := h
  · exact ⟨fun _ _ _ _ => by simp [h], fun _ => by rw [h]; rfl, fun _ => by rw [h]; rfl⟩
  · exact ⟨fun _ _ _ _ => by simp [h], fun _ => by rw [h]; rfl, fun _ => by rw [h]; rfl⟩

/-- Tokens in front of two others that begin alike begin alike. -/
theorem ahead_append_congr (before : List Token) (h : ahead rest' = ahead rest) :
    ahead (before ++ rest') = ahead (before ++ rest) := by
  cases before with
  | nil => exact h
  | cons t before => rfl

/-- What holds of the last of some tokens holds of the tokens in front of it. -/
theorem NoCall.inner {front behind : List Token}
    (h : NoCall (front ++ (covered ++ behind)) rest rest') :
    NoCall covered (behind ++ rest) (behind ++ rest') := by
  cases behind with
  | nil =>
    intro t ht
    exact h t (ht.trans ⟨front, by simp⟩)
  | cons u behind => exact .of_ahead rfl

/-- What goes on with nothing at the end of a piece goes on with nothing inside it. -/
theorem Admits.inner {front behind : List Token}
    (h : Admits (front ++ (covered ++ behind)) rest rest') :
    Admits covered (behind ++ rest) (behind ++ rest') := by
  cases behind with
  | nil => exact ⟨h.noCall.inner, h.product, h.sum⟩
  | cons u behind => exact .of_ahead rfl

/-! ## Productions -/

/-- A derivation covers some tokens, and they have a derivation of the same tree in front of all
other tokens that may stand there. -/
def Refits {X : List Token → List Token → Type} {α : Type} (tree : ∀ {ts rest}, X ts rest → α)
    (May : List Token → List Token → List Token → Prop) {ts rest : List Token} (d : X ts rest) :
    Prop :=
  ∃ covered, ts = covered ++ rest ∧
    ∀ rest', May covered rest rest' → ∃ d' : X (covered ++ rest') rest', tree d' = tree d

namespace Refits

variable {X Y Z : List Token → List Token → Type} {α β γ : Type}
  {treeX : ∀ {ts rest}, X ts rest → α} {treeY : ∀ {ts rest}, Y ts rest → β}
  {treeZ : ∀ {ts rest}, Z ts rest → γ}
  {MayX MayY MayZ : List Token → List Token → List Token → Prop} {mid : List Token}

/-- A piece between tokens. -/
theorem enclosed (front behind : List Token) {x : X ts (behind ++ rest)} (hx : Refits @treeX MayX x)
    (hMay : ∀ {covered rest'}, MayZ (front ++ (covered ++ behind)) rest rest' →
      MayX covered (behind ++ rest) (behind ++ rest'))
    {us : List Token} {d : Z us rest} (hus : us = front ++ ts)
    (make : ∀ {ts' rest'}, X ts' (behind ++ rest') → Z (front ++ ts') rest')
    (htree : ∀ {ts' rest'} (x' : X ts' (behind ++ rest')), treeX x' = treeX x →
      treeZ (make x') = treeZ d) : Refits @treeZ MayZ d := by
  obtain ⟨covered, rfl, hrefit⟩ := hx
  refine ⟨front ++ (covered ++ behind), by simp [hus], fun rest' hrest' => ?_⟩
  obtain ⟨x', hx'⟩ := hrefit (behind ++ rest') (hMay hrest')
  have hassoc : front ++ (covered ++ behind) ++ rest' =
      front ++ (covered ++ (behind ++ rest')) := by
    simp
  rw [hassoc]
  exact ⟨make x', htree x' hx'⟩

/-- A piece and another one behind it, with tokens in front of, between and behind them.  The first
piece looks at what was between them, or at the beginning of the second. -/
theorem joined (front between behind : List Token) {x : X ts (between ++ mid)}
    {y : Y mid (behind ++ rest)} (hx : Refits @treeX MayX x) (hy : Refits @treeY MayY y)
    (hMayX : ∀ {first second rest'}, MayZ (front ++ (first ++ second)) rest rest' →
      MayX first (second ++ rest) (second ++ rest'))
    (hMayY : ∀ {before covered rest'}, MayZ (before ++ (covered ++ behind)) rest rest' →
      MayY covered (behind ++ rest) (behind ++ rest'))
    {us : List Token} {d : Z us rest} (hus : us = front ++ ts)
    (make : ∀ {ts' mid' rest'}, X ts' (between ++ mid') → Y mid' (behind ++ rest') →
      Z (front ++ ts') rest')
    (htree : ∀ {ts' mid' rest'} (x' : X ts' (between ++ mid')) (y' : Y mid' (behind ++ rest')),
      treeX x' = treeX x → treeY y' = treeY y → treeZ (make x' y') = treeZ d) :
    Refits @treeZ MayZ d := by
  obtain ⟨second, rfl, hsecond⟩ := hy
  obtain ⟨first, rfl, hfirst⟩ := hx
  let covered := front ++ (first ++ (between ++ (second ++ behind)))
  refine ⟨covered, by simp [hus, covered], fun rest' hrest' => ?_⟩
  have hmayY : MayZ (front ++ (first ++ between) ++ (second ++ behind)) rest rest' := by
    simpa [covered] using hrest'
  obtain ⟨y', hy'⟩ := hsecond (behind ++ rest') (hMayY hmayY)
  have hmayX := hMayX hrest'
  simp only [List.append_assoc] at hmayX
  obtain ⟨x', hx'⟩ := hfirst (between ++ (second ++ (behind ++ rest'))) hmayX
  have hassoc : covered ++ rest' =
      front ++ (first ++ (between ++ (second ++ (behind ++ rest')))) := by
    simp [covered]
  rw [hassoc]
  exact ⟨make x' y', htree x' y' hx' hy'⟩

end Refits

/-! ## The grammar -/

mutual

/-- A primary is one in front of all tokens that open no call behind it. -/
theorem Primary.refits {ts rest : List Token} : (d : Primary ts rest) →
    Refits @Primary.tree NoCall d
  | .integer t value kind reads => ⟨[t], rfl, fun _ _ => ⟨.integer t value kind reads, rfl⟩⟩
  | .float t value kind reads => ⟨[t], rfl, fun _ _ => ⟨.float t value kind reads, rfl⟩⟩
  | .string t kind => ⟨[t], rfl, fun _ _ => ⟨.string t kind, rfl⟩⟩
  | .name t kind next =>
    ⟨[t], rfl, fun _ h => ⟨.name t kind (h t (List.suffix_refl [t]) kind next), rfl⟩⟩
  | .call name opening closing kinds arguments =>
    .enclosed [name, opening] [closing] arguments.refits (fun _ => .of_ahead rfl) rfl
      (.call name opening closing kinds) fun a h => by simp only [Primary.tree, h]
  | .group opening closing kinds inner =>
    .enclosed [opening] [closing] inner.refits (fun _ => .of_ahead rfl) rfl
      (.group opening closing kinds) fun e h => h
  | .negate minus kind operand =>
    .enclosed [minus] [] operand.refits .inner rfl (.negate minus kind)
      fun e h => by simp only [Primary.tree, h]

/-- Further factors are so in front of all tokens that go on with nothing more. -/
theorem Factors.refits {ts rest : List Token} : (d : Factors ts rest) →
    Refits @Factors.tree Admits d
  | .done next => ⟨[], rfl, fun _ h => ⟨.done (h.product next), rfl⟩⟩
  | .more t op kind factor others =>
    .joined [t] [] [] factor.refits others.refits (fun h => (Admits.inner h).noCall) .inner rfl
      (.more t op kind) fun p f hp hf => by
        funext left
        simp only [Factors.tree, hp, hf]

/-- A product is one in front of all tokens that go on with nothing more. -/
theorem Product.refits {ts rest : List Token} : (d : Product ts rest) →
    Refits @Product.tree Admits d
  | .mk first others =>
    .joined [] [] [] first.refits others.refits (fun h => (Admits.inner h).noCall) .inner rfl .mk
      fun p f hp hf => by simp only [Product.tree, hp, hf]

/-- Further products are so in front of all tokens that go on with nothing more. -/
theorem Summands.refits {ts rest : List Token} : (d : Summands ts rest) →
    Refits @Summands.tree Admits d
  | .done next => ⟨[], rfl, fun _ h => ⟨.done ⟨h.sum next.1, h.product next.2⟩, rfl⟩⟩
  | .more t op kind summand others =>
    .joined [t] [] [] summand.refits others.refits .inner .inner rfl
      (.more t op kind) fun p f hp hf => by
        funext left
        simp only [Summands.tree, hp, hf]

/-- An expression is one in front of all tokens that go on with nothing more. -/
theorem Expression.refits {ts rest : List Token} : (d : Expression ts rest) →
    Refits @Expression.tree Admits d
  | .mk first others =>
    .joined [] [] [] first.refits others.refits .inner .inner rfl .mk
      fun p f hp hf => by simp only [Expression.tree, hp, hf]

/-- Arguments are so in front of all tokens that go on with nothing more. -/
theorem Arguments.refits {ts rest : List Token} : (d : Arguments ts rest) →
    Refits @Arguments.trees Admits d
  | .none => ⟨[], rfl, fun _ _ => ⟨.none, rfl⟩⟩
  | .bare first others =>
    .joined [] [] [] first.refits others.refits .inner .inner rfl .bare
      fun e a he ha => by simp only [Arguments.trees, he, ha]
  | .comma comma kind first others =>
    .joined [] [comma] [] first.refits others.refits .inner .inner rfl (.comma comma kind)
      fun e a he ha => by simp only [Arguments.trees, he, ha]

end

/-- Parameters are so in front of all tokens that go on with nothing more. -/
theorem Parameters.refits (d : Parameters ts rest) : Refits @Parameters.names Admits d := by
  induction d with
  | none => exact ⟨[], rfl, fun _ _ => ⟨.none, rfl⟩⟩
  | bare name kind others ih =>
    exact .enclosed [name] [] ih .inner rfl (.bare name kind)
      fun p h => by simp only [Parameters.names, h]
  | comma name comma kinds others ih =>
    exact .enclosed [name, comma] [] ih .inner rfl (.comma name comma kinds)
      fun p h => by simp only [Parameters.names, h]

/-- An expression has tokens of its own: in front of nothing there is none. -/
theorem Expression.irrefl (d : Expression ts ts) : False := by
  obtain ⟨covered, hts, hrefit⟩ := d.refits
  obtain rfl : covered = [] := List.self_eq_append_left.1 hts
  obtain ⟨d', -⟩ := hrefit [] .nil
  exact absurd d'.begins (by decide)

/-- What is ahead of an expression is the first of its tokens. -/
theorem Expression.ahead_append (d : Expression (covered ++ rest) rest) (rest' : List Token) :
    ahead (covered ++ rest') = ahead covered := by
  cases covered with
  | nil => exact d.irrefl.elim
  | cons t covered => rfl

mutual

/-- A statement is one in front of all tokens that go on with nothing more. -/
theorem Statement.refits {ts rest : List Token} : (d : Statement ts rest) →
    Refits @Statement.tree Admits d
  | .print purr opening closing kinds argument =>
    .enclosed [purr, opening] [closing] argument.refits (fun _ => .of_ahead rfl) rfl
      (.print purr opening closing kinds) fun e h => by simp only [Statement.tree, h]
  | .declare meow name equal kinds value =>
    .enclosed [meow, name, equal] [] value.refits .inner rfl (.declare meow name equal kinds)
      fun e h => by simp only [Statement.tree, h]
  | .ask woof name kinds => ⟨[woof, name], rfl, fun _ _ => ⟨.ask woof name kinds, rfl⟩⟩
  | .trick trick name opening closing left right head parameters kinds body =>
    .joined [trick, name, opening] [closing, left] [right] parameters.refits body.refits
      .inner (fun _ => .of_ahead rfl) rfl
      (fun p b => .trick trick name opening closing left right head p kinds b)
      fun p b hp hb => by simp only [Statement.tree, hp, hb]
  | .call name opening closing kinds arguments =>
    .enclosed [name, opening] [closing] arguments.refits (fun _ => .of_ahead rfl) rfl
      (.call name opening closing kinds) fun a h => by simp only [Statement.tree, h]
  | .name t kind next =>
    ⟨[t], rfl, fun _ h => ⟨.name t kind (h.noCall t (List.suffix_refl [t]) kind next), rfl⟩⟩
  | .expression first value => by
    obtain ⟨covered, rfl, hrefit⟩ := value.refits
    refine ⟨covered, rfl, fun rest' hrest' => ?_⟩
    obtain ⟨value', hvalue'⟩ := hrefit rest' hrest'
    rw [value.ahead_append] at first
    have first' : ahead (covered ++ rest') ≠ .identifier := by rwa [value.ahead_append]
    exact ⟨.expression first' value', by simp only [Statement.tree, hvalue']⟩

/-- Statements are so in front of all tokens that go on with nothing more. -/
theorem Statements.refits {ts rest : List Token} : (d : Statements ts rest) →
    Refits @Statements.trees Admits d
  | .none => ⟨[], rfl, fun _ _ => ⟨.none, rfl⟩⟩
  | .more first others =>
    .joined [] [] [] first.refits others.refits .inner .inner rfl .more
      fun s o hs ho => by simp only [Statements.trees, hs, ho]

end

end CatScript.Grammar
