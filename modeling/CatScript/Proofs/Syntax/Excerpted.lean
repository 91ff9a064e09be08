import CatScript.Proofs.Syntax.Balanced
import CatScript.Proofs.Syntax.Declared
import CatScript.Proofs.Syntax.Joined
import CatScript.Proofs.Syntax.Refit
import CatScript.Proofs.Token.Excerpt

/-!
# What stands under the span of an expression

Parentheses lend an expression no span.  Around a whole expression this does no harm: what is under
its span is then the expression without them.  But an operator takes its span from its operands, so
that a parenthesis in front of a left operand, or behind a right one, is left out while its partner
is not.  Such an excerpt is not balanced, and every other one reads back as the expression that it
was taken from (`Program.ofText_excerpt`).

Along a derivation an expression has nothing but opening parentheses in front of the tokens under
its span and nothing but closing ones behind them (`Framed`).  If the excerpt of an operator is
balanced, then none of these lies between its operands and its ends, and so it is all that the
operator was derived from.  The tokens behind an operand may then be exchanged for the end of the
input, and what has been read of a chain is an expression wherever the chain is broken off
(`Opens`).
-/

set_option autoImplicit false

namespace CatScript

open Grammar
open Token (Balanced Covers Neutral)

/-! ## Excerpts of tokens -/

/-- A span reaches from the first of some tokens through the last. -/
def Span.Over (span : Span) (ts : List Token) : Prop :=
  ∃ first last, ts.head? = some first ∧ ts.getLast? = some last ∧
    span.start = first.span.start ∧ span.stop = last.span.stop

/-- The tokens are an expression of that shape, and nothing else. -/
def Reads (ts : List Token) (shape : Expr.Shape) : Prop := ∃ d : Expression ts [], d.tree = shape

/-- An expression that an operator makes. -/
def Expr.isOperation : Expr → Bool
  | .negate _ _ | .binary _ _ _ _ => true
  | _ => false

/-- The tokens under the span of an expression: if they are balanced, then they are it, and unless
an operator makes it they are. -/
structure Excerpt (ts : List Token) (e : Expr) : Prop where
  spans : e.span.Over ts
  balanced : e.isOperation = false → Balanced ts
  reads : Balanced ts → Reads ts e.shape

/-- For every expression in a node, some of the tokens are those under its span. -/
def Excerpts (ts : List Token) (n : Node) : Prop :=
  ∀ e, n.Contains (.expression e) →
    ∃ before covered after, ts = before ++ (covered ++ after) ∧ Excerpt covered e

/-- From some tokens up to others, there are those under the span of an expression, with nothing
but opening parentheses in front of them and nothing but closing ones behind them. -/
def Framed (ts rest : List Token) (e : Expr) : Prop :=
  ∃ openings covered closings, ts = openings ++ (covered ++ (closings ++ rest)) ∧
    (∀ t ∈ openings, t.kind = .leftParen) ∧ (∀ t ∈ closings, t.kind = .rightParen) ∧
      Excerpt covered e

variable {ts mid rest us : List Token} {t : Token}

/-- The span of a token reaches over the token. -/
theorem Span.Over.singleton (t : Token) : t.span.Over [t] := ⟨t, t, rfl, rfl, rfl, rfl⟩

/-- From a token through the end of another span. -/
theorem Span.Over.prefixed {span : Span} (h : span.Over ts) (t : Token) (before : List Token) :
    (t.span.through span).Over (t :: (before ++ ts)) := by
  obtain ⟨-, last, -, hlast, -, hstop⟩ := h
  refine ⟨t, last, rfl, ?_, rfl, hstop⟩
  rw [← List.cons_append, List.getLast?_append, hlast]
  rfl

/-- From the beginning of a span through the end of another one. -/
theorem Span.Over.joined {left right : Span} (hleft : left.Over ts) (hright : right.Over us)
    (between : List Token) : (left.through right).Over (ts ++ (between ++ us)) := by
  obtain ⟨first, -, hfirst, -, hstart, -⟩ := hleft
  obtain ⟨-, last, -, hlast, -, hstop⟩ := hright
  refine ⟨first, last, ?_, ?_, hstart, hstop⟩
  · rw [List.head?_append, hfirst]
    rfl
  · rw [List.getLast?_append, List.getLast?_append, hlast]
    rfl

namespace Excerpts

variable {n : Node}

/-- What has its excerpts among the last of some tokens has them among all of them. -/
theorem of_suffix (h : Excerpts ts n) (hts : ts <:+ us) : Excerpts us n := by
  obtain ⟨front, rfl⟩ := hts
  intro e he
  obtain ⟨before, covered, after, rfl, hexcerpt⟩ := h e he
  exact ⟨front ++ before, covered, after, (List.append_assoc ..).symm, hexcerpt⟩

/-- The expressions in a statement are those in its children. -/
theorem statement {s : Stmt} (h : ∀ child ∈ (Node.statement s).children, Excerpts ts child) :
    Excerpts ts (.statement s) := by
  intro e he
  obtain heq | ⟨child, hchild, hbelow⟩ := (Node.contains_iff _ _).1 he
  · exact Node.noConfusion heq
  · exact h child hchild e hbelow

/-- The expressions in a statement with one child are those in the child. -/
theorem only {s : Stmt} {child : Node} (hs : (Node.statement s).children = [child])
    (h : Excerpts ts child) : Excerpts ts (.statement s) := by
  refine .statement fun child' hchild => ?_
  rw [hs, List.mem_singleton] at hchild
  rwa [hchild]

/-- There are no expressions in a parameter. -/
theorem parameter (p : Parameter) : Excerpts ts (.parameter p) := by
  intro e he
  obtain heq | ⟨child, hchild, -⟩ := (Node.contains_iff _ _).1 he
  · exact Node.noConfusion heq
  · exact absurd hchild List.not_mem_nil

/-- The expressions in an expression are itself and those in its children. -/
theorem expression {e : Expr} (hframed : Framed ts rest e)
    (h : ∀ child ∈ (Node.expression e).children, Excerpts ts child) :
    Excerpts ts (.expression e) := by
  intro e' he'
  obtain heq | ⟨child, hchild, hbelow⟩ := (Node.contains_iff _ _).1 he'
  · obtain ⟨openings, covered, closings, hts, -, -, hexcerpt⟩ := hframed
    rw [Node.expression.inj heq]
    exact ⟨openings, covered, closings ++ rest, hts, hexcerpt⟩
  · exact h child hchild e' hbelow

end Excerpts

/-! ## Expressions that stand alone -/

namespace Grammar

variable {covered tail : List Token}

/-- Tokens that begin in the same way, or none at all, go on with nothing more. -/
theorem Admits.of_ahead_or_nil (h : ahead tail = ahead rest ∨ tail = []) :
    Admits covered rest tail := by
  obtain h | rfl := h
  · exact .of_ahead h
  · exact .nil

/-- A primary can be carried in front of any tokens that go on with nothing more. -/
theorem Primary.refits_admits (d : Primary ts rest) : Refits @Primary.tree Admits d := by
  obtain ⟨covered, hts, hrefit⟩ := d.refits
  exact ⟨covered, hts, fun rest' hrest' => hrefit rest' hrest'.noCall⟩

/-- In front of nothing else, a primary is an expression. -/
theorem Primary.reads (d : Primary ts rest) (hts : ts = covered ++ rest) :
    Reads covered d.expr.shape := by
  obtain ⟨covered', hts', hrefit⟩ := d.refits
  obtain rfl := List.append_cancel_right (hts.symm.trans hts')
  have h := hrefit [] Admits.nil.noCall
  rw [List.append_nil] at h
  obtain ⟨d', hd'⟩ := h
  exact ⟨.mk (.mk d' (.done rfl)) (.done ⟨rfl, rfl⟩), hd'.trans d.shape_expr.symm⟩

end Grammar

/-- The tokens from `ts` up to `mid` are the beginning of an expression: with a continuation behind
them, of the kind `F`, they are an expression.  The continuation begins with a token of the kind
that follows them here, or is nothing at all. -/
def Opens {F : List Token → List Token → Type}
    (tree : ∀ {ts rest}, F ts rest → Expr.Shape → Expr.Shape) (ts mid : List Token)
    (shape : Expr.Shape) : Prop :=
  ∃ covered, ts = covered ++ mid ∧
    ∀ tail, ahead tail = ahead mid ∨ tail = [] → ∀ f : F tail [],
      Reads (covered ++ tail) (tree f shape)

namespace Opens

variable {X F : List Token → List Token → Type} {treeX : ∀ {ts rest}, X ts rest → Expr.Shape}
  {treeF : ∀ {ts rest}, F ts rest → Expr.Shape → Expr.Shape} {shape : Expr.Shape}

/-- What has been read so far is an expression if it is broken off. -/
theorem reads (h : Opens @treeF ts rest shape) (done : F [] []) (hdone : treeF done shape = shape)
    {covered : List Token} (hcovered : ts = covered ++ rest) : Reads covered shape := by
  obtain ⟨covered', hts, hopens⟩ := h
  obtain rfl := List.append_cancel_right (hcovered.symm.trans hts)
  have hreads := hopens [] (.inr rfl) done
  rwa [List.append_nil, hdone] at hreads

/-- A chain begins with its first member. -/
theorem first {x : X ts mid} (hx : Refits @treeX Admits x)
    (whole : ∀ {ts mid}, X ts mid → F mid [] → Expression ts [])
    (hwhole : ∀ {ts mid} (x : X ts mid) (f : F mid []), (whole x f).tree = treeF f (treeX x)) :
    Opens @treeF ts mid (treeX x) := by
  obtain ⟨covered, hts, hrefit⟩ := hx
  refine ⟨covered, hts, fun tail htail f => ?_⟩
  obtain ⟨x', hx'⟩ := hrefit tail (.of_ahead_or_nil htail)
  exact ⟨whole x' f, by rw [hwhole, hx']⟩

/-- A further member continues a chain. -/
theorem more {op : BinaryOp} {left : Expr.Shape} (h : Opens @treeF ts (t :: mid) left)
    {x : X mid rest} (hx : Refits @treeX Admits x)
    (make : ∀ {mid rest}, X mid rest → F rest [] → F (t :: mid) [])
    (hmake : ∀ {mid rest} (x : X mid rest) (f : F rest []),
      treeF (make x f) left = treeF f (.binary op left (treeX x))) :
    Opens @treeF ts rest (.binary op left (treeX x)) := by
  obtain ⟨before, rfl, hopens⟩ := h
  obtain ⟨covered, rfl, hrefit⟩ := hx
  refine ⟨before ++ t :: covered, by simp, fun tail htail f => ?_⟩
  obtain ⟨x', hx'⟩ := hrefit tail (.of_ahead_or_nil htail)
  have hreads := hopens (t :: (covered ++ tail)) (.inl rfl) (make x' f)
  rw [hmake, hx'] at hreads
  simpa using hreads

end Opens

/-! ## The frame of an expression -/

namespace Framed

variable {e left right : Expr}

/-- An expression whose span leaves out nothing. -/
theorem bare {covered : List Token} (hcovers : Covers ts rest) (hts : ts = covered ++ rest)
    (hspan : e.span.Over covered) (hreads : Reads covered e.shape) : Framed ts rest e :=
  ⟨[], covered, [], hts, by simp, by simp, hspan, fun _ => hcovers.balanced hts, fun _ => hreads⟩

/-- Parentheses around an expression belong to its frame. -/
theorem grouped {opening closing : Token} (hopening : opening.kind = .leftParen)
    (hclosing : closing.kind = .rightParen) (h : Framed ts (closing :: rest) e) :
    Framed (opening :: ts) rest e := by
  obtain ⟨openings, covered, closings, rfl, hopenings, hclosings, hexcerpt⟩ := h
  refine ⟨opening :: openings, covered, closings ++ [closing], by simp, ?_, ?_, hexcerpt⟩
  · exact List.forall_mem_cons.2 ⟨hopening, hopenings⟩
  · exact List.forall_mem_append.2 ⟨hclosings, by simpa using hclosing⟩

/-- If a minus and what follows it are balanced as far as the span of the operand reaches, then
nothing is left out behind the operand. -/
theorem negated (hminus : t.kind = .minus) (hcovers : Covers ts rest) (h : Framed ts rest e)
    (hreads : ∀ {covered}, t :: ts = covered ++ rest → Reads covered (.negate e.shape)) :
    Framed (t :: ts) rest (.negate e (t.span.through e.span)) := by
  obtain ⟨openings, covered, closings, rfl, -, hclosings, hexcerpt⟩ := h
  refine ⟨[], t :: (openings ++ covered), closings, by simp, by simp, hclosings,
    hexcerpt.spans.prefixed t openings, fun h => Bool.noConfusion h,
    fun hbalanced => hreads ?_⟩
  have hoperand : Balanced (openings ++ covered) :=
    (Balanced.neutral_cons_iff (.of_kind hminus (by decide))).1 hbalanced
  have hall : Balanced ((openings ++ covered) ++ closings) := hcovers.balanced (by simp)
  obtain rfl := (hoperand.append_iff.1 hall).eq_nil_of_closings hclosings
  simp

/-- If an operator and what is next to it are balanced as far as the spans of the operands reach,
then nothing is left out in front of the first or behind the second. -/
theorem joined {op : BinaryOp} (ht : Neutral t) (hleft : Covers ts (t :: mid))
    (hright : Covers mid rest) (h : Framed ts (t :: mid) left) (h' : Framed mid rest right)
    (hreads : ∀ {covered}, ts = covered ++ rest →
      Reads covered (.binary op left.shape right.shape)) :
    Framed ts rest (.binary op left right (left.span.through right.span)) := by
  obtain ⟨openings, covered, closings, rfl, hopenings, -, hexcerpt⟩ := h
  obtain ⟨openings', covered', closings', rfl, -, hclosings', hexcerpt'⟩ := h'
  refine ⟨openings, covered ++ ((closings ++ t :: openings') ++ covered'), closings', by simp,
    hopenings, hclosings', hexcerpt.spans.joined hexcerpt'.spans _, fun h => Bool.noConfusion h,
    fun hbalanced => hreads ?_⟩
  have hbefore : Balanced (openings ++ (covered ++ closings)) := hleft.balanced (by simp)
  have hbehind : Balanced ((openings' ++ covered') ++ closings') := hright.balanced (by simp)
  have hbalanced' : Balanced ((covered ++ closings) ++ t :: (openings' ++ covered')) := by
    simpa using hbalanced
  obtain rfl := Balanced.eq_nil_of_openings hopenings hbefore hbalanced'
  -- The left operand is balanced by itself now, and so is the rest of the excerpt.
  have hrest := (Balanced.neutral_cons_iff ht).1 ((Balanced.append_iff hbefore).1 hbalanced')
  obtain rfl := (hrest.append_iff.1 hbehind).eq_nil_of_closings hclosings'
  simp

end Framed

/-! ## Derivations -/

/-- From some tokens up to others, there is an expression with its frame, and the expressions in it
have their excerpts. -/
structure Laid (ts rest : List Token) (e : Expr) : Prop where
  covers : Covers ts rest
  framed : Framed ts rest e
  excerpts : Excerpts ts (.expression e)

/-- An operator between two expressions. -/
theorem Laid.joined {left right : Expr} {op : BinaryOp} (h : Laid ts (t :: mid) left)
    (ht : Neutral t) (h' : Laid mid rest right)
    (hreads : ∀ {covered}, ts = covered ++ rest →
      Reads covered (.binary op left.shape right.shape)) :
    Laid ts rest (.binary op left right (left.span.through right.span)) := by
  have hframed := h.framed.joined ht h.covers h'.covers h'.framed hreads
  refine ⟨h.covers.trans (h'.covers.cons ht), hframed, .expression hframed ?_⟩
  have hmid : mid <:+ ts := by
    obtain ⟨covered, rfl, -⟩ := h.covers
    exact (List.suffix_cons t mid).trans (List.suffix_append covered _)
  intro child hchild
  obtain rfl | hchild := List.mem_cons.1 hchild
  · exact h.excerpts
  · rw [List.mem_singleton.1 hchild]
    exact h'.excerpts.of_suffix hmid

namespace Grammar

/-- A primary that is one token. -/
theorem Primary.laid_token (d : Primary (t :: rest) rest) (hspan : d.expr.span = t.span)
    (hchildren : (Node.expression d.expr).children = []) : Laid (t :: rest) rest d.expr := by
  have hframed : Framed (t :: rest) rest d.expr :=
    .bare d.covers (List.singleton_append ..).symm (hspan ▸ Span.Over.singleton t) (d.reads rfl)
  refine ⟨d.covers, hframed, .expression hframed ?_⟩
  simp [hchildren]

/-- A call reaches through its closing parenthesis. -/
theorem Primary.framed_call {name opening closing : Token}
    (kinds : name.kind = .identifier ∧ opening.kind = .leftParen ∧ closing.kind = .rightParen)
    (arguments : Arguments ts (closing :: rest)) :
    Framed (name :: opening :: ts) rest
      (Primary.call name opening closing kinds arguments).expr := by
  obtain ⟨covered, hcovered, -⟩ := arguments.covers
  have hts : name :: opening :: ts = (name :: ((opening :: covered) ++ [closing])) ++ rest := by
    simp [hcovered]
  have hspan := (Span.Over.singleton closing).prefixed name (opening :: covered)
  let d := Primary.call name opening closing kinds arguments
  exact .bare d.covers hts hspan (d.reads hts)

mutual

/-- What a derivation stands for is laid out along the tokens that it covers. -/
theorem Primary.laid {ts rest : List Token} : (d : Primary ts rest) → Laid ts rest d.expr
  | .integer t value kind reads => Primary.laid_token (.integer t value kind reads) rfl rfl
  | .float t value kind reads => Primary.laid_token (.float t value kind reads) rfl rfl
  | .string t kind => Primary.laid_token (.string t kind) rfl rfl
  | .name t kind next => Primary.laid_token (.name t kind next) rfl rfl
  | .call name opening closing kinds arguments => by
    have hframed := Primary.framed_call kinds arguments
    refine ⟨(Primary.call name opening closing kinds arguments).covers, hframed,
      .expression hframed ?_⟩
    intro child hchild
    obtain ⟨e, he, rfl⟩ := List.mem_map.1 hchild
    exact (arguments.excerpts e he).of_suffix (List.suffix_append [name, opening] _)
  | .group opening closing kinds inner =>
    ⟨(Primary.group opening closing kinds inner).covers,
      inner.laid.framed.grouped kinds.1 kinds.2,
      inner.laid.excerpts.of_suffix (List.suffix_cons opening _)⟩
  | .negate minus kind operand => by
    have hframed := operand.laid.framed.negated kind operand.laid.covers
      (Primary.negate minus kind operand).reads
    refine ⟨operand.laid.covers.cons (.of_kind kind (by decide)), hframed,
      .expression hframed ?_⟩
    intro child hchild
    rw [List.mem_singleton.1 hchild]
    exact operand.laid.excerpts.of_suffix (List.suffix_cons minus _)

/-- Further factors behind an expression that is laid out leave it laid out. -/
theorem Factors.laid {mid rest : List Token} : (d : Factors mid rest) → ∀ {ts : List Token}
    {left : Expr}, Laid ts mid left → Opens @Factors.tree ts mid left.shape →
      Laid ts rest (d.expr left)
  | .done _, _, _, h, _ => h
  | .more t op kind factor others, _, _, h, hopens => by
    have hopens' := hopens.more factor.refits_admits (.more t op kind) fun _ _ => rfl
    rw [← factor.shape_expr] at hopens'
    exact others.laid (h.joined (neutral_of_productOp? kind) factor.laid
      (hopens'.reads (.done rfl) rfl)) hopens'

/-- A product is laid out. -/
theorem Product.laid {ts rest : List Token} : (d : Product ts rest) → Laid ts rest d.expr
  | .mk first others => by
    have hopens : Opens @Factors.tree ts _ first.tree :=
      .first first.refits_admits (fun x f => .mk (.mk x f) (.done ⟨rfl, rfl⟩))
        fun _ _ => rfl
    rw [← first.shape_expr] at hopens
    exact others.laid first.laid hopens

/-- Further products behind an expression that is laid out leave it laid out. -/
theorem Summands.laid {mid rest : List Token} : (d : Summands mid rest) → ∀ {ts : List Token}
    {left : Expr}, Laid ts mid left → Opens @Summands.tree ts mid left.shape →
      Laid ts rest (d.expr left)
  | .done _, _, _, h, _ => h
  | .more t op kind summand others, _, _, h, hopens => by
    have hopens' := hopens.more summand.refits (.more t op kind) fun _ _ => rfl
    rw [← summand.shape_expr] at hopens'
    exact others.laid (h.joined (neutral_of_sumOp? kind) summand.laid
      (hopens'.reads (.done ⟨rfl, rfl⟩) rfl)) hopens'

/-- An expression is laid out. -/
theorem Expression.laid {ts rest : List Token} : (d : Expression ts rest) → Laid ts rest d.expr
  | .mk first others => by
    have hopens : Opens @Summands.tree ts _ first.tree :=
      .first first.refits .mk fun _ _ => rfl
    rw [← first.shape_expr] at hopens
    exact others.laid first.laid hopens

/-- All expressions in arguments have their excerpts. -/
theorem Arguments.excerpts {ts rest : List Token} : (d : Arguments ts rest) →
    ∀ e ∈ d.exprs, Excerpts ts (.expression e)
  | .none => by simp [Arguments.exprs]
  | .bare first others => List.forall_mem_cons.2 ⟨first.laid.excerpts,
      fun e he => (others.excerpts e he).of_suffix first.suffix⟩
  | .comma comma _ first others => List.forall_mem_cons.2 ⟨first.laid.excerpts,
      fun e he => (others.excerpts e he).of_suffix ((List.suffix_cons comma _).trans first.suffix)⟩

end

mutual

/-- The expressions in a statement have their excerpts. -/
theorem Statement.excerpts {ts rest : List Token} : (d : Statement ts rest) →
    Excerpts ts (.statement d.stmt)
  | .print purr opening _ _ argument => .only rfl <| argument.laid.excerpts.of_suffix
      (List.suffix_append [purr, opening] _)
  | .declare meow name equal _ value => .only rfl <| value.laid.excerpts.of_suffix
      (List.suffix_append [meow, name, equal] _)
  | .ask _ _ _ | .name _ _ _ => .statement fun _ hchild => absurd hchild List.not_mem_nil
  | .trick trick name opening closing left right head parameters _ body => by
    have hbody := (List.suffix_append [closing, left] _).trans parameters.suffix
    refine .statement fun child hchild => ?_
    obtain hchild | hchild := List.mem_append.1 hchild
    · obtain ⟨p, -, rfl⟩ := List.mem_map.1 hchild
      exact .parameter p
    · obtain ⟨s, hs, rfl⟩ := List.mem_map.1 hchild
      exact (body.excerpts s hs).of_suffix
        (hbody.trans (List.suffix_append [trick, name, opening] _))
  | .call name opening closing kinds arguments =>
    .only rfl (Primary.call name opening closing kinds arguments).laid.excerpts
  | .expression _ value => .only rfl value.laid.excerpts

/-- The expressions in statements have their excerpts. -/
theorem Statements.excerpts {ts rest : List Token} : (d : Statements ts rest) →
    ∀ s ∈ d.stmts, Excerpts ts (.statement s)
  | .none => by simp [Statements.stmts]
  | .more first others => List.forall_mem_cons.2 ⟨first.excerpts,
      fun s hs => (others.excerpts s hs).of_suffix first.suffix⟩

end

end Grammar

/-! ## Programs of a text -/

open Token (script)

/-- For every expression in a program, some of the tokens are those under its span. -/
theorem Program.excerpt_of_contains {tokens : List Token} {program : Program}
    (h : Program.ofTokens tokens = .ok program) {e : Expr} (he : program.Contains (.expression e)) :
    ∃ before covered after, script tokens = before ++ (covered ++ after) ∧ Excerpt covered e := by
  obtain ⟨d, rfl⟩ := (ofTokens_eq_ok_iff (script tokens) program).1 (Program.ofTokens_script h)
  obtain ⟨top, htop, hbelow⟩ := he
  obtain ⟨s, hs, rfl⟩ := List.mem_map.1 htop
  exact d.statements.excerpts s hs e hbelow

/-- Tokens that are an expression derive one in front of the end of the input. -/
theorem Reads.derives {last : Token} {shape : Expr.Shape} (h : Reads ts shape)
    (hlast : last.kind = .endOfInput) :
    Derives @Expression.tree shape (fun rest => ahead rest = .endOfInput) (ts ++ [last]) := by
  obtain ⟨d, rfl⟩ := h
  obtain ⟨covered, hcovered, hrefit⟩ := d.refits
  obtain rfl : ts = covered := by rwa [List.append_nil] at hcovered
  obtain ⟨d', hd'⟩ := hrefit [last] (.of_ahead hlast)
  exact ⟨[last], hlast, d', hd'⟩

/-- Tokens in front of the end of the input that derive an expression with nothing left over are
balanced. -/
theorem Derives.balanced {last : Token} {shape : Expr.Shape}
    (h : Derives @Expression.tree shape (fun rest => ahead rest = .endOfInput) (ts ++ [last]))
    (hlast : last.kind = .endOfInput) (hkinds : ∀ t ∈ ts, t.kind ≠ .endOfInput) :
    Balanced ts := by
  obtain ⟨rest, hrest, d, -⟩ := h
  obtain ⟨covered, hts, hbalanced⟩ := d.covers
  obtain ⟨more, rfl, hmore⟩ | ⟨more, rfl, rfl⟩ := List.append_eq_append_iff.1 hts
  · have hend : Balanced [last] := .singleton hlast (by decide)
    obtain ⟨rfl, -⟩ | ⟨rfl, -⟩ := List.singleton_eq_append_iff.1 hmore
    · simpa using hbalanced
    · exact hend.append_left_iff.1 hbalanced
  · cases more with
    | nil => simpa using hbalanced
    | cons t more => exact absurd hrest (hkinds t (by simp))

/-- The text under the span of an expression has tokens, and as the value of a declaration it is
that expression up to spans if its parentheses are balanced, and only then.  They are balanced for
every literal, every name and every call. -/
theorem Program.ofText_excerpt (source : String) (program : Program)
    (h : Program.ofText source = .ok program) (e : Expr) (he : program.Contains (.expression e))
    (name : String) (hname : IsName name) :
    ∃ ts, Token.ofText (e.span.textIn source) = .ok ts ∧
      ((∃ declared, Program.ofText (declaration name (e.span.textIn source)) = .ok declared ∧
        declared.shape = [.declare name e.shape]) ↔ Balanced ts) ∧
      (e.isOperation = false → Balanced ts) := by
  obtain ⟨tokens, htokens, hprogram⟩ := Program.exists_tokens h
  obtain ⟨last, hscript, -⟩ := (Token.ofText_tiles source tokens htokens).exists_eq_script_append
  obtain ⟨before, covered, after, hcovered, hexcerpt⟩ := Program.excerpt_of_contains hprogram he
  obtain ⟨first, final, hfirst, hfinal, hstart, hstop⟩ := hexcerpt.spans
  have hkinds : ∀ t ∈ covered, t.kind ≠ .endOfInput := fun t ht =>
    @kind_ne_of_mem_script tokens t (by simp [hcovered, ht])
  rw [hscript, hcovered, List.append_assoc, List.append_assoc] at htokens
  obtain ⟨p, stop, hscan, hend⟩ :=
    Token.scanFrom_excerpt htokens hfirst hfinal hkinds hstart hstop
  have htext : (e.span.textIn source).toList = e.span.excerpt source.toList :=
    String.toList_ofList
  rw [← htext] at hscan
  obtain ⟨ts, hts, halike⟩ := Token.exists_alike_scanFrom hscan .start
  refine ⟨ts, hts, ?_⟩
  have hstopped : Balanced [stop] := .singleton hend (by decide)
  rw [Program.ofText_declaration_iff hname hscan, ← Token.balanced_alike halike,
    hstopped.append_left_iff]
  exact ⟨⟨fun hderives => hderives.balanced hend hkinds,
    fun hbalanced => (hexcerpt.reads hbalanced).derives hend⟩, hexcerpt.balanced⟩

/-- A negated call whose argument stands in parentheses. -/
def negatedCall : Expr :=
  .negate (.call "f" [.integer 1 ⟨9, 10, 1, 10⟩] ⟨6, 12, 1, 7⟩) ⟨5, 12, 1, 6⟩

/-- The excerpt of `negatedCall` is balanced, so it reads back. -/
theorem Program.ofText_excerpt_negatedCall :
    Program.ofText "purr(-f((1)))" = .ok ⟨[.print negatedCall ⟨0, 13, 1, 1⟩]⟩ ∧
      negatedCall.span.textIn "purr(-f((1)))" = "-f((1))" ∧
      ∃ declared, Program.ofText (declaration "v" "-f((1))") = .ok declared ∧
        declared.shape = [.declare "v" negatedCall.shape] := by
  have hprogram : Program.ofText "purr(-f((1)))" =
      .ok ⟨[.print negatedCall ⟨0, 13, 1, 1⟩]⟩ := by cbv
  have htext : negatedCall.span.textIn "purr(-f((1)))" = "-f((1))" := by cbv
  have hcontains : Program.Contains ⟨[.print negatedCall ⟨0, 13, 1, 1⟩]⟩
      (.expression negatedCall) :=
    ⟨_, List.mem_singleton_self _, .deeper (List.mem_singleton_self _) (.here _)⟩
  obtain ⟨ts, hts, hreads, -⟩ :=
    Program.ofText_excerpt _ _ hprogram _ hcontains "v" (by decide)
  rw [htext] at hts hreads
  have htokens : Token.ofText "-f((1))" = .ok
      [⟨.minus, "-", ⟨0, 1, 1, 1⟩⟩, ⟨.identifier, "f", ⟨1, 2, 1, 2⟩⟩,
        ⟨.leftParen, "(", ⟨2, 3, 1, 3⟩⟩, ⟨.leftParen, "(", ⟨3, 4, 1, 4⟩⟩,
        ⟨.integer, "1", ⟨4, 5, 1, 5⟩⟩, ⟨.rightParen, ")", ⟨5, 6, 1, 6⟩⟩,
        ⟨.rightParen, ")", ⟨6, 7, 1, 7⟩⟩, ⟨.endOfInput, "", ⟨7, 8, 1, 8⟩⟩] := by cbv
  obtain rfl := Except.ok.inj (hts.symm.trans htokens)
  exact ⟨hprogram, htext, hreads.2 (by decide)⟩

/-- A negated string, which stands in parentheses in the text. -/
def negatedGroup : Expr := .negate (.string "a" ⟨2, 5, 1, 3⟩) ⟨0, 5, 1, 1⟩

/-- A minus in front of parentheses takes its span from what is in them: the excerpt has the opening
one and not the closing one, and as the value of a declaration it is no program. -/
theorem Program.ofText_excerpt_lopsided :
    Program.ofText "-(\"a\")" = .ok ⟨[.expression negatedGroup ⟨0, 5, 1, 1⟩]⟩ ∧
      Program.Contains ⟨[.expression negatedGroup ⟨0, 5, 1, 1⟩]⟩ (.expression negatedGroup) ∧
      negatedGroup.span.textIn "-(\"a\")" = "-(\"a\"" ∧
      ¬ ∃ declared, Program.ofText (declaration "v" (negatedGroup.span.textIn "-(\"a\")")) =
        .ok declared ∧ declared.shape = [.declare "v" negatedGroup.shape] := by
  have htext : negatedGroup.span.textIn "-(\"a\")" = "-(\"a\"" := by cbv
  refine ⟨by cbv, ⟨_, List.mem_singleton_self _, .deeper (List.mem_singleton_self _) (.here _)⟩,
    htext, ?_⟩
  have herror : Program.ofText (declaration "v" "-(\"a\"") =
      .error ⟨.unexpectedToken (.token .rightParen) .endOfInput, ⟨14, 15, 1, 15⟩,
        some Expr.groupHelp⟩ := by
    cbv
  rintro ⟨declared, hdeclared, -⟩
  rw [htext, herror] at hdeclared
  cases hdeclared

end CatScript
