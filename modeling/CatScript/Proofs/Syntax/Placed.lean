import CatScript.Proofs.Syntax.Grammar.Complete
import CatScript.Proofs.Syntax.Node
import CatScript.Proofs.Token.Tiling

/-!
# Where the nodes of a program stand

Every node of a program that was read from a text reaches from the beginning of one token to the
end of another, its children lie inside it, and neighbours follow one another without touching each
other's characters.  The span of a node is put together in many ways: through a closing token,
through its last child, or from its first child through its last, where parentheses around a child
lend it no span.  `Stands` is what all these ways have in common: nodes that stand between two
offsets, one behind the other.  Along a derivation the two offsets are those of the next token
before and after it (`Segment`), so that the parts of a derivation meet at one offset and their
nodes can be put side by side.
-/

set_option autoImplicit false

namespace CatScript

/-- A node reaches from one of the tokens through another, and its children lie inside it one
behind the other. -/
structure Node.Fits (tokens : List Token) (n : Node) : Prop where
  spanned : ∃ first ∈ tokens, ∃ last ∈ tokens,
    n.span = first.span.through last.span ∧ first.span.start < last.span.stop
  within : ∀ child ∈ n.children, n.span.start ≤ child.span.start ∧ child.span.stop ≤ n.span.stop
  ordered : n.children.Pairwise fun a b => a.span.stop ≤ b.span.start

/-- Everything in a node fits the tokens. -/
def Node.FitsThroughout (tokens : List Token) (n : Node) : Prop :=
  ∀ m, n.Contains m → m.Fits tokens

/-- Where a node stands in a text with the given tokens: it covers characters of the text from the
beginning of a token to the end of one, it knows the line and the column of the first of them, and
its children lie inside it one behind the other. -/
structure Node.Placed (text : List Char) (tokens : List Token) (n : Node) : Prop where
  nonempty : n.span.start < n.span.stop
  inside : n.span.stop ≤ text.length
  first : ∃ t ∈ tokens, t.span.start = n.span.start
  last : ∃ t ∈ tokens, t.span.stop = n.span.stop
  line : n.span.line = Position.lineBehind (text.take n.span.start)
  column : n.span.column = Position.columnBehind (text.take n.span.start)
  within : ∀ child ∈ n.children, n.span.start ≤ child.span.start ∧ child.span.stop ≤ n.span.stop
  ordered : n.children.Pairwise fun a b => a.span.stop ≤ b.span.start

variable {tokens : List Token}

/-- A node that fits covers something. -/
theorem Node.Fits.start_lt_stop {n : Node} (h : n.Fits tokens) : n.span.start < n.span.stop := by
  obtain ⟨first, -, last, -, hspan, hlt⟩ := h.spanned
  rw [hspan]
  exact hlt

/-- A node that fits throughout fits itself. -/
theorem Node.FitsThroughout.fits {n : Node} (h : n.FitsThroughout tokens) : n.Fits tokens :=
  h n (.here n)

/-- A node that fits and whose children fit throughout fits throughout. -/
theorem Node.Fits.throughout {n : Node} (h : n.Fits tokens)
    (hchildren : ∀ child ∈ n.children, child.FitsThroughout tokens) : n.FitsThroughout tokens := by
  intro m hm
  obtain rfl | ⟨child, hchild, hbelow⟩ := (n.contains_iff m).1 hm
  · exact h
  · exact hchildren child hchild m hbelow

/-! ## Nodes one behind the other -/

/-- Nodes that fit the tokens throughout and stand between two offsets, one behind the other. -/
structure Stands (tokens : List Token) (lo hi : Nat) (nodes : List Node) : Prop where
  le : lo ≤ hi
  fits : ∀ n ∈ nodes, n.FitsThroughout tokens
  bounds : ∀ n ∈ nodes, lo ≤ n.span.start ∧ n.span.stop ≤ hi
  ordered : nodes.Pairwise fun a b => a.span.stop ≤ b.span.start

namespace Stands

variable {lo mid hi : Nat} {nodes others : List Node}

/-- No nodes stand anywhere. -/
theorem nil (h : lo ≤ hi) : Stands tokens lo hi [] :=
  ⟨h, by simp, by simp, .nil⟩

/-- Nodes that stand in front of others stand with them. -/
theorem append (h : Stands tokens lo mid nodes) (h' : Stands tokens mid hi others) :
    Stands tokens lo hi (nodes ++ others) := by
  refine ⟨h.le.trans h'.le, ?_, ?_, List.pairwise_append.2 ⟨h.ordered, h'.ordered, ?_⟩⟩
  · intro n hn
    exact (List.mem_append.1 hn).elim (h.fits n) (h'.fits n)
  · intro n hn
    obtain hn | hn := List.mem_append.1 hn
    · exact ⟨(h.bounds n hn).1, (h.bounds n hn).2.trans h'.le⟩
    · exact ⟨h.le.trans (h'.bounds n hn).1, (h'.bounds n hn).2⟩
  · intro a ha b hb
    exact (h.bounds a ha).2.trans (h'.bounds b hb).1

/-- A node over nodes that stand one behind the other: it reaches from a token that does not begin
behind the first of them through a token that does not end in front of the last. -/
theorem parent {n : Node} (h : Stands tokens lo hi n.children) {first last : Token}
    (hfirst : first ∈ tokens) (hlast : last ∈ tokens)
    (hspan : n.span = first.span.through last.span) (hlt : first.span.start < last.span.stop)
    (hlo : lo ≤ first.span.start) (hhi : last.span.stop ≤ hi)
    (hchildren : ∀ child ∈ n.children,
      first.span.start ≤ child.span.start ∧ child.span.stop ≤ last.span.stop) :
    Stands tokens lo hi [n] := by
  have hfits : n.Fits tokens := by
    refine ⟨⟨first, hfirst, last, hlast, hspan, hlt⟩, ?_, h.ordered⟩
    rw [hspan]
    exact hchildren
  refine ⟨h.le, ?_, ?_, List.pairwise_singleton _ _⟩
  · intro m hm
    rw [List.mem_singleton.1 hm]
    exact hfits.throughout h.fits
  · intro m hm
    rw [List.mem_singleton.1 hm, hspan]
    exact ⟨hlo, hhi⟩

end Stands

/-! ## Segments of a line of tokens -/

/-- Tokens that cover something, one behind the other, up to an offset. -/
structure Token.InLine (finish : Nat) (tokens : List Token) : Prop where
  nonempty : ∀ t ∈ tokens, t.span.start < t.span.stop ∧ t.span.stop ≤ finish
  ordered : tokens.Pairwise fun a b => a.span.stop ≤ b.span.start

/-- The offset at which the next token begins, or the offset at which all of them end. -/
def Token.edge (finish : Nat) (ts : List Token) : Nat :=
  (ts.head?.map (·.span.start)).getD finish

/-- The tokens from `ts` up to `rest` hold nodes that stand one behind the other. -/
def Segment (finish : Nat) (tokens ts rest : List Token) (nodes : List Node) : Prop :=
  ts <:+ tokens →
    rest <:+ tokens ∧ Stands tokens (Token.edge finish ts) (Token.edge finish rest) nodes

section Segments

open Token (edge InLine)

variable {finish : Nat} {ts mid rest : List Token} {t closing : Token} {n child : Node}
  {nodes others : List Node}

/-- The next token of some in line is one of them, and ends where the one behind it can begin. -/
theorem Token.InLine.of_suffix (h : InLine finish tokens) (hts : t :: ts <:+ tokens) :
    t ∈ tokens ∧ ts <:+ tokens ∧ t.span.start < t.span.stop ∧ t.span.stop ≤ edge finish ts := by
  have hmem : t ∈ tokens := hts.subset (List.mem_cons_self ..)
  refine ⟨hmem, (List.suffix_cons t ts).trans hts, (h.nonempty t hmem).1, ?_⟩
  cases ts with
  | nil => exact (h.nonempty t hmem).2
  | cons u us =>
    have hordered := h.ordered.sublist hts.sublist
    exact (List.pairwise_cons.1 hordered).1 u (List.mem_cons_self ..)

namespace Segment

/-- Between tokens and themselves there are no nodes. -/
theorem nil : Segment finish tokens ts ts [] :=
  fun hts => ⟨hts, Stands.nil (Nat.le_refl _)⟩

/-- Segments one behind the other are one segment. -/
theorem append (h : Segment finish tokens ts mid nodes)
    (h' : Segment finish tokens mid rest others) :
    Segment finish tokens ts rest (nodes ++ others) := by
  intro hts
  obtain ⟨hmid, hnodes⟩ := h hts
  obtain ⟨hrest, hothers⟩ := h' hmid
  exact ⟨hrest, hnodes.append hothers⟩

/-- A token alone holds no nodes. -/
theorem skip (h : InLine finish tokens) (t : Token) (ts : List Token) :
    Segment finish tokens (t :: ts) ts [] := by
  intro hts
  obtain ⟨-, hrest, hlt, hle⟩ := h.of_suffix hts
  refine ⟨hrest, Stands.nil ?_⟩
  show t.span.start ≤ edge finish ts
  omega

/-- A node without children that covers one token. -/
theorem leaf (h : InLine finish tokens) (hspan : n.span = t.span) (hchildren : n.children = []) :
    Segment finish tokens (t :: ts) ts [n] := by
  intro hts
  obtain ⟨hmem, hrest, hlt, hle⟩ := h.of_suffix hts
  obtain ⟨-, hskip⟩ := skip h t ts hts
  rw [← hchildren] at hskip
  refine ⟨hrest, hskip.parent hmem hmem hspan hlt (Nat.le_refl _) hle ?_⟩
  simp [hchildren]

/-- A node from its first token through the token behind its children. -/
theorem enclosed (h : InLine finish tokens) (hspan : n.span = t.span.through closing.span)
    (hchildren : Segment finish tokens ts (closing :: rest) n.children) :
    Segment finish tokens (t :: ts) rest [n] := by
  intro hts
  obtain ⟨hfirst, hinner, hlt, hle⟩ := h.of_suffix hts
  obtain ⟨hclosing, hstands⟩ := hchildren hinner
  obtain ⟨hlast, hrest, hlt', hle'⟩ := h.of_suffix hclosing
  -- The offset of the closing token is the one up to which the children stand.
  have hedge : edge finish (closing :: rest) = closing.span.start := rfl
  have hle'' := hstands.le
  have hstands' : Stands tokens t.span.start (edge finish rest) n.children :=
    ⟨by omega, hstands.fits, fun c hc => by have := hstands.bounds c hc; omega, hstands.ordered⟩
  refine ⟨hrest, hstands'.parent hfirst hlast hspan (by omega) (Nat.le_refl _) hle' ?_⟩
  intro c hc
  have := hstands.bounds c hc
  omega

/-- A node from its first token through its only child. -/
theorem prefixed (h : InLine finish tokens) (hspan : n.span = t.span.through child.span)
    (hn : n.children = [child]) (hchild : Segment finish tokens ts rest [child]) :
    Segment finish tokens (t :: ts) rest [n] := by
  intro hts
  obtain ⟨hfirst, hinner, hlt, hle⟩ := h.of_suffix hts
  obtain ⟨hrest, hstands⟩ := hchild hinner
  have hmem := List.mem_singleton_self child
  have hbounds := hstands.bounds child hmem
  obtain ⟨_, -, last, hlast, hspan', -⟩ := (hstands.fits child hmem).fits.spanned
  have hpos := (hstands.fits child hmem).fits.start_lt_stop
  have hstop : last.span.stop = child.span.stop := by rw [hspan']; rfl
  have hstands' : Stands tokens t.span.start (edge finish rest) n.children := by
    rw [hn]
    exact ⟨by omega, hstands.fits, fun c hc => by have := hstands.bounds c hc; omega,
      hstands.ordered⟩
  refine ⟨hrest, hstands'.parent hfirst hlast ?_ (by omega) (Nat.le_refl _) (by omega) ?_⟩
  · rw [hspan, hspan']
    rfl
  · intro c hc
    rw [hn] at hc
    rw [List.mem_singleton.1 hc]
    omega

/-- A node from its first child through its last one. -/
theorem joined {left right : Node} (hspan : n.span = left.span.through right.span)
    (hn : n.children = [left, right]) (hchildren : Segment finish tokens ts rest [left, right]) :
    Segment finish tokens ts rest [n] := by
  intro hts
  obtain ⟨hrest, hstands⟩ := hchildren hts
  have hleft : left ∈ [left, right] := by simp
  have hright : right ∈ [left, right] := by simp
  obtain ⟨first, hfirst, _, -, hl, -⟩ := (hstands.fits left hleft).fits.spanned
  obtain ⟨_, -, last, hlast, hr, -⟩ := (hstands.fits right hright).fits.spanned
  have hstart : first.span.start = left.span.start := by rw [hl]; rfl
  have hstop : last.span.stop = right.span.stop := by rw [hr]; rfl
  have hlo := (hstands.bounds left hleft).1
  have hhi := (hstands.bounds right hright).2
  have hpos := (hstands.fits left hleft).fits.start_lt_stop
  have hpos' := (hstands.fits right hright).fits.start_lt_stop
  have horder : left.span.stop ≤ right.span.start :=
    (List.pairwise_cons.1 hstands.ordered).1 right (List.mem_singleton_self right)
  rw [← hn] at hstands
  refine ⟨hrest, hstands.parent hfirst hlast ?_ (by omega) (by omega) (by omega) ?_⟩
  · rw [hspan, hl, hr]
    rfl
  · intro c hc
    rw [hn] at hc
    obtain rfl | hc := List.mem_cons.1 hc
    · omega
    · rw [List.mem_singleton.1 hc]
      omega

/-- A node that is nothing but its only child. -/
theorem alone (hchild : Segment finish tokens ts rest [child]) (hspan : n.span = child.span)
    (hn : n.children = [child]) : Segment finish tokens ts rest [n] := by
  intro hts
  obtain ⟨hrest, hstands⟩ := hchild hts
  have hmem := List.mem_singleton_self child
  have hbounds := hstands.bounds child hmem
  obtain ⟨first, hfirst, last, hlast, hspan', hlt⟩ := (hstands.fits child hmem).fits.spanned
  have hstart : first.span.start = child.span.start := by rw [hspan']; rfl
  have hstop : last.span.stop = child.span.stop := by rw [hspan']; rfl
  rw [← hn] at hstands
  refine ⟨hrest, hstands.parent hfirst hlast (hspan.trans hspan') hlt (by omega) (by omega) ?_⟩
  intro c hc
  rw [hn] at hc
  rw [List.mem_singleton.1 hc]
  omega

end Segment

end Segments

/-! ## Derivations -/

namespace Grammar

open Token (InLine)

variable {finish : Nat}

mutual

/-- The tokens of a primary hold its expression. -/
theorem Primary.segment (h : InLine finish tokens) {ts rest : List Token} :
    (d : Primary ts rest) → Segment finish tokens ts rest [.expression d.expr]
  | .integer _ _ _ _ | .float _ _ _ _ | .string _ _ | .name _ _ _ => .leaf h rfl rfl
  | .call _ opening _ _ arguments =>
    .enclosed h rfl ((Segment.skip h opening _).append (arguments.segment h))
  | .group opening closing _ inner =>
    ((Segment.skip h opening _).append (inner.segment h)).append (Segment.skip h closing rest)
  | .negate _ _ operand => .prefixed h rfl rfl (operand.segment h)

/-- The tokens of the factors behind a product hold one expression together with those of the
product. -/
theorem Factors.segment (h : InLine finish tokens) {mid rest : List Token} :
    (d : Factors mid rest) → ∀ {ts : List Token} {left : Expr},
      Segment finish tokens ts mid [.expression left] →
        Segment finish tokens ts rest [.expression (d.expr left)]
  | .done _, _, _, hleft => hleft
  | .more t _ _ factor others, _, _, hleft =>
    have hfactor := (hleft.append (Segment.skip h t _)).append (factor.segment h)
    others.segment h (.joined rfl rfl hfactor)

/-- The tokens of a product hold its expression. -/
theorem Product.segment (h : InLine finish tokens) {ts rest : List Token} :
    (d : Product ts rest) → Segment finish tokens ts rest [.expression d.expr]
  | .mk first others => others.segment h (first.segment h)

/-- The tokens of the summands behind a sum hold one expression together with those of the sum. -/
theorem Summands.segment (h : InLine finish tokens) {mid rest : List Token} :
    (d : Summands mid rest) → ∀ {ts : List Token} {left : Expr},
      Segment finish tokens ts mid [.expression left] →
        Segment finish tokens ts rest [.expression (d.expr left)]
  | .done _, _, _, hleft => hleft
  | .more t _ _ summand others, _, _, hleft =>
    have hsummand := (hleft.append (Segment.skip h t _)).append (summand.segment h)
    others.segment h (.joined rfl rfl hsummand)

/-- The tokens of an expression hold it. -/
theorem Expression.segment (h : InLine finish tokens) {ts rest : List Token} :
    (d : Expression ts rest) → Segment finish tokens ts rest [.expression d.expr]
  | .mk first others => others.segment h (first.segment h)

/-- The tokens of arguments hold them in order. -/
theorem Arguments.segment (h : InLine finish tokens) {ts rest : List Token} :
    (d : Arguments ts rest) → Segment finish tokens ts rest (d.exprs.map .expression)
  | .none => .nil
  | .bare first others => (first.segment h).append (others.segment h)
  | .comma comma _ first others =>
    (first.segment h).append ((Segment.skip h comma _).append (others.segment h))

end

/-- The tokens of parameters hold them in order. -/
theorem Parameters.segment (h : InLine finish tokens) {ts rest : List Token}
    (d : Parameters ts rest) :
    Segment finish tokens ts rest (d.parameters.map .parameter) := by
  induction d with
  | none => exact .nil
  | bare name _ others ih => exact (Segment.leaf h rfl rfl).append ih
  | comma name comma _ others ih =>
    exact (Segment.leaf h rfl rfl).append ((Segment.skip h comma _).append ih)

mutual

/-- The tokens of a statement hold it. -/
theorem Statement.segment (h : InLine finish tokens) {ts rest : List Token} :
    (d : Statement ts rest) → Segment finish tokens ts rest [.statement d.stmt]
  | .print _ opening _ _ argument =>
    .enclosed h rfl ((Segment.skip h opening _).append (argument.segment h))
  | .declare _ name equal _ value =>
    have hvalue := (Segment.skip h equal _).append (value.segment h)
    .prefixed h rfl rfl ((Segment.skip h name _).append hvalue)
  | .ask _ _ _ => .enclosed h rfl .nil
  | .trick _ name opening closing left _ _ parameters _ body =>
    have hhead := (Segment.skip h name _).append
      ((Segment.skip h opening _).append (parameters.segment h))
    have hbody := (Segment.skip h closing _).append
      ((Segment.skip h left _).append (body.segment h))
    .enclosed h rfl (hhead.append hbody)
  | .call name opening closing _ arguments =>
    have hcall : Segment finish tokens _ rest
        [.expression (.call name.lexeme arguments.exprs (name.span.through closing.span))] :=
      .enclosed h rfl ((Segment.skip h opening _).append (arguments.segment h))
    hcall.alone rfl rfl
  | .name _ _ _ => .leaf h rfl rfl
  | .expression _ value => (value.segment h).alone rfl rfl

/-- The tokens of statements hold them in order. -/
theorem Statements.segment (h : InLine finish tokens) {ts rest : List Token} :
    (d : Statements ts rest) → Segment finish tokens ts rest (d.stmts.map .statement)
  | .none => .nil
  | .more first others => (first.segment h).append (others.segment h)

end

end Grammar

/-! ## Programs of a text -/

open Token (InLine script)

/-- The script of a text is all of its tokens but the last, which is the end of the input. -/
theorem Tiles.exists_eq_script_append {text : List Char} (h : Tiles text 0 tokens) :
    ∃ last, tokens = script tokens ++ [last] ∧ last.kind = .endOfInput ∧
      last.span.start = text.length ∧
      ∀ t ∈ script tokens, t.span.start < t.span.stop ∧ t.span.stop ≤ text.length := by
  obtain ⟨pieces, last, rfl, hkind, hstart, -, hpieces⟩ := h.ends
  have hscript : script (pieces ++ [last]) = pieces := by
    unfold script
    rw [List.takeWhile_append_of_pos fun t ht => decide_eq_true (hpieces t ht).1]
    simp [hkind]
  rw [hscript]
  exact ⟨last, rfl, hkind, hstart, fun t ht => (hpieces t ht).2⟩

/-- The tokens of the script that a text is tiled with are in line. -/
theorem Tiles.script_inLine {text : List Char} (h : Tiles text 0 tokens) :
    InLine text.length (script tokens) := by
  obtain ⟨last, -, -, -, hbounds⟩ := h.exists_eq_script_append
  exact ⟨hbounds, h.ordered.sublist (List.takeWhile_sublist _)⟩

/-- A node that fits the script of a text stands in the text. -/
theorem Node.Fits.placed {text : List Char} (htiles : Tiles text 0 tokens) {n : Node}
    (h : n.Fits (script tokens)) : n.Placed text tokens := by
  obtain ⟨first, hfirst, last, hlast, hspan, hlt⟩ := h.spanned
  have hbounds := htiles.script_inLine.nonempty last hlast
  have hscript : script tokens ⊆ tokens := List.takeWhile_subset _
  obtain ⟨hline, hline', hcolumn, hcolumn'⟩ := htiles.placed first (hscript hfirst)
  have hstart : first.span.start = n.span.start := by rw [hspan]; rfl
  have hstop : last.span.stop = n.span.stop := by rw [hspan]; rfl
  refine ⟨h.start_lt_stop, ?_, ⟨first, hscript hfirst, hstart⟩, ⟨last, hscript hlast, hstop⟩, ?_,
    ?_, h.within, h.ordered⟩
  · rw [← hstop]
    exact hbounds.2
  · rw [← hstart, ← hline, ← hline', hspan]
    rfl
  · rw [← hstart, ← hcolumn, ← hcolumn', hspan]
    rfl

/-- The program of a text is that of its tokens. -/
theorem Program.exists_tokens {source : String} {program : Program}
    (h : Program.ofText source = .ok program) :
    ∃ tokens, Token.ofText source = .ok tokens ∧ Program.ofTokens tokens = .ok program := by
  unfold Program.ofText at h
  cases htokens : Token.ofText source with
  | error e => simp [htokens, Bind.bind, Except.bind] at h
  | ok tokens => exact ⟨tokens, rfl, by simpa [htokens, Bind.bind, Except.bind] using h⟩

/-- The program of tokens is the program of their script. -/
theorem Program.ofTokens_script {program : Program} (h : Program.ofTokens tokens = .ok program) :
    Program.ofTokens (script tokens) = .ok program := by
  have hscript : script (script tokens) = script tokens := List.takeWhile_idem
  unfold Program.ofTokens at h ⊢
  rw [hscript]
  cases hall : Stmt.all (script tokens) with
  | error r => simp [hall] at h
  | ok statements => simpa [hall] using h

/-- The topmost nodes of a program stand one behind the other, and everything in them fits the
tokens. -/
theorem Program.stands {finish : Nat} (h : InLine finish tokens) {program : Program}
    (hprogram : Program.ofTokens tokens = .ok program) :
    ∃ lo hi, Stands tokens lo hi program.children := by
  obtain ⟨d, rfl⟩ := (Grammar.ofTokens_eq_ok_iff tokens program).1 hprogram
  obtain ⟨-, hstands⟩ := d.statements.segment h (List.suffix_refl tokens)
  exact ⟨_, _, hstands⟩

/-- Every node of the program of a text stands in the text. -/
theorem Program.placed_of_contains {text : List Char} (htiles : Tiles text 0 tokens)
    {program : Program} (hprogram : Program.ofTokens tokens = .ok program) {n : Node}
    (hn : program.Contains n) : n.Placed text tokens := by
  obtain ⟨lo, hi, hstands⟩ := Program.stands htiles.script_inLine (Program.ofTokens_script hprogram)
  obtain ⟨top, htop, hbelow⟩ := hn
  exact (hstands.fits top htop n hbelow).placed htiles

/-- Wherever a text is a program, every node of the program stands in the text: from the beginning
of a token to the end of one, at the line and the column of its first character, and with its
children inside it, one behind the other.  So do the statements of the program. -/
theorem Program.ofText_placed (source : String) (tokens : List Token) (program : Program)
    (htokens : Token.ofText source = .ok tokens)
    (hprogram : Program.ofTokens tokens = .ok program) :
    (∀ n, program.Contains n → n.Placed source.toList tokens) ∧
      program.children.Pairwise fun a b => a.span.stop ≤ b.span.start := by
  have htiles : Tiles source.toList 0 tokens :=
    @Token.scanFrom_tiles Position.start source.toList [] tokens rfl htokens
  obtain ⟨lo, hi, hstands⟩ := Program.stands htiles.script_inLine (Program.ofTokens_script hprogram)
  exact ⟨fun n hn => Program.placed_of_contains htiles hprogram hn, hstands.ordered⟩

/-- A function over two lines whose body adds two operands, the first of them in parentheses. -/
def addingTokens : List Token :=
  [⟨.trick, "trick", ⟨0, 5, 1, 1⟩⟩, ⟨.identifier, "f", ⟨6, 7, 1, 7⟩⟩,
    ⟨.leftParen, "(", ⟨7, 8, 1, 8⟩⟩, ⟨.identifier, "a", ⟨8, 9, 1, 9⟩⟩,
    ⟨.rightParen, ")", ⟨9, 10, 1, 10⟩⟩, ⟨.leftBrace, "\x7b", ⟨11, 12, 1, 12⟩⟩,
    ⟨.leftParen, "(", ⟨13, 14, 2, 1⟩⟩, ⟨.identifier, "a", ⟨14, 15, 2, 2⟩⟩,
    ⟨.rightParen, ")", ⟨15, 16, 2, 3⟩⟩, ⟨.plus, "+", ⟨17, 18, 2, 5⟩⟩,
    ⟨.minus, "-", ⟨19, 20, 2, 7⟩⟩, ⟨.integer, "1", ⟨20, 21, 2, 8⟩⟩,
    ⟨.rightBrace, "\x7d", ⟨22, 23, 2, 10⟩⟩, ⟨.endOfInput, "", ⟨23, 24, 2, 11⟩⟩]

/-- The program of `addingTokens`. -/
def adding : Program :=
  ⟨[.trick "f" [⟨"a", ⟨8, 9, 1, 9⟩⟩]
    [.expression (.binary .add (.identifier "a" ⟨14, 15, 2, 2⟩)
      (.negate (.integer 1 ⟨20, 21, 2, 8⟩) ⟨19, 21, 2, 7⟩) ⟨14, 21, 2, 2⟩) ⟨14, 21, 2, 2⟩]
    ⟨0, 23, 1, 1⟩]⟩

/-- Every node of `adding` stands in its text. -/
theorem Program.ofText_placed_adding :
    Token.ofText "trick f(a) \x7b\n(a) + -1 \x7d" = .ok addingTokens ∧
      Program.ofTokens addingTokens = .ok adding ∧
      (∀ n, adding.Contains n →
        n.Placed "trick f(a) \x7b\n(a) + -1 \x7d".toList addingTokens) ∧
      adding.children.Pairwise fun a b => a.span.stop ≤ b.span.start :=
  have htokens : Token.ofText "trick f(a) \x7b\n(a) + -1 \x7d" = .ok addingTokens := by cbv
  have hprogram : Program.ofTokens addingTokens = .ok adding := by cbv
  ⟨htokens, hprogram, Program.ofText_placed _ _ _ htokens hprogram⟩

end CatScript
