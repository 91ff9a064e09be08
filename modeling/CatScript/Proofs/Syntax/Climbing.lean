import CatScript.Proofs.Syntax.Grouping
import CatScript.Proofs.Syntax.Hopeless

/-!
# Climbing groups the longest chain

From any floor, climbing reads the chain of primaries and operators that stands in front, as long as
its operators bind tighter than the floor, and it groups this chain to the left, with products in
front of sums.  The top theorem is `Expr.climb_groups_chain`.

What is read is followed along the recursion of the climbing (`Expr.expressions_group`): what stands
on the left is a grouping whose topmost operator binds no less tightly than the next token
(`Grouping.Holds`), and a right operand is the grouping of a chain of tighter operators.  That
something is read at all is shown along the chain, which the floor of an operator cuts in two.
-/

set_option autoImplicit false

namespace CatScript

open Grammar (ahead Primary)
open Reader (of)
open Reading (Yields)

/-! ## Operands are primaries -/

/-- An operand is read from whatever begins with the tokens of a script that it is read from. -/
theorem Expr.of_operand_script {ts : List Token} {e : Expr} {rest : List Token}
    (h : of operand (Token.script ts) = .ok (e, rest)) :
    ∃ rest', of operand ts = .ok (e, rest') := by
  obtain ⟨behind, hts, hbehind⟩ := Grammar.exists_eq_script_append ts
  obtain ⟨passed, rest₀, e₀, split, hpasses⟩ | ⟨passed, r, split, hrejects⟩ :=
    expressions_nearsighted.1 (Token.script ts)
  · rw [split, hpasses.reads rest₀ (.inl rfl)] at h
    obtain ⟨rfl, rfl⟩ := Prod.mk.inj (Except.ok.inj h)
    refine ⟨rest₀ ++ behind, ?_⟩
    rw [hts, split, List.append_assoc]
    exact hpasses.reads _ (.inl (Grammar.ahead_append hbehind rest₀))
  · rw [split, hrejects.fails] at h
    simp at h

/-- Operands are the primaries of the grammar. -/
theorem Expr.yields_operand_iff {ts : List Token} {e : Expr} {rest : List Token} :
    Yields (operand ts) e rest ↔ ∃ d : Primary ts rest, d.expr = e := by
  have hsound : ∀ {e rest}, Yields (operand ts) e rest → ∃ d : Primary ts rest, d.expr = e := by
    intro e rest h
    have hd := (@Grammar.expressions_sound [] rfl).1 ts e rest h
    rwa [List.append_nil, List.append_nil] at hd
  refine ⟨hsound, ?_⟩
  rintro ⟨d, rfl⟩
  obtain ⟨rest', h⟩ := of_operand_script (Reading.yields_iff.1 d.yields)
  obtain ⟨d', -⟩ := hsound (Reading.yields_iff.2 h)
  cases d.unique d'
  exact Reading.yields_iff.2 h

/-! ## The chain in front -/

namespace Chain

/-- Operators that bind tighter than the floor stand in front, each with a primary behind it, and
the token behind these is no further such operator. -/
inductive Links (floor : Nat) : List Token → List (BinaryOp × Expr) → List Token → Prop
  | done {ts : List Token}
      (next : ∀ op, (ahead ts).operator? = some op → op.precedence ≤ floor) : Links floor ts [] ts
  | more {t : Token} {op : BinaryOp} {ts mid rest : List Token} {links : List (BinaryOp × Expr)}
      (kind : t.kind.operator? = some op) (tight : floor < op.precedence) (operand : Primary ts mid)
      (others : Links floor mid links rest) :
      Links floor (t :: ts) ((op, operand.expr) :: links) rest

/-- A chain of primaries and operators that bind tighter than the floor stands in front of `rest`,
and no such operator continues it. -/
def Maximal (floor : Nat) (ts : List Token) (c : Chain) (rest : List Token) : Prop :=
  ∃ (mid : List Token) (first : Primary ts mid),
    first.expr = c.first ∧ Links floor mid c.links rest

variable {floor : Nat} {ts mid rest rest' : List Token} {links links' : List (BinaryOp × Expr)}

/-- Behind the links stands no operator that binds tighter than the floor. -/
theorem Links.next (h : Links floor ts links rest) :
    ∀ op, (ahead rest).operator? = some op → op.precedence ≤ floor := by
  induction h with
  | done next => exact next
  | more _ _ _ _ ih => exact ih

/-- All operators of the links bind tighter than the floor. -/
theorem Links.tight (h : Links floor ts links rest) :
    ∀ link ∈ links, floor < link.1.precedence := by
  induction h with
  | done => simp
  | more _ tight _ _ ih => exact List.forall_mem_cons.2 ⟨tight, ih⟩

/-- Links of a higher floor are links of a lower one as far as they go. -/
theorem Links.append {higher : Nat} (h : Links higher ts links mid) (hfloor : floor ≤ higher)
    (h' : Links floor mid links' rest) : Links floor ts (links ++ links') rest := by
  induction h with
  | done => exact h'
  | more kind tight operand _ ih => exact .more kind (hfloor.trans_lt tight) operand (ih h')

/-- Links of a lower floor begin with those of a higher one. -/
theorem Links.cut {higher : Nat} (h : Links floor ts links rest) (hfloor : floor ≤ higher) :
    ∃ front mid back, links = front ++ back ∧ Links higher ts front mid ∧
      Links floor mid back rest := by
  induction h with
  | done next => exact ⟨[], _, [], rfl, .done fun op hop => (next op hop).trans hfloor, .done next⟩
  | @more t op _ _ _ _ kind tight operand others ih =>
    by_cases htight : higher < op.precedence
    · obtain ⟨front, mid, back, rfl, hfront, hback⟩ := ih
      exact ⟨_, mid, back, rfl, .more kind htight operand hfront, hback⟩
    · refine ⟨[], _, _, rfl, .done fun op' hop => ?_, .more kind tight operand others⟩
      obtain rfl : op = op' := Option.some.inj (kind.symm.trans hop)
      exact Nat.le_of_not_lt htight

/-- There is one way only to go on. -/
theorem Links.unique (h : Links floor ts links rest) (h' : Links floor ts links' rest') :
    links = links' ∧ rest = rest' := by
  induction h generalizing links' with
  | done next =>
    cases h' with
    | done => exact ⟨rfl, rfl⟩
    | more kind tight => exact absurd (next _ kind) (Nat.not_le.2 tight)
  | more kind tight operand others ih =>
    cases h' with
    | done next => exact absurd (next _ kind) (Nat.not_le.2 tight)
    | more kind' tight' operand' others' =>
      obtain rfl := Option.some.inj (kind.symm.trans kind')
      cases operand.unique operand'
      obtain ⟨rfl, rfl⟩ := ih others'
      exact ⟨rfl, rfl⟩

/-- Only one chain is as long as it can be. -/
theorem Maximal.unique {c c' : Chain} (h : Maximal floor ts c rest)
    (h' : Maximal floor ts c' rest') : c = c' ∧ rest = rest' := by
  obtain ⟨mid, first, hfirst, hlinks⟩ := h
  obtain ⟨mid', first', hfirst', hlinks'⟩ := h'
  cases first.unique first'
  obtain ⟨hsame, hrest⟩ := hlinks.unique hlinks'
  exact ⟨Chain.ext (hfirst.symm.trans hfirst') hsame, hrest⟩

/-- All operators of the chain bind tighter than the floor. -/
theorem Maximal.operators_tight {c : Chain} (h : Maximal floor ts c rest) :
    ∀ op ∈ c.operators, floor < op.precedence := by
  obtain ⟨mid, first, -, hlinks⟩ := h
  simpa [operators] using hlinks.tight

/-- Behind the chain stands no operator that binds tighter than the floor. -/
theorem Maximal.next {c : Chain} (h : Maximal floor ts c rest) :
    ∀ op, (ahead rest).operator? = some op → op.precedence ≤ floor := by
  obtain ⟨mid, first, -, hlinks⟩ := h
  exact hlinks.next

end Chain

open Chain (Links Maximal)

/-! ## What is read is a grouping -/

/-- A grouping is to the left, and its topmost operator binds no less tightly than the token
behind it. -/
structure Grouping.Holds (g : Grouping) (ts : List Token) : Prop where
  leftAssociative : g.LeftAssociative
  next : ∀ top ∈ g.top?, ∀ op, (ahead ts).operator? = some op → op.precedence ≤ top.precedence

/-- An operator between what stands on the left and the chain that its own floor finds. -/
theorem Grouping.Holds.node {g right : Grouping} {c : Chain} {t : Token} {op : BinaryOp}
    {ts mid : List Token} (h : g.Holds (t :: ts)) (kind : t.kind.operator? = some op)
    (hright : right.Groups c) (hc : Maximal op.precedence ts c mid) :
    (Grouping.node op g right).Holds mid where
  leftAssociative := by
    refine .node (fun top htop => h.next top htop op kind) (fun top htop => ?_) h.leftAssociative
      hright.leftAssociative
    exact hc.operators_tight top (hright.chain ▸ top_mem_operators htop)
  next top htop := by
    obtain rfl : op = top := Option.some.inj htop
    exact hc.next

namespace Expr

/-- Climbing from the floor groups a chain. -/
def ClimbGroups (floor : Nat) (ts : List Token) : Prop :=
  ∀ e rest, Yields (climb floor ts) e rest →
    ∃ c g, Maximal floor ts c rest ∧ Grouping.Groups g c ∧ g.expr = e

/-- Going on at the floor behind a grouping groups a longer chain. -/
def ChainGroups (floor : Nat) (left : Expr) (ts : List Token) : Prop :=
  ∀ g : Grouping, g.expr = left → g.Holds ts → ∀ e rest, Yields (chain floor left ts) e rest →
    ∃ links g', Links floor ts links rest ∧
      Grouping.Groups g' ⟨g.chain.first, g.chain.links ++ links⟩ ∧ g'.expr = e

variable {floor : Nat} {left : Expr} {t : Token} {ts : List Token}

/-- Where nothing goes on, the grouping on the left is all there is. -/
theorem chainGroups_done (next : ∀ op, (ahead ts).operator? = some op → op.precedence ≤ floor) :
    ChainGroups floor left ts := by
  intro g hg hholds e rest h
  obtain ⟨rfl, rfl⟩ := (yields_chain_done next).1 h
  refine ⟨[], g, .done next, ⟨?_, hholds.leftAssociative⟩, hg⟩
  rw [List.append_nil]

/-- An operator is put in between, with the chain that its own floor finds on its right. -/
theorem chainGroups_more {op : BinaryOp} (kind : t.kind.operator? = some op)
    (tight : floor < op.precedence) (ihRight : ClimbGroups op.precedence ts)
    (ihAll : ∀ right : Reading Expr ts.length, ChainGroups floor
      (.binary op left right.value (left.span.through right.value.span)) right.rest) :
    ChainGroups floor left (t :: ts) := by
  intro g hg hholds e rest h
  obtain ⟨_, mid, hright, hall⟩ := (yields_chain_more kind tight).1 h
  obtain ⟨c, right, hc, hgroups, rfl⟩ := ihRight _ mid hright
  obtain ⟨links, g', hlinks, hg', rfl⟩ := ihAll ⟨right.expr, mid, hright.length_lt⟩
    (.node op g right) (by rw [Grouping.expr, hg]) (hholds.node kind hgroups hc) e rest hall
  obtain ⟨_, first, hfirst, hback⟩ := hc
  refine ⟨(op, first.expr) :: (c.links ++ links), g', .more kind tight first ?_, ?_, rfl⟩
  · exact hback.append (Nat.le_of_lt tight) hlinks
  · rw [hfirst]
    simpa [Grouping.chain, Chain.join, hgroups.chain] using hg'

/-- What climbing reads from any floor is the grouping of a chain. -/
theorem expressions_group :
    (∀ floor ts, ClimbGroups floor ts) ∧ ∀ floor left ts, ChainGroups floor left ts := by
  -- Of operands and of arguments, which are read by the same recursion, nothing is said.
  suffices h : (∀ _ : List Token, True) ∧ (∀ floor ts, ClimbGroups floor ts) ∧
      (∀ floor left ts, ChainGroups floor left ts) ∧ ∀ _ : List Token, True from
    ⟨h.2.1, h.2.2.1⟩
  apply Expr.operand.mutual_induct (fun _ => True) ClimbGroups ChainGroups (fun _ => True)
  case case12 =>
    intro floor ts _ ihAll e rest h
    obtain ⟨first, mid, hfirst, hall⟩ := (yields_climb floor).1 h
    obtain ⟨d, rfl⟩ := yields_operand_iff.1 hfirst
    obtain ⟨links, g, hlinks, hg, rfl⟩ := ihAll ⟨d.expr, mid, hfirst.length_lt⟩ (.operand d.expr)
      rfl ⟨.operand d.expr, by simp [Grouping.top?]⟩ e rest hall
    exact ⟨_, g, ⟨mid, d, rfl, hlinks⟩, hg, rfl⟩
  case case13 =>
    intro floor left
    exact chainGroups_done (by simp [TokenKind.operator?])
  case case14 =>
    intro floor left t ts kind
    exact chainGroups_done (by simp [kind])
  case case15 =>
    intro floor left t ts op kind tight ihRight ihAll
    exact chainGroups_more kind tight ihRight ihAll
  case case16 =>
    intro floor left t ts op kind loose
    refine chainGroups_done fun op' hop => ?_
    obtain rfl : op = op' := Option.some.inj (kind.symm.trans hop)
    exact Nat.le_of_not_lt loose
  all_goals intros; trivial

/-! ## A chain is read -/

/-- Where links of the floor stand in front, they are read. -/
theorem exists_yields_chain {links : List (BinaryOp × Expr)} {rest : List Token}
    (h : Links floor ts links rest) : ∃ e, Yields (chain floor left ts) e rest := by
  -- A link cuts those behind it in two, both of them shorter: its right operand and the others.
  induction hn : links.length using Nat.strong_induction_on
    generalizing floor left ts links rest with
  | _ n ih =>
    cases h with
    | done next => exact ⟨left, (yields_chain_done next).2 ⟨rfl, rfl⟩⟩
    | @more t op ts mid _ links kind tight operand others =>
      obtain ⟨front, mid', back, rfl, hfront, hback⟩ := others.cut (Nat.le_of_lt tight)
      rw [List.length_cons, List.length_append] at hn
      obtain ⟨right, hright⟩ :=
        @ih front.length (by omega) op.precedence operand.expr _ _ _ hfront rfl
      have hclimb : Yields (climb op.precedence ts) right mid' :=
        (yields_climb _).2 ⟨_, mid, yields_operand_iff.2 ⟨operand, rfl⟩, hright⟩
      obtain ⟨e, hall⟩ := @ih back.length (by omega) floor
        (.binary op left right (left.span.through right.span)) _ _ _ hback rfl
      exact ⟨e, (yields_chain_more kind tight).2 ⟨right, mid', hclimb, hall⟩⟩

/-- Where a chain stands in front, climbing reads it. -/
theorem exists_yields_climb {c : Chain} {rest : List Token} (h : Maximal floor ts c rest) :
    ∃ e, Yields (climb floor ts) e rest := by
  obtain ⟨mid, first, -, hlinks⟩ := h
  obtain ⟨e, hall⟩ := @exists_yields_chain floor first.expr _ _ _ hlinks
  exact ⟨e, (yields_climb floor).2 ⟨_, mid, yields_operand_iff.2 ⟨first, rfl⟩, hall⟩⟩

/-- Climbing from any floor reads the one longest chain of operators above the floor, and what it
makes of this chain is the one grouping to the left. -/
theorem climb_groups_chain (floor : Nat) (ts : List Token) (e : Expr) (rest : List Token) :
    Yields (climb floor ts) e rest ↔
      ∃ c : Chain, Maximal floor ts c rest ∧
        (∀ c' rest', Maximal floor ts c' rest' → c' = c ∧ rest' = rest) ∧
        ∃ g : Grouping, g.Groups c ∧ (∀ g' : Grouping, g'.Groups c → g' = g) ∧ g.expr = e := by
  constructor
  · intro h
    obtain ⟨c, g, hc, hg, hexpr⟩ := expressions_group.1 floor ts e rest h
    exact ⟨c, hc, fun c' rest' hc' => hc'.unique hc, g, hg, fun g' hg' => hg'.unique hg, hexpr⟩
  · rintro ⟨c, hc, -, g, hg, -, rfl⟩
    obtain ⟨e, h⟩ := exists_yields_climb hc
    obtain ⟨c', g', hc', hg', rfl⟩ := expressions_group.1 floor ts e rest h
    obtain ⟨rfl, -⟩ := hc.unique hc'
    rwa [hg.unique hg']

end Expr

end CatScript
