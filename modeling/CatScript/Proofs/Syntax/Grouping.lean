import Mathlib
import CatScript.Model.Program

/-!
# Groupings of a chain

A chain is a row of operands with operators between them, and a grouping of it is a tree with these
operators as its nodes and these operands as its leaves.  An operand may itself be an operator
expression, one that has stood in parentheses.  The expression that a grouping stands for
(`Grouping.expr`) does not show where the operators of the chain end and those of an operand begin,
and so a grouping keeps the two apart.

Grouping to the left, with products in front of sums, is a matter of neighbours in the tree
(`Grouping.LeftAssociative`).  No chain has two such groupings (`Grouping.Groups.unique`): the
topmost operator is the last one of those that bind the least.
-/

set_option autoImplicit false

namespace CatScript

/-- A first operand, and further ones behind operators. -/
@[ext]
structure Chain where
  first : Expr
  links : List (BinaryOp × Expr)

namespace Chain

/-- The operators of a chain, in order. -/
def operators (c : Chain) : List BinaryOp := c.links.map Prod.fst

/-- Two chains with an operator between them. -/
def join (op : BinaryOp) (c c' : Chain) : Chain := ⟨c.first, c.links ++ (op, c'.first) :: c'.links⟩

/-- The operators of two chains with one between them. -/
@[simp] theorem operators_join (op : BinaryOp) (c c' : Chain) :
    (join op c c').operators = c.operators ++ op :: c'.operators := by
  simp [join, operators]

/-- The operator of a link is one of the chain. -/
theorem fst_mem_operators {c : Chain} {link : BinaryOp × Expr} (h : link ∈ c.links) :
    link.1 ∈ c.operators :=
  List.mem_map_of_mem h

/-- A row of links is cut in two in at most one way at an operator that binds no tighter than those
before it and less tightly than those behind it. -/
theorem cut_unique {before behind before' behind' : List (BinaryOp × Expr)}
    {cut cut' : BinaryOp × Expr} (h : before ++ cut :: behind = before' ++ cut' :: behind')
    (hbefore : ∀ link ∈ before, cut.1.precedence ≤ link.1.precedence)
    (hbehind : ∀ link ∈ behind, cut.1.precedence < link.1.precedence)
    (hbefore' : ∀ link ∈ before', cut'.1.precedence ≤ link.1.precedence)
    (hbehind' : ∀ link ∈ behind', cut'.1.precedence < link.1.precedence) :
    before = before' ∧ cut = cut' ∧ behind = behind' := by
  obtain ⟨mid, hmid, htail⟩ | ⟨mid, hmid, htail⟩ := List.append_eq_append_iff.1 h
  · cases mid with
    | nil =>
      obtain ⟨rfl, rfl⟩ := List.cons.inj htail
      exact ⟨by rw [hmid, List.append_nil], rfl, rfl⟩
    | cons link mid =>
      -- The second cut lies behind the first one.
      obtain ⟨rfl, rfl⟩ := List.cons.inj htail
      have hle := hbefore' cut (by simp [hmid])
      have hlt := hbehind cut' (by simp)
      omega
  · cases mid with
    | nil =>
      obtain ⟨rfl, rfl⟩ := List.cons.inj htail
      exact ⟨by rw [hmid, List.append_nil], rfl, rfl⟩
    | cons link mid =>
      obtain ⟨rfl, rfl⟩ := List.cons.inj htail
      have hle := hbefore cut' (by simp [hmid])
      have hlt := hbehind' cut (by simp)
      omega

end Chain

/-- A tree of operators with operands as its leaves. -/
inductive Grouping
  | operand (e : Expr)
  | node (op : BinaryOp) (left right : Grouping)

namespace Grouping

/-- The expression that a grouping stands for. -/
def expr : Grouping → Expr
  | .operand e => e
  | .node op left right =>
    .binary op left.expr right.expr (left.expr.span.through right.expr.span)

/-- The operands of a grouping and the operators between them, read from left to right. -/
def chain : Grouping → Chain
  | .operand e => ⟨e, []⟩
  | .node op left right => .join op left.chain right.chain

/-- The topmost operator of a grouping. -/
def top? : Grouping → Option BinaryOp
  | .operand _ => none
  | .node op _ _ => some op

/-- No operator has one right below it that binds less tightly on its left, or no more tightly on
its right. -/
inductive LeftAssociative : Grouping → Prop
  | operand (e : Expr) : LeftAssociative (.operand e)
  | node {op : BinaryOp} {left right : Grouping}
      (tight : ∀ below ∈ left.top?, op.precedence ≤ below.precedence)
      (tighter : ∀ below ∈ right.top?, op.precedence < below.precedence)
      (hleft : left.LeftAssociative) (hright : right.LeftAssociative) :
      LeftAssociative (.node op left right)

/-- A grouping of a chain to the left, with products in front of sums. -/
structure Groups (g : Grouping) (c : Chain) : Prop where
  chain : g.chain = c
  leftAssociative : g.LeftAssociative

variable {g g' : Grouping} {c : Chain}

/-- The topmost operator is one of the chain. -/
theorem top_mem_operators {top : BinaryOp} (h : top ∈ g.top?) : top ∈ g.chain.operators := by
  cases g with
  | operand e => simp [top?] at h
  | node op left right =>
    obtain rfl := Option.some.inj h
    simp [chain]

/-- What the topmost operator of a grouping reaches, all of its operators reach. -/
theorem LeftAssociative.le_of_mem (h : g.LeftAssociative) : ∀ {least : Nat},
    (∀ top ∈ g.top?, least ≤ top.precedence) → ∀ op ∈ g.chain.operators, least ≤ op.precedence := by
  induction h with
  | operand e => simp [chain, Chain.operators]
  | @node top left right tight tighter _ _ ihLeft ihRight =>
    intro least hleast op hop
    have htop : least ≤ top.precedence := hleast top rfl
    rw [chain, Chain.operators_join, List.mem_append, List.mem_cons] at hop
    obtain hop | rfl | hop := hop
    · exact htop.trans (ihLeft tight op hop)
    · exact htop
    · exact (htop.trans (Nat.le_succ _)).trans (ihRight tighter op hop)

/-- A chain has at most one grouping to the left. -/
theorem LeftAssociative.unique (h : g.LeftAssociative) (h' : g'.LeftAssociative)
    (hchain : g.chain = g'.chain) : g = g' := by
  induction h generalizing g' with
  | operand e =>
    cases h' with
    | operand e' => exact congrArg Grouping.operand (congrArg Chain.first hchain)
    | node => exact absurd (congrArg Chain.links hchain) (by simp [chain, Chain.join])
  | @node op left right tight tighter hleft hright ihLeft ihRight =>
    cases h' with
    | operand e' => exact absurd (congrArg Chain.links hchain) (by simp [chain, Chain.join])
    | @node op' left' right' tight' tighter' hleft' hright' =>
      obtain ⟨hfirst, hlinks⟩ := Chain.mk.inj hchain
      obtain ⟨hbefore, hcut, hbehind⟩ := Chain.cut_unique hlinks
        (fun _ hlink => hleft.le_of_mem tight _ (Chain.fst_mem_operators hlink))
        (fun _ hlink => hright.le_of_mem tighter _ (Chain.fst_mem_operators hlink))
        (fun _ hlink => hleft'.le_of_mem tight' _ (Chain.fst_mem_operators hlink))
        (fun _ hlink => hright'.le_of_mem tighter' _ (Chain.fst_mem_operators hlink))
      obtain ⟨rfl, hfirst'⟩ := Prod.mk.inj hcut
      rw [ihLeft hleft' (Chain.ext hfirst hbefore), ihRight hright' (Chain.ext hfirst' hbehind)]

/-- A chain has one grouping only. -/
theorem Groups.unique (h : g.Groups c) (h' : g'.Groups c) : g = g' :=
  h.leftAssociative.unique h'.leftAssociative (h.chain.trans h'.chain.symm)

end Grouping

end CatScript
