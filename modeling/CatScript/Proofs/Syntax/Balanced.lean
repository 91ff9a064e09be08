import CatScript.Proofs.Syntax.Grammar
import CatScript.Proofs.Token.Spacing

/-!
# Balanced parentheses

Tokens are balanced if each parenthesis in them that opens is closed, and none is closed that was
not open.  The count of the open ones is carried along the tokens and fails where it would fall
below zero (`Token.depth?`); tokens that go well in front of one count go as well in front of a
greater one, which decides where an unbalanced piece of balanced tokens can begin and end
(`Token.Balanced.eq_nil_of_openings`, `Token.Balanced.eq_nil_of_closings`).  Whatever has a
derivation is balanced: a production puts both parentheses around a piece, or none.
-/

set_option autoImplicit false

namespace CatScript

open List (Forall₂)

/-! ## The depth in parentheses -/

namespace Token

/-- How deep in parentheses it is behind a token.  One that is not open is not closed. -/
def nest (depth : Nat) (t : Token) : Option Nat :=
  match t.kind, depth with
  | .leftParen, depth => some (depth + 1)
  | .rightParen, 0 => none
  | .rightParen, depth + 1 => some depth
  | _, depth => some depth

/-- How deep in parentheses it is behind some tokens. -/
def depth? (ts : List Token) (depth : Nat) : Option Nat := ts.foldlM nest depth

/-- Every parenthesis is closed behind where it opens, and none is left open. -/
def Balanced (ts : List Token) : Prop := depth? ts 0 = some 0

instance (ts : List Token) : Decidable (Balanced ts) :=
  inferInstanceAs (Decidable (depth? ts 0 = some 0))

/-- A token that is no parenthesis. -/
def Neutral (t : Token) : Prop := t.kind ≠ .leftParen ∧ t.kind ≠ .rightParen

variable {t u : Token} {ts us : List Token} {n m : Nat}

/-- A token of a kind that is no parenthesis is none. -/
theorem Neutral.of_kind {kind : TokenKind} (h : t.kind = kind)
    (hkind : kind ≠ .leftParen ∧ kind ≠ .rightParen) : Neutral t := by
  unfold Neutral
  rwa [h]

/-- Behind a token that is no parenthesis it is as deep as before. -/
theorem nest_neutral (h : Neutral t) (depth : Nat) : nest depth t = some depth := by
  obtain ⟨hleft, hright⟩ := h
  unfold nest
  split <;> simp_all

/-- Behind an opening parenthesis it is one deeper. -/
theorem nest_opening (h : t.kind = .leftParen) (depth : Nat) :
    nest depth t = some (depth + 1) := by
  simp [nest, h]

/-- Behind a closing parenthesis it is one less deep. -/
theorem nest_closing (h : t.kind = .rightParen) (depth : Nat) :
    nest (depth + 1) t = some depth := by
  simp [nest, h]

/-- A token goes as well in front of a greater depth. -/
theorem nest_add (h : nest n t = some m) (k : Nat) : nest (n + k) t = some (m + k) := by
  by_cases hneutral : Neutral t
  · rw [nest_neutral hneutral] at h ⊢
    rw [Option.some.inj h]
  by_cases hopening : t.kind = .leftParen
  · rw [nest_opening hopening] at h ⊢
    rw [← Option.some.inj h, Nat.add_right_comm]
  have hclosing : t.kind = .rightParen := by
    by_contra hclosing
    exact hneutral ⟨hopening, hclosing⟩
  cases n with
  | zero => simp [nest, hclosing] at h
  | succ n =>
    rw [nest_closing hclosing] at h
    rw [Nat.add_right_comm, nest_closing hclosing, Option.some.inj h]

/-- The depth behind some tokens is found one token at a time. -/
theorem depth?_cons (t : Token) (ts : List Token) (n : Nat) :
    depth? (t :: ts) n = (nest n t).bind (depth? ts) := rfl

/-- The depth behind tokens and further ones is found behind the former first. -/
theorem depth?_append (ts us : List Token) (n : Nat) :
    depth? (ts ++ us) n = (depth? ts n).bind (depth? us) :=
  List.foldlM_append

/-- Tokens go as well in front of a greater depth. -/
theorem depth?_add (h : depth? ts n = some m) (k : Nat) : depth? ts (n + k) = some (m + k) := by
  induction ts generalizing n with
  | nil =>
    obtain rfl := Option.some.inj h
    rfl
  | cons t ts ih =>
    obtain ⟨depth, hfirst, hrest⟩ := Option.bind_eq_some_iff.1 h
    rw [depth?_cons, nest_add hfirst k]
    exact ih hrest

/-- The depth does not depend on where the tokens stand. -/
theorem depth?_alike (h : Forall₂ Alike ts us) (n : Nat) : depth? ts n = depth? us n := by
  induction h generalizing n with
  | nil => rfl
  | @cons t u ts us hfirst _ ih =>
    have hnest : nest n t = nest n u := by
      unfold nest
      rw [hfirst.kind]
    rw [depth?_cons, depth?_cons, hnest]
    exact congrArg _ (funext ih)

/-- Whether tokens are balanced does not depend on where they stand. -/
theorem balanced_alike (h : Forall₂ Alike ts us) : Balanced ts ↔ Balanced us := by
  unfold Balanced
  rw [depth?_alike h]

/-- Nothing but opening parentheses goes down by all of them. -/
theorem depth?_openings (h : ∀ t ∈ ts, t.kind = .leftParen) (n : Nat) :
    depth? ts n = some (n + ts.length) := by
  induction ts generalizing n with
  | nil => rfl
  | cons t ts ih =>
    obtain ⟨hfirst, hrest⟩ := List.forall_mem_cons.1 h
    rw [depth?_cons, nest_opening hfirst]
    show depth? ts (n + 1) = _
    rw [ih hrest, List.length_cons, Nat.add_right_comm, Nat.add_assoc]

namespace Balanced

/-- No tokens are balanced. -/
theorem nil : Balanced [] := rfl

/-- At any depth, balanced tokens end where they began. -/
theorem depth?_eq (h : Balanced ts) (n : Nat) : depth? ts n = some n := by
  have hall := depth?_add h n
  rwa [Nat.zero_add] at hall

/-- Behind balanced tokens it is as if they were not there. -/
theorem append_iff (h : Balanced ts) : Balanced (ts ++ us) ↔ Balanced us := by
  unfold Balanced
  rw [depth?_append, h]
  rfl

/-- In front of balanced tokens it is as if they were not there. -/
theorem append_left_iff (h : Balanced us) : Balanced (ts ++ us) ↔ Balanced ts := by
  unfold Balanced
  rw [depth?_append]
  cases depth? ts 0 with
  | none => exact iff_of_false (by simp) (by simp)
  | some depth =>
    rw [Option.bind_some, h.depth?_eq depth]

/-- A token in front that is no parenthesis does not matter. -/
theorem neutral_cons_iff (h : Neutral t) : Balanced (t :: ts) ↔ Balanced ts := by
  unfold Balanced
  rw [depth?_cons, nest_neutral h]
  rfl

/-- A single token that is no parenthesis is balanced. -/
theorem singleton {kind : TokenKind} (h : t.kind = kind)
    (hkind : kind ≠ .leftParen ∧ kind ≠ .rightParen) : Balanced [t] :=
  (neutral_cons_iff (.of_kind h hkind)).2 nil

/-- Balanced tokens behind balanced tokens are balanced. -/
theorem append (h : Balanced ts) (h' : Balanced us) : Balanced (ts ++ us) :=
  h.append_iff.2 h'

/-- Balanced tokens in parentheses are balanced. -/
theorem enclosed (hopening : t.kind = .leftParen) (hclosing : u.kind = .rightParen)
    (h : Balanced ts) : Balanced (t :: (ts ++ [u])) := by
  unfold Balanced
  rw [depth?_cons, nest_opening hopening]
  show depth? (ts ++ [u]) 1 = some 0
  rw [depth?_append, h.depth?_eq 1]
  show depth? [u] 1 = some 0
  rw [depth?_cons, nest_closing hclosing]
  rfl

/-- What balanced tokens open at their beginning is missing in no piece of balanced tokens that
begins behind it and reaches to their end. -/
theorem eq_nil_of_openings {openings behind : List Token}
    (hopenings : ∀ t ∈ openings, t.kind = .leftParen) (h : Balanced (openings ++ ts))
    (hpiece : Balanced (ts ++ behind)) : openings = [] := by
  unfold Balanced at h hpiece
  rw [depth?_append, depth?_openings hopenings] at h
  rw [depth?_append] at hpiece
  obtain ⟨depth, hts, -⟩ := Option.bind_eq_some_iff.1 hpiece
  have hdeeper := depth?_add hts openings.length
  have hsame := Option.some.inj (hdeeper.symm.trans h)
  exact List.eq_nil_of_length_eq_zero (by omega)

/-- Nothing but closing parentheses is not balanced. -/
theorem eq_nil_of_closings (hclosings : ∀ t ∈ ts, t.kind = .rightParen) (h : Balanced ts) :
    ts = [] := by
  cases ts with
  | nil => rfl
  | cons t ts =>
    have hfirst := hclosings t (List.mem_cons_self ..)
    simp [Balanced, depth?_cons, nest, hfirst] at h

end Balanced

/-! ## Derivations -/

/-- From some tokens up to others, the tokens are balanced. -/
def Covers (ts rest : List Token) : Prop := ∃ covered, ts = covered ++ rest ∧ Balanced covered

namespace Covers

variable {mid rest : List Token} {opening closing : Token}

/-- Nothing covers nothing. -/
theorem refl : Covers ts ts := ⟨[], rfl, .nil⟩

/-- What is covered one behind the other is covered together. -/
theorem trans (h : Covers ts mid) (h' : Covers mid rest) : Covers ts rest := by
  obtain ⟨first, rfl, hfirst⟩ := h
  obtain ⟨second, rfl, hsecond⟩ := h'
  exact ⟨first ++ second, (List.append_assoc ..).symm, hfirst.append hsecond⟩

/-- A token in front that is no parenthesis is covered too. -/
theorem cons (ht : Neutral t) (h : Covers ts rest) : Covers (t :: ts) rest := by
  obtain ⟨covered, rfl, hcovered⟩ := h
  exact ⟨t :: covered, rfl, (Balanced.neutral_cons_iff ht).2 hcovered⟩

/-- A token that is no parenthesis is covered. -/
theorem token {kind : TokenKind} (h : t.kind = kind)
    (hkind : kind ≠ .leftParen ∧ kind ≠ .rightParen) : Covers (t :: ts) ts :=
  refl.cons (.of_kind h hkind)

/-- A piece in parentheses is covered with them. -/
theorem enclosed (hopening : opening.kind = .leftParen) (hclosing : closing.kind = .rightParen)
    (h : Covers ts (closing :: rest)) : Covers (opening :: ts) rest := by
  obtain ⟨covered, rfl, hcovered⟩ := h
  exact ⟨opening :: (covered ++ [closing]), by simp, hcovered.enclosed hopening hclosing⟩

/-- What is covered is balanced. -/
theorem balanced {covered : List Token} (h : Covers ts rest) (hts : ts = covered ++ rest) :
    Balanced covered := by
  obtain ⟨covered', hts', hbalanced⟩ := h
  rwa [List.append_cancel_right (hts.symm.trans hts')]

end Covers

end Token

namespace Grammar

open Token (Covers Neutral)

variable {t : Token} {op : BinaryOp}

/-- The operator of a product is no parenthesis. -/
theorem neutral_of_productOp? (h : productOp? t.kind = some op) : Neutral t := by
  constructor <;> intro hkind <;> simp [hkind, productOp?] at h

/-- The operator of a sum is no parenthesis. -/
theorem neutral_of_sumOp? (h : sumOp? t.kind = some op) : Neutral t := by
  constructor <;> intro hkind <;> simp [hkind, sumOp?] at h

mutual

/-- A primary closes all the parentheses that it opens. -/
theorem Primary.covers {ts rest : List Token} : Primary ts rest → Covers ts rest
  | .integer _ _ kind _ => .token kind (by decide)
  | .float _ _ kind _ => .token kind (by decide)
  | .string _ kind => .token kind (by decide)
  | .name _ kind _ => .token kind (by decide)
  | .call _ _ _ kinds arguments =>
    .cons (.of_kind kinds.1 (by decide)) (.enclosed kinds.2.1 kinds.2.2 arguments.covers)
  | .group _ _ kinds inner => .enclosed kinds.1 kinds.2 inner.covers
  | .negate _ kind operand => .cons (.of_kind kind (by decide)) operand.covers

/-- Further factors close all the parentheses that they open. -/
theorem Factors.covers {ts rest : List Token} : Factors ts rest → Covers ts rest
  | .done _ => .refl
  | .more _ _ kind factor others =>
    .cons (neutral_of_productOp? kind) (factor.covers.trans others.covers)

/-- A product closes all the parentheses that it opens. -/
theorem Product.covers {ts rest : List Token} : Product ts rest → Covers ts rest
  | .mk first others => first.covers.trans others.covers

/-- Further products close all the parentheses that they open. -/
theorem Summands.covers {ts rest : List Token} : Summands ts rest → Covers ts rest
  | .done _ => .refl
  | .more _ _ kind summand others =>
    .cons (neutral_of_sumOp? kind) (summand.covers.trans others.covers)

/-- An expression closes all the parentheses that it opens. -/
theorem Expression.covers {ts rest : List Token} : Expression ts rest → Covers ts rest
  | .mk first others => first.covers.trans others.covers

/-- Arguments close all the parentheses that they open. -/
theorem Arguments.covers {ts rest : List Token} : Arguments ts rest → Covers ts rest
  | .none => .refl
  | .bare first others => first.covers.trans others.covers
  | .comma _ kind first others =>
    first.covers.trans (.cons (.of_kind kind (by decide)) others.covers)

end

end Grammar

end CatScript
