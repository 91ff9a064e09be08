import CatScript.Proofs.Evaluation.Blame
import CatScript.Proofs.Evaluation.Deeds

/-!
# What a run never looks at

No function is ever called.  The arguments of a call are not evaluated, and of a declared function
only the name makes a difference: its body is not executed, and the number of its parameters is kept
but never asked for.  A pruned program is a program without all of that, and two programs with the
same pruned program do the same (`Session.run_pruned`).  Sessions are compared by what can be asked
of them: what the variables stand for, which functions are declared, and the sink.
-/

set_option autoImplicit false

namespace CatScript

/-! ## Pruned programs -/

/-- An expression without the arguments of its calls. -/
def Expr.pruned : Expr → Expr
  | .string value span => .string value span
  | .integer value span => .integer value span
  | .float value span => .float value span
  | .identifier name span => .identifier name span
  | .call function _ span => .call function [] span
  | .negate operand span => .negate operand.pruned span
  | .binary op left right span => .binary op left.pruned right.pruned span

/-- A statement without the arguments of its calls, and without the parameters and the body of the
function that it declares. -/
def Stmt.pruned : Stmt → Stmt
  | .print argument span => .print argument.pruned span
  | .declare name value span => .declare name value.pruned span
  | .access name span => .access name span
  | .trick name _ _ span => .trick name [] [] span
  | .expression value span => .expression value.pruned span

/-- A program of pruned statements. -/
def Program.pruned (program : Program) : Program := ⟨program.statements.map Stmt.pruned⟩

/-- Pruning leaves a statement where it is. -/
@[simp] theorem Stmt.span_pruned (statement : Stmt) : statement.pruned.span = statement.span := by
  cases statement <;> rfl

/-- Pruning leaves the last statement where it is. -/
theorem Program.lastSpan_pruned (program : Program) :
    program.pruned.lastSpan = program.lastSpan := by
  rw [lastSpan, pruned, List.getLast?_map, Option.map_map]
  exact congrArg (Option.getD · _)
    (congrArg (program.statements.getLast?.map ·) (funext Stmt.span_pruned))

/-- There is nothing left to prune of a program that is pruned. -/
theorem Program.pruned_pruned (program : Program) : program.pruned.pruned = program.pruned := by
  have hexpr : (e : Expr) → e.pruned.pruned = e.pruned := by
    intro e
    induction e using Expr.pruned.induct <;> simp_all [Expr.pruned]
  have hstmt : ∀ s : Stmt, s.pruned.pruned = s.pruned := by
    intro s
    cases s <;> simp [Stmt.pruned, hexpr]
  simp [pruned, hstmt]

/-! ## Scopes that cannot be told apart -/

/-- Two scopes in which the variables have the same values and the same functions are declared, with
whatever number of parameters. -/
structure Scope.Matches (a b : Scope) : Prop where
  bindings : ∀ name, a.bindings.get? name = b.bindings.get? name
  functions : ∀ name, a.functions.contains name = b.functions.contains name

namespace Scope.Matches

variable {a b : Scope}

/-- A scope matches itself. -/
theorem refl (a : Scope) : a.Matches a := ⟨fun _ => rfl, fun _ => rfl⟩

/-- The same variable is declared in two scopes that match. -/
theorem define (h : a.Matches b) (name : String) (value : Value) :
    (a.define name value).Matches (b.define name value) where
  bindings other := by
    rw [Scope.define, Scope.define, Bindings.get?_bind, Bindings.get?_bind, h.bindings]
  functions := h.functions

/-- The same function is declared in two scopes that match, with whatever number of parameters. -/
theorem declare (h : a.Matches b) (name : String) (arity arity' : Nat) :
    (a.declare name arity).Matches (b.declare name arity') where
  bindings := h.bindings
  functions other := by
    have hother := h.functions other
    simp only [Bindings.contains, Scope.declare, Bindings.get?_bind] at hother ⊢
    split
    · rfl
    · exact hother

/-- A variable is looked up alike in two scopes that match. -/
theorem lookup_eq (h : a.Matches b) (name : String) (span : Span) :
    a.lookup name span = b.lookup name span := by
  rw [lookup, lookup, h.bindings]

/-- An expression comes to the same in scopes that match. -/
theorem eval_eq (h : a.Matches b) : (e : Expr) → e.eval a = e.eval b
  | .string _ _ | .integer _ _ | .float _ _ => rfl
  | .identifier name span => by
    rw [Expr.eval, Expr.eval, h.lookup_eq]
  | .call name _ span => by
    rw [Expr.eval, Expr.eval, callCause, callCause, h.functions]
  | .negate operand span => by
    rw [Expr.eval, Expr.eval, h.eval_eq operand]
  | .binary op left right span => by
    rw [Expr.eval, Expr.eval, h.eval_eq left, h.eval_eq right]

/-- A statement finds the same to do in scopes that match. -/
theorem deed_eq (h : a.Matches b) (statement : Stmt) : statement.deed a = statement.deed b := by
  cases statement with
  | print argument span => rw [Stmt.deed, Stmt.deed, h.eval_eq]
  | declare name value span => rw [Stmt.deed, Stmt.deed, h.eval_eq]
  | access name span => rw [Stmt.deed, Stmt.deed, h.lookup_eq]
  | trick name parameters body span => rfl
  | expression value span => rw [Stmt.deed, Stmt.deed, h.eval_eq]

end Scope.Matches

/-! ## What pruning changes -/

/-- A pruned expression comes to the same. -/
theorem Expr.eval_pruned (scope : Scope) : (e : Expr) → e.pruned.eval scope = e.eval scope
  | .string _ _ | .integer _ _ | .float _ _ | .identifier _ _ | .call _ _ _ => rfl
  | .negate operand span => by
    rw [pruned, eval, eval, operand.eval_pruned]
  | .binary op left right span => by
    rw [pruned, eval, eval, left.eval_pruned, right.eval_pruned]

/-- A deed without the number of parameters. -/
def Deed.pruned : Deed → Deed
  | .nothing => .nothing
  | .print text => .print text
  | .define name value => .define name value
  | .declare name _ => .declare name 0

/-- A pruned statement finds the same to do, up to the number of parameters. -/
theorem Stmt.deed_pruned (scope : Scope) (statement : Stmt) :
    statement.pruned.deed scope = (statement.deed scope).map Deed.pruned := by
  cases statement with
  | print argument span =>
    rw [pruned, deed, deed, argument.eval_pruned]
    cases argument.eval scope <;> rfl
  | declare name value span =>
    rw [pruned, deed, deed, value.eval_pruned]
    cases value.eval scope <;> rfl
  | access name span =>
    rw [pruned, deed]
    cases scope.lookup name span <;> rfl
  | trick name parameters body span => rfl
  | expression value span =>
    rw [pruned, deed, deed, value.eval_pruned]
    cases value.eval scope <;> rfl

namespace Session

variable {s t : Session}

/-- Two sessions that write to the same sink, in scopes that match. -/
structure Matches (s t : Session) : Prop where
  scope : s.scope.Matches t.scope
  sink : s.sink = t.sink

/-- Deeds that differ at most in the number of parameters have the same effect. -/
theorem perform_matches (h : s.Matches t) (span : Span) {deed deed' : Deed}
    (hdeed : deed.pruned = deed'.pruned) :
    Agree id Matches (s.perform span deed) (t.perform span deed') := by
  obtain ⟨scope, sink, journal⟩ := s
  obtain ⟨scope', _, journal'⟩ := t
  obtain ⟨hscope, rfl⟩ := h
  cases deed with
  | nothing =>
    cases deed' <;> simp only [Deed.pruned, reduceCtorEq] at hdeed
    exact ⟨rfl, hscope, rfl⟩
  | print text =>
    cases deed' <;> simp only [Deed.pruned, reduceCtorEq, Deed.print.injEq] at hdeed
    subst hdeed
    exact ⟨rfl, hscope, rfl⟩
  | define name value =>
    cases deed' <;> simp only [Deed.pruned, reduceCtorEq, Deed.define.injEq] at hdeed
    obtain ⟨rfl, rfl⟩ := hdeed
    exact ⟨rfl, hscope.define name value, rfl⟩
  | declare name arity =>
    cases deed' <;> simp only [Deed.pruned, reduceCtorEq, Deed.declare.injEq, and_true] at hdeed
    subst hdeed
    exact ⟨rfl, hscope.declare name arity _, rfl⟩

/-- Statements with the same pruned statement have the same effect. -/
theorem exec_matches {a b : Stmt} (hpruned : a.pruned = b.pruned) (h : s.Matches t) :
    Agree id Matches (s.exec a) (t.exec b) := by
  have hspan : a.span = b.span := by rw [← a.span_pruned, hpruned, b.span_pruned]
  have hdeed : (a.deed s.scope).map Deed.pruned = (b.deed t.scope).map Deed.pruned := by
    rw [← Stmt.deed_pruned, ← Stmt.deed_pruned, hpruned, h.scope.deed_eq]
  rw [exec_eq_settle, exec_eq_settle, hspan]
  exact settle_agree h (congrArg (Except.mapError id) hdeed) fun _ _ => perform_matches h b.span

/-- Programs with the same pruned program have the same effect. -/
theorem run_matches {p q : Program} (hpruned : p.pruned = q.pruned) (h : s.Matches t) :
    Agree id Matches (s.run p) (t.run q) := by
  have hspan : p.lastSpan = q.lastSpan := by
    rw [← p.lastSpan_pruned, hpruned, q.lastSpan_pruned]
  refine run_agree (congrArg Program.statements hpruned) (fun hab _ _ => exec_matches hab) ?_ h
  rintro ⟨scope, sink, journal⟩ ⟨scope', _, journal'⟩ ⟨hscope, rfl⟩
  rw [hspan]
  exact ⟨rfl, hscope, rfl⟩

/-! ## Names that a run introduces -/

/-- Every name that has a meaning afterwards had one before, or is declared by one of the
statements. -/
structure Introduces (statements : List Stmt) (before after : Scope) : Prop where
  functions : ∀ name, after.functions.contains name → before.functions.contains name ∨
    ∃ parameters body span, Stmt.trick name parameters body span ∈ statements
  bindings : ∀ name, after.bindings.contains name → before.bindings.contains name ∨
    ∃ value span, Stmt.declare name value span ∈ statements

/-- Where nothing changes, nothing is introduced. -/
theorem Introduces.refl (statements : List Stmt) (scope : Scope) :
    Introduces statements scope scope :=
  ⟨fun _ h => .inl h, fun _ h => .inl h⟩

/-- What a statement and those behind it introduce is introduced by all of them. -/
theorem Introduces.cons {statement : Stmt} {rest : List Stmt} {before mid after : Scope}
    (hfirst : Introduces [statement] before mid) (hrest : Introduces rest mid after) :
    Introduces (statement :: rest) before after where
  functions name h := by
    obtain hmid | ⟨parameters, body, span, hmem⟩ := hrest.functions name h
    · refine (hfirst.functions name hmid).imp_right ?_
      rintro ⟨parameters, body, span, hmem⟩
      exact ⟨parameters, body, span, List.mem_cons.2 (.inl (List.mem_singleton.1 hmem))⟩
    · exact .inr ⟨parameters, body, span, List.mem_cons_of_mem _ hmem⟩
  bindings name h := by
    obtain hmid | ⟨value, span, hmem⟩ := hrest.bindings name h
    · refine (hfirst.bindings name hmid).imp_right ?_
      rintro ⟨value, span, hmem⟩
      exact ⟨value, span, List.mem_cons.2 (.inl (List.mem_singleton.1 hmem))⟩
    · exact .inr ⟨value, span, List.mem_cons_of_mem _ hmem⟩

/-- A statement introduces only a name that it declares itself. -/
theorem introduces_exec (s : Session) (statement : Stmt) :
    Introduces [statement] s.scope (s.exec statement).2.scope := by
  rw [exec_eq_settle]
  cases hdeed : statement.deed s.scope with
  | error e => exact .refl _ _
  | ok deed =>
    change Introduces _ _ (s.perform statement.span deed).2.scope
    rw [scope_perform]
    cases deed with
    | nothing => exact .refl _ _
    | print text => exact .refl _ _
    | define name v =>
      obtain ⟨value, span, rfl, -⟩ := Stmt.deed_eq_define_iff.1 hdeed
      refine ⟨fun _ h => .inl h, fun other h => ?_⟩
      by_cases hname : other = name
      · exact .inr ⟨value, span, hname ▸ List.mem_singleton_self _⟩
      · rw [Bindings.contains, Deed.scope, Scope.define, Bindings.get?_bind, if_neg hname] at h
        exact .inl h
    | declare name arity =>
      obtain ⟨parameters, body, span, rfl⟩ := Stmt.deed_eq_declare hdeed
      refine ⟨fun other h => ?_, fun _ h => .inl h⟩
      by_cases hname : other = name
      · exact .inr ⟨parameters, body, span, hname ▸ List.mem_singleton_self _⟩
      · rw [Bindings.contains, Deed.scope, Scope.declare, Bindings.get?_bind, if_neg hname] at h
        exact .inl h

/-- Statements introduce only names that one of them declares, not what a body declares. -/
theorem introduces_execAll (statements : List Stmt) : ∀ s : Session,
    Introduces statements s.scope (s.execAll statements).2.scope := by
  induction statements with
  | nil => exact fun s => .refl _ _
  | cons statement rest ih =>
    intro s
    have hfirst := introduces_exec s statement
    rw [execAll_cons]
    rcases hmid : s.exec statement with ⟨_ | e, mid⟩
    all_goals rw [hmid] at hfirst
    · exact hfirst.cons (ih mid)
    · exact hfirst.cons (.refl rest _)

/-- A run introduces nothing but what its statements declare. -/
theorem introduces_run (s : Session) (program : Program) :
    Introduces program.statements s.scope (s.run program).2.scope := by
  rw [scope_run]
  exact introduces_execAll program.statements s

/-- Arguments, parameters and bodies make no difference.  Two programs with the same pruned program,
run in sessions with the same variables, the same declared functions and the same sink, have the
same outcome with the same error at the same place, and leave the same variables, the same declared
functions and the same sink.  A run gives a meaning to no name but those that its topmost statements
declare, so that nothing in a body ever declares anything; and what it fails with is what the run of
the pruned program fails with, and arises in a node of that. -/
theorem run_pruned {p q : Program} (hpruned : p.pruned = q.pruned) {s t : Session}
    (h : s.Matches t) :
    (s.run p).1 = (t.run q).1 ∧ (s.run p).2.Matches (t.run q).2 ∧
      Introduces p.statements s.scope (s.run p).2.scope ∧
      ∀ e, (s.run p).1 = some e → (s.run p.pruned).1 = some e ∧
        ((∃ top ∈ p.pruned.children, e.ArisesIn top) ∨
          e.cause.stage = .runtime ∧ e.span = Span.point Position.start) := by
  have hrun := run_matches hpruned h
  have hself := run_matches p.pruned_pruned.symm (s := s) ⟨.refl s.scope, rfl⟩
  have houtcome {x y : Option Error × Session} (h : Agree id Matches x y) : x.1 = y.1 := by
    simpa using h.outcome
  refine ⟨houtcome hrun, hrun.left, introduces_run s p, fun e he => ?_⟩
  have hfails : (s.run p.pruned).1 = some e := (houtcome hself).symm.trans he
  exact ⟨hfails, run_error (Prod.ext hfails rfl)⟩

/-- A program with mistakes only where a run does not look: its function prints a variable that
nothing stands for, and its call divides by zero. -/
def overgrown : Program :=
  ⟨[.trick "play" [⟨"toy", ⟨11, 14, 1, 12⟩⟩]
      [.declare "hidden" (.integer 1 ⟨34, 35, 2, 17⟩) ⟨20, 35, 2, 3⟩,
        .print (.identifier "ghost" ⟨43, 48, 3, 8⟩) ⟨38, 49, 3, 3⟩] ⟨0, 51, 1, 1⟩,
    .print (.string "hi" ⟨57, 61, 5, 6⟩) ⟨52, 62, 5, 1⟩,
    .declare "x" (.binary .add (.integer 1 ⟨72, 73, 6, 10⟩)
      (.call "play" [.binary .divide (.integer 1 ⟨81, 82, 6, 19⟩) (.integer 0 ⟨85, 86, 6, 23⟩)
          ⟨81, 86, 6, 19⟩, .identifier "ghost" ⟨88, 93, 6, 26⟩] ⟨76, 94, 6, 14⟩)
      ⟨72, 94, 6, 10⟩) ⟨63, 94, 6, 1⟩]⟩

/-- The same program with neither a body nor arguments. -/
def trimmed : Program :=
  ⟨[.trick "play" [] [] ⟨0, 51, 1, 1⟩,
    .print (.string "hi" ⟨57, 61, 5, 6⟩) ⟨52, 62, 5, 1⟩,
    .declare "x" (.binary .add (.integer 1 ⟨72, 73, 6, 10⟩) (.call "play" [] ⟨76, 94, 6, 14⟩)
      ⟨72, 94, 6, 10⟩) ⟨63, 94, 6, 1⟩]⟩

/-- Both programs fail at the call, though behind functions with different numbers of parameters,
and with the same output; and what the body declares is not declared. -/
theorem run_pruned_overgrown :
    let s : Session := ⟨Scope.empty.declare "nap" 2, Sink.working, #[]⟩
    let t : Session := ⟨Scope.empty.declare "nap" 5, Sink.working, #[]⟩
    overgrown.pruned = trimmed.pruned ∧ s.Matches t ∧
      (s.run overgrown).1 = (t.run trimmed).1 ∧
      (s.run overgrown).1 = some (.of (.unsupportedCall "play") ⟨76, 94, 6, 14⟩) ∧
      (s.run overgrown).2.Matches (t.run trimmed).2 ∧
      (s.run overgrown).2.sink.held = "hi\n".toUTF8 ∧
      ¬ (s.run overgrown).2.scope.bindings.contains "hidden" := by
  intro s t
  have hpruned : overgrown.pruned = trimmed.pruned := rfl
  have hmatches : s.Matches t := ⟨(Scope.Matches.refl Scope.empty).declare "nap" 2 5, rfl⟩
  obtain ⟨houtcome, hleft, hintroduces, -⟩ := run_pruned hpruned hmatches
  refine ⟨hpruned, hmatches, houtcome, by cbv, hleft, by cbv, fun hhidden => ?_⟩
  obtain hbefore | ⟨value, span, hmem⟩ := hintroduces.bindings "hidden" hhidden
  · exact absurd hbefore (by decide)
  · simp [overgrown] at hmem

end Session

end CatScript
