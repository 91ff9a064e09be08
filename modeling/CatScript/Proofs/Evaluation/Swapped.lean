import CatScript.Proofs.Evaluation.Pruned

/-!
# Statements that do not depend on each other

Two statements next to each other can change places if neither declares a variable that the other
declares or asks for, and not both print.  What an expression comes to depends on the variables that
it asks for and on no others (`Expr.eval_of_reads`), so each of the two finds the same to do in
front of the other as behind it; and what they do leaves scopes that match, whichever comes first
(`Session.execAll_swapped`).  Nothing behind them can tell these apart.  The top theorem is
`Session.run_swapped`.
-/

set_option autoImplicit false

namespace CatScript

/-! ## What is asked for -/

/-- The variables that an expression asks for.  The arguments of a call are not evaluated. -/
def Expr.reads : Expr → List String
  | .string _ _ | .integer _ _ | .float _ _ | .call _ _ _ => []
  | .identifier name _ => [name]
  | .negate operand _ => operand.reads
  | .binary _ left right _ => left.reads ++ right.reads

namespace Stmt

/-- The variables that a statement asks for.  The body of a function asks for none. -/
def reads : Stmt → List String
  | .print value _ | .declare _ value _ | .expression value _ => value.reads
  | .access name _ => [name]
  | .trick _ _ _ _ => []

/-- The statement is one that prints. -/
def Prints (statement : Stmt) : Prop := ∃ argument span, statement = .print argument span

/-- Neither of two statements declares a variable that the other declares or asks for, and not both
of them print. -/
structure Independent (a b : Stmt) : Prop where
  quiet : ¬ (a.Prints ∧ b.Prints)
  first : ∀ name, a.variableName? = some name → b.variableName? ≠ some name ∧ name ∉ b.reads
  second : ∀ name, b.variableName? = some name → a.variableName? ≠ some name ∧ name ∉ a.reads

end Stmt

/-- Two scopes in which the given variables stand for the same. -/
def Scope.AgreeOn (names : List String) (a b : Scope) : Prop :=
  ∀ name ∈ names, a.bindings.get? name = b.bindings.get? name

section Reads

variable {a b : Scope} {v : Value}

/-- A variable on which two scopes agree is looked up alike in both. -/
theorem Scope.AgreeOn.lookup {name : String} (h : a.AgreeOn [name] b) (span : Span) :
    a.lookup name span = b.lookup name span := by
  rw [Scope.lookup, Scope.lookup, h name (List.mem_singleton_self name)]

/-- The value of an expression depends on the variables that it asks for, and on no others.  A call
is what depends on the functions, and it has no value. -/
theorem Expr.eval_of_reads : (e : Expr) → a.AgreeOn e.reads b → ∀ {v : Value},
    e.eval a = .ok v → e.eval b = .ok v
  | .string _ _, _, _, hv | .integer _ _, _, _, hv | .float _ _, _, _, hv => hv
  | .identifier name span, h, v, hv => by
    rw [eval] at hv ⊢
    rw [← Scope.AgreeOn.lookup h]
    exact hv
  | .call name _ span, _, v, hv => by simp [eval] at hv
  | .negate operand span, h, v, hv => by
    rw [eval_negate] at hv ⊢
    cases hoperand : operand.eval a with
    | error e => simp [hoperand, bind, Except.bind] at hv
    | ok w =>
      rw [hoperand] at hv
      rw [operand.eval_of_reads h hoperand]
      exact hv
  | .binary op left right span, h, v, hv => by
    rw [eval_binary] at hv ⊢
    cases hleft : left.eval a with
    | error e => simp [hleft, bind, Except.bind] at hv
    | ok l =>
      cases hright : right.eval a with
      | error e => simp [hleft, hright, bind, Except.bind] at hv
      | ok r =>
        rw [hleft, hright] at hv
        rw [left.eval_of_reads (fun name hname => h name (List.mem_append_left _ hname)) hleft,
          right.eval_of_reads (fun name hname => h name (List.mem_append_right _ hname)) hright]
        exact hv

/-- What a statement finds there is to do depends on the variables that it asks for, and on no
others. -/
theorem Stmt.deed_of_reads {statement : Stmt} (h : a.AgreeOn statement.reads b) {deed : Deed}
    (hdeed : statement.deed a = .ok deed) : statement.deed b = .ok deed := by
  have hvalue (value : Expr) (hreads : a.AgreeOn value.reads b) (f : Value → Deed)
      (hfound : (value.eval a).map f = .ok deed) : (value.eval b).map f = .ok deed := by
    cases hv : value.eval a with
    | error e => simp [hv, Except.map] at hfound
    | ok v =>
      rw [hv] at hfound
      rw [value.eval_of_reads hreads hv]
      exact hfound
  cases statement with
  | print argument span => exact hvalue argument h _ hdeed
  | declare name value span => exact hvalue value h _ hdeed
  | access name span =>
    rw [Stmt.deed] at hdeed ⊢
    rw [← Scope.AgreeOn.lookup h]
    exact hdeed
  | trick name parameters body span => exact hdeed
  | expression value span => exact hvalue value h _ hdeed

end Reads

/-! ## Deeds that do not touch the same -/

namespace Deed

/-- A deed that prints nothing leaves every sink alone. -/
def Silent (deed : Deed) : Prop := ∀ sink, deed.emit sink = (none, sink)

/-- Deeds that do not bind the same variable leave scopes that match, whichever is done first. -/
theorem scope_comm {first second : Deed}
    (h : ∀ name, first.value? name = none ∨ second.value? name = none) (scope : Scope) :
    (second.scope (first.scope scope)).Matches (first.scope (second.scope scope)) where
  bindings name := by
    simp only [get?_scope]
    obtain hnone | hnone := h name
    · rw [hnone, Option.none_or, Option.none_or]
    · rw [hnone, Option.none_or, Option.none_or]
  functions name := by
    simp only [contains_scope]
    exact Bool.or_left_comm _ _ _

end Deed

/-- What a statement that does not print finds there is to do is silent. -/
theorem Stmt.silent_deed {statement : Stmt} {scope : Scope} {deed : Deed}
    (hdeed : statement.deed scope = .ok deed) (hquiet : ¬ statement.Prints) : deed.Silent := by
  cases deed with
  | print text =>
    obtain ⟨argument, span, v, rfl, -⟩ := Stmt.deed_eq_print_iff.1 hdeed
    exact absurd ⟨argument, span, rfl⟩ hquiet
  | nothing | define | declare => exact fun _ => rfl

/-- A statement finds the same to do in front of another one that binds none of its variables. -/
theorem Stmt.deed_scope {statement : Stmt} {scope : Scope} {other : Deed}
    (hreads : ∀ name ∈ statement.reads, other.value? name = none) (deed : Deed) :
    statement.deed (other.scope scope) = .ok deed ↔ statement.deed scope = .ok deed := by
  have hagree : (other.scope scope).AgreeOn statement.reads scope := fun name hname => by
    rw [Deed.get?_scope, hreads name hname, Option.none_or]
  exact ⟨deed_of_reads hagree, deed_of_reads fun name hname => (hagree name hname).symm⟩

namespace Session

variable {s mid after : Session} {a b : Stmt}

/-- Two statements one after the other that do not depend on each other, the other way round. -/
theorem execAll_swapped (h : a.Independent b) (hexec : s.execAll [a, b] = (none, after)) :
    ∃ after', s.execAll [b, a] = (none, after') ∧ after.Matches after' := by
  rw [execAll_cons] at hexec
  obtain ⟨mid, ha, hexec⟩ := andThen_eq_none hexec
  rw [execAll_cons] at hexec
  obtain ⟨last, hb, hlast⟩ := andThen_eq_none hexec
  obtain rfl : last = after := congrArg Prod.snd hlast
  obtain ⟨first, hfirst, hfirstTaken, hmidScope, hmidSink⟩ := exists_deed_of_exec ha
  obtain ⟨second, hsecond, hsecondTaken, hlastScope, hlastSink⟩ := exists_deed_of_exec hb
  have hfirstOther {name : String} (hname : b.variableName? = some name ∨ name ∈ b.reads) :
      first.value? name = none :=
    Stmt.value?_deed hfirst fun hbound => by
      obtain ⟨hnot, hnotRead⟩ := h.first name hbound
      exact hname.elim hnot hnotRead
  have hsecondOther {name : String} (hname : a.variableName? = some name ∨ name ∈ a.reads) :
      second.value? name = none :=
    Stmt.value?_deed hsecond fun hbound => by
      obtain ⟨hnot, hnotRead⟩ := h.second name hbound
      exact hname.elim hnot hnotRead
  -- The second one finds the same to do in front of the first one, and the first one behind it.
  rw [hmidScope, Stmt.deed_scope fun name hname => hfirstOther (.inr hname)] at hsecond
  have hfirst' : a.deed (second.scope s.scope) = .ok first :=
    (Stmt.deed_scope (fun name hname => hsecondOther (.inr hname)) first).2 hfirst
  -- One of them leaves the sink alone, so that the other one meets the same sink.
  have hemit : (second.emit s.sink).1 = none ∧ (first.emit (second.emit s.sink).2).1 = none ∧
      (first.emit (second.emit s.sink).2).2 = (second.emit (first.emit s.sink).2).2 := by
    by_cases hprints : a.Prints
    · have hsilent := Stmt.silent_deed hsecond fun hb => h.quiet ⟨hprints, hb⟩
      simp only [hsilent _, hfirstTaken, and_self]
    · have hsilent := Stmt.silent_deed hfirst hprints
      rw [hmidSink, hsilent] at hsecondTaken
      simp only [hsilent _, hsecondTaken, and_self]
  obtain ⟨mid', hb', hmidScope', hmidSink'⟩ := exec_of_deed hsecond hemit.1
  rw [← hmidScope'] at hfirst'
  rw [← hmidSink'] at hemit
  obtain ⟨after', ha', hafterScope', hafterSink'⟩ := exec_of_deed hfirst' hemit.2.1
  refine ⟨after', ?_, ?_, ?_⟩
  · rw [execAll_cons, hb']
    change mid'.execAll [a] = _
    rw [execAll_cons, ha']
    rfl
  · rw [hlastScope, hmidScope, hafterScope', hmidScope']
    refine Deed.scope_comm (fun name => ?_) s.scope
    by_cases hname : a.variableName? = some name
    · exact .inr (hsecondOther (.inl hname))
    · exact .inl (Stmt.value?_deed hfirst hname)
  · rw [hlastSink, hmidSink, hafterSink', hmidSink', ← hemit.2.2, hmidSink']

/-- Two statements next to each other that do not depend on each other can change places in a
program that succeeds.  It succeeds as well then, with the same output, and leaves every variable
with the same value and the same functions declared. -/
theorem run_swapped {left : Session} {before rest : List Stmt} (h : a.Independent b)
    (hrun : s.run ⟨before ++ a :: b :: rest⟩ = (none, left)) :
    ∃ left', s.run ⟨before ++ b :: a :: rest⟩ = (none, left') ∧
      left'.sink.held = left.sink.held ∧
      (∀ name, left'.scope.bindings.get? name = left.scope.bindings.get? name) ∧
      ∀ name, left'.scope.functions.contains name = left.scope.functions.contains name := by
  have hsplit (x y : Stmt) : (s.execAll (before ++ x :: y :: rest)) =
      andThen (s.execAll before) fun s => andThen (s.execAll [x, y]) (·.execAll rest) := by
    rw [execAll_append]
    refine congrArg (andThen (s.execAll before)) (funext fun mid => ?_)
    exact execAll_append [x, y] rest mid
  rw [run_eq_andThen] at hrun
  obtain ⟨last, hall, hflush⟩ := andThen_eq_none hrun
  rw [hsplit] at hall
  obtain ⟨front, hfront, hall⟩ := andThen_eq_none hall
  obtain ⟨behind, hpair, hrest⟩ := andThen_eq_none hall
  obtain ⟨behind', hpair', hmatches⟩ := execAll_swapped h hpair
  -- Whatever comes behind the two cannot tell their orders apart.
  have hagree : Agree id Matches (behind.execAll rest) (behind'.execAll rest) :=
    execAll_agree (fun {a b} (hab : a.pruned = b.pruned) _ _ => exec_matches hab) rfl hmatches
  rw [hrest] at hagree
  obtain ⟨last', hrest', hlast⟩ : ∃ last', behind'.execAll rest = (none, last') ∧
      last.Matches last' := by
    refine ⟨_, Prod.ext ?_ rfl, hagree.left⟩
    simpa using hagree.outcome.symm
  obtain rfl : (last.flush (Program.lastSpan ⟨before ++ a :: b :: rest⟩)).2 = left :=
    congrArg Prod.snd hflush
  have hgranted : last'.sink.flush.1 = none := by
    rw [← hlast.sink]
    exact Option.map_eq_none_iff.1 (congrArg Prod.fst hflush)
  refine ⟨(last'.flush (Program.lastSpan ⟨before ++ b :: a :: rest⟩)).2, ?_,
    (congrArg Sink.held hlast.sink).symm, fun name => (hlast.scope.bindings name).symm,
    fun name => (hlast.scope.functions name).symm⟩
  rw [run_eq_andThen, hsplit, hfront]
  change andThen (andThen (front.execAll [b, a]) _) _ = _
  rw [hpair']
  change andThen (behind'.execAll rest) _ = _
  rw [hrest']
  exact Prod.ext (congrArg (Option.map _) hgranted) rfl

/-- Declares a variable from another one. -/
def tally : Stmt :=
  .declare "y" (.binary .add (.identifier "x" ⟨20, 21, 2, 10⟩) (.integer 1 ⟨24, 25, 2, 14⟩)
    ⟨20, 25, 2, 10⟩) ⟨11, 25, 2, 1⟩

/-- Prints the variable that the other one is declared from. -/
def display : Stmt := .print (.identifier "x" ⟨31, 32, 3, 6⟩) ⟨26, 33, 3, 1⟩

/-- Declares that variable, which stands in front of both. -/
def supply : List Stmt := [.declare "x" (.integer 2 ⟨9, 10, 1, 10⟩) ⟨0, 10, 1, 1⟩]

/-- Prints the other variable, which stands behind both. -/
def total : List Stmt := [.print (.identifier "y" ⟨39, 40, 4, 6⟩) ⟨34, 41, 4, 1⟩]

/-- The declaration and the print statement only ask for the same variable, and in either order the
output is the same and so is the value of the variable that is declared. -/
theorem run_swapped_tally :
    tally.Independent display ∧
      ((start Sink.working).run ⟨supply ++ tally :: display :: total⟩).1 = none ∧
      ∃ left', (start Sink.working).run ⟨supply ++ display :: tally :: total⟩ = (none, left') ∧
        left'.sink.held = "2\n3\n".toUTF8 ∧
        left'.scope.bindings.get? "y" = some (.integer 3) := by
  have hindependent : tally.Independent display := by
    refine ⟨?_, ?_, ?_⟩
    · rintro ⟨⟨argument, span, h⟩, -⟩
      exact nomatch h
    · intro name h
      obtain rfl : "y" = name := Option.some.inj h
      exact ⟨nofun, by decide⟩
    · intro name h
      exact nomatch h
  have hrun : (start Sink.working).run ⟨supply ++ tally :: display :: total⟩ = (none, _) :=
    Prod.ext (by cbv) rfl
  obtain ⟨left', hrun', hheld, hbindings, -⟩ := run_swapped hindependent hrun
  exact ⟨hindependent, congrArg Prod.fst hrun, left', hrun', hheld.trans (by cbv),
    (hbindings "y").trans (by cbv)⟩

end Session

end CatScript
