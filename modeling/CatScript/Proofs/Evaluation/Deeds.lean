import CatScript.Proofs.Evaluation.Steps

/-!
# What a statement does

A statement first finds out what there is to do, and then the session does it.  What there is to do
is the statement's `Deed`: nothing that lasts, a line to print, a variable to bind, or a function to
declare.  `Stmt.deed` reads it off the scope alone and touches nothing, and `Session.perform` does
it.  That the execution of a statement is one behind the other is `Session.exec_eq_settle`; whatever
is said of statements in two runs, or of statements that fail, is said of their deeds.  What a deed
does to the names is `Deed.value?` and `Deed.declares`, and what it does to the sink `Deed.emit`.
-/

set_option autoImplicit false

namespace CatScript

/-- What there is to do for a statement once it has been evaluated. -/
inductive Deed
  | nothing
  | print (text : String)
  | define (name : String) (value : Value)
  | declare (name : String) (arity : Nat)

/-- The name of the variable that a statement declares. -/
def Stmt.variableName? : Stmt → Option String
  | .declare name _ _ => some name
  | _ => none

/-- The name of the function that a statement declares. -/
def Stmt.functionName? : Stmt → Option String
  | .trick name _ _ _ => some name
  | _ => none

/-- The variable that a statement declares is the one that it names in front of a value. -/
theorem Stmt.variableName?_eq_some_iff {statement : Stmt} {name : String} :
    statement.variableName? = some name ↔ ∃ value span, statement = .declare name value span := by
  cases statement <;> simp [variableName?]

/-- A statement that does not declare a variable is none of its declarations. -/
theorem Stmt.variableName?_ne_some_iff {statement : Stmt} {name : String} :
    statement.variableName? ≠ some name ↔ ∀ value span, statement ≠ .declare name value span := by
  simp [variableName?_eq_some_iff]

/-- The function that a statement declares is the one that it names in front of a body. -/
theorem Stmt.functionName?_eq_some_iff {statement : Stmt} {name : String} :
    statement.functionName? = some name ↔
      ∃ parameters body span, statement = .trick name parameters body span := by
  cases statement <;> simp [functionName?]

/-- The scope that a deed leaves behind. -/
def Deed.scope (before : Scope) : Deed → Scope
  | .nothing | .print _ => before
  | .define name value => before.define name value
  | .declare name arity => before.declare name arity

/-- What a deed does to a sink. -/
def Deed.emit (sink : Sink) : Deed → Option String × Sink
  | .print text => sink.write (text ++ "\n").toUTF8
  | _ => (none, sink)

/-- What a statement finds there is to do in a scope, or the error that it finds instead. -/
def Stmt.deed (scope : Scope) : Stmt → Except Error Deed
  | .print argument _ => (argument.eval scope).map fun v => .print v.text
  | .declare name value _ => (value.eval scope).map (.define name)
  | .access name span => (scope.lookup name span).map fun _ => .nothing
  | .trick name parameters _ _ => .ok (.declare name parameters.length)
  | .expression value _ => (value.eval scope).map fun _ => .nothing

/-- Only a print statement finds a line to print, and the line is the text of its argument. -/
theorem Stmt.deed_eq_print_iff {statement : Stmt} {scope : Scope} {text : String} :
    statement.deed scope = .ok (.print text) ↔
      ∃ argument span v, statement = .print argument span ∧ argument.eval scope = .ok v ∧
        text = v.text := by
  cases statement with
  | print argument span =>
    cases hv : argument.eval scope <;> simp [deed, hv, Except.map, eq_comm]
  | declare name value span =>
    cases hv : value.eval scope <;> simp [deed, hv, Except.map]
  | access name span =>
    cases hv : scope.lookup name span <;> simp [deed, hv, Except.map]
  | trick name parameters body span => simp [deed]
  | expression value span =>
    cases hv : value.eval scope <;> simp [deed, hv, Except.map]

/-- Only a declaration finds a variable to bind, and binds it to the value of its expression. -/
theorem Stmt.deed_eq_define_iff {statement : Stmt} {scope : Scope} {name : String} {v : Value} :
    statement.deed scope = .ok (.define name v) ↔
      ∃ value span, statement = .declare name value span ∧ value.eval scope = .ok v := by
  cases statement with
  | print argument span =>
    cases hv : argument.eval scope <;> simp [deed, hv, Except.map]
  | declare name' value span =>
    cases hv : value.eval scope with
    | error e => simp [deed, hv, Except.map]
    | ok w =>
      simp only [deed, hv, Except.map, Except.ok.injEq, Deed.define.injEq, declare.injEq]
      constructor
      · rintro ⟨rfl, rfl⟩
        exact ⟨value, span, ⟨rfl, rfl, rfl⟩, hv⟩
      · rintro ⟨value', span', ⟨rfl, rfl, rfl⟩, hv'⟩
        exact ⟨rfl, Except.ok.inj (hv.symm.trans hv')⟩
  | access name' span =>
    cases hv : scope.lookup name' span <;> simp [deed, hv, Except.map]
  | trick name' parameters body span => simp [deed]
  | expression value span =>
    cases hv : value.eval scope <;> simp [deed, hv, Except.map]

/-- Only a `trick` statement finds a function to declare. -/
theorem Stmt.deed_eq_declare {statement : Stmt} {scope : Scope} {name : String} {arity : Nat}
    (h : statement.deed scope = .ok (.declare name arity)) :
    ∃ parameters body span, statement = .trick name parameters body span := by
  cases statement with
  | print argument span => cases hv : argument.eval scope <;> simp [deed, hv, Except.map] at h
  | declare name' value span => cases hv : value.eval scope <;> simp [deed, hv, Except.map] at h
  | access name' span => cases hv : scope.lookup name' span <;> simp [deed, hv, Except.map] at h
  | trick name' parameters body span =>
    simp only [deed, Except.ok.injEq, Deed.declare.injEq] at h
    exact ⟨parameters, body, span, h.1 ▸ rfl⟩
  | expression value span => cases hv : value.eval scope <;> simp [deed, hv, Except.map] at h

/-! ## What a deed touches -/

/-- The value that a deed binds a variable to, if it binds that one. -/
def Deed.value? (name : String) : Deed → Option Value
  | .define bound value => if name = bound then some value else none
  | _ => none

/-- Whether a deed declares a function of this name. -/
def Deed.declares (name : String) : Deed → Bool
  | .declare declared _ => name = declared
  | _ => false

/-- After a deed a variable stands for what the deed gives it, if it does, and otherwise for what it
stood for. -/
theorem Deed.get?_scope (deed : Deed) (scope : Scope) (name : String) :
    (deed.scope scope).bindings.get? name = (deed.value? name).or (scope.bindings.get? name) := by
  cases deed with
  | define bound value =>
    rw [Deed.scope, Scope.define, Bindings.get?_bind, value?]
    split <;> rfl
  | nothing | print | declare => rfl

/-- After a deed those functions are declared that were, and the one that the deed declares. -/
theorem Deed.contains_scope (deed : Deed) (scope : Scope) (name : String) :
    (deed.scope scope).functions.contains name =
      (deed.declares name || scope.functions.contains name) := by
  cases deed with
  | declare declared arity =>
    rw [Deed.scope, Scope.declare, Bindings.contains, Bindings.get?_bind, declares]
    split <;> simp_all [Bindings.contains]
  | nothing | print | define => rfl

/-- What a statement finds there is to do binds a variable only if the statement declares it. -/
theorem Stmt.value?_deed {statement : Stmt} {scope : Scope} {deed : Deed} {name : String}
    (hdeed : statement.deed scope = .ok deed) (hname : statement.variableName? ≠ some name) :
    deed.value? name = none := by
  cases deed with
  | define bound v =>
    obtain ⟨value, span, rfl, -⟩ := Stmt.deed_eq_define_iff.1 hdeed
    exact if_neg fun h => hname (congrArg some h.symm)
  | nothing | print | declare => rfl

/-- What a statement finds there is to do declares a function if the statement does. -/
theorem Stmt.declares_deed {statement : Stmt} {scope : Scope} {deed : Deed} {name : String}
    (hdeed : statement.deed scope = .ok deed) :
    deed.declares name ↔ statement.functionName? = some name := by
  cases deed with
  | declare declared arity =>
    obtain ⟨parameters, body, span, rfl⟩ := Stmt.deed_eq_declare hdeed
    simp [Deed.declares, functionName?, eq_comm]
  | nothing | print | define =>
    refine ⟨nofun, fun hfunction => ?_⟩
    obtain ⟨parameters, body, span, rfl⟩ := Stmt.functionName?_eq_some_iff.1 hfunction
    exact nomatch hdeed

namespace Session

/-- Does a deed.  Only a line that the sink does not take is an error, at the given span. -/
def perform (s : Session) (span : Span) : Deed → Option Error × Session
  | .nothing => (none, s)
  | .print text => (s.record .trace .evaluator s!"purr {text}").print text span
  | .define name value =>
    let s := s.record .trace .evaluator s!"meow {name} = {value.text}"
    (none, { s with scope := s.scope.define name value })
  | .declare name arity =>
    let s := s.record .debug .evaluator s!"declared trick {name} with {arity} parameter(s)"
    (none, { s with scope := s.scope.declare name arity })

/-- Does the deed that was found, or stops at the error that was found instead. -/
def settle (s : Session) (span : Span) : Except Error Deed → Option Error × Session
  | .ok deed => s.perform span deed
  | .error e => (some e, s)

/-- A statement is executed by doing what it finds there is to do. -/
theorem exec_eq_settle (s : Session) (statement : Stmt) :
    s.exec statement = s.settle statement.span (statement.deed s.scope) := by
  cases statement with
  | print argument span =>
    rw [exec, Stmt.deed]
    cases argument.eval s.scope <;> rfl
  | declare name value span =>
    rw [exec, Stmt.deed]
    cases value.eval s.scope <;> rfl
  | access name span =>
    rw [exec, Stmt.deed]
    cases s.scope.lookup name span <;> rfl
  | trick name parameters body span => rfl
  | expression value span =>
    rw [exec, Stmt.deed]
    cases value.eval s.scope <;> rfl

/-- A statement that finds something to do does it. -/
theorem exec_eq_perform {s : Session} {statement : Stmt} {deed : Deed}
    (h : statement.deed s.scope = .ok deed) :
    s.exec statement = s.perform statement.span deed := by
  rw [exec_eq_settle, h]
  rfl

/-- The scope that a deed leaves does not depend on the sink. -/
theorem scope_perform (s : Session) (span : Span) (deed : Deed) :
    (s.perform span deed).2.scope = deed.scope s.scope := by
  cases deed <;> rfl

/-- Whether a deed can be done depends on the sink alone. -/
theorem perform_fst (s : Session) (span : Span) (deed : Deed) :
    (s.perform span deed).1 =
      (deed.emit s.sink).1.map fun reason => .of (.outputFailed reason) span := by
  cases deed <;> rfl

/-- The sink that a deed leaves depends on the sink alone. -/
theorem sink_perform (s : Session) (span : Span) (deed : Deed) :
    (s.perform span deed).2.sink = (deed.emit s.sink).2 := by
  cases deed <;> rfl

/-- A statement that succeeds has found something to do, the sink has not failed at that, and what
is left is what this leaves. -/
theorem exists_deed_of_exec {s after : Session} {statement : Stmt}
    (h : s.exec statement = (none, after)) :
    ∃ deed, statement.deed s.scope = .ok deed ∧ (deed.emit s.sink).1 = none ∧
      after.scope = deed.scope s.scope ∧ after.sink = (deed.emit s.sink).2 := by
  rw [exec_eq_settle] at h
  cases hdeed : statement.deed s.scope with
  | error e => simp [hdeed, settle] at h
  | ok deed =>
    rw [hdeed] at h
    have hperform : s.perform statement.span deed = (none, after) := h
    have hfst := perform_fst s statement.span deed
    rw [hperform] at hfst
    obtain rfl : (s.perform statement.span deed).2 = after := congrArg Prod.snd hperform
    exact ⟨deed, rfl, Option.map_eq_none_iff.1 hfst.symm, scope_perform .., sink_perform ..⟩

/-- A statement succeeds that finds something to do at which the sink does not fail. -/
theorem exec_of_deed {s : Session} {statement : Stmt} {deed : Deed}
    (h : statement.deed s.scope = .ok deed) (hemit : (deed.emit s.sink).1 = none) :
    ∃ after, s.exec statement = (none, after) ∧
      after.scope = deed.scope s.scope ∧ after.sink = (deed.emit s.sink).2 := by
  refine ⟨(s.perform statement.span deed).2, ?_, scope_perform .., sink_perform ..⟩
  rw [exec_eq_perform h]
  refine Prod.ext ?_ rfl
  rw [perform_fst, hemit]
  rfl

/-- A deed fails only where a line is printed, and then the sink has taken a part of the line and
nothing else has changed. -/
theorem perform_error {s after : Session} {span : Span} {deed : Deed} {e : Error}
    (h : s.perform span deed = (some e, after)) :
    ∃ text reason taken, deed = .print text ∧ e = .of (.outputFailed reason) span ∧
      after.scope = s.scope ∧
      after.sink.held = s.sink.held ++ (text ++ "\n").toUTF8.extract 0 taken := by
  cases deed with
  | nothing => simp [perform] at h
  | print text =>
    have hfst := congrArg Prod.fst h
    have hafter : (s.perform span (.print text)).2 = after := congrArg Prod.snd h
    rw [← hafter]
    change (s.sink.write (text ++ "\n").toUTF8).1.map (fun reason => Error.of _ span) = _ at hfst
    obtain ⟨reason, hreason, rfl⟩ := Option.map_eq_some_iff.1 hfst
    obtain ⟨hnone, -⟩ | ⟨taken, reason', -, hheld⟩ := Sink.held_write s.sink (text ++ "\n").toUTF8
    · rw [hnone] at hreason
      simp at hreason
    · exact ⟨text, reason, taken, rfl, rfl, rfl, hheld⟩
  | define name value => simp [perform] at h
  | declare name arity => simp [perform] at h

/-- Where two statements find things to do that look alike, or errors that look alike, they have the
same effect if things that look alike have. -/
theorem settle_agree {α β : Type} {look : Error → α} {f : Deed → β}
    {sessions : Session → Session → Prop} {s t : Session} (h : sessions s t) {span span' : Span}
    {x y : Except Error Deed} (hfound : (x.map f).mapError look = (y.map f).mapError look)
    (hperform : ∀ deed deed', f deed = f deed' →
      Agree look sessions (s.perform span deed) (t.perform span' deed')) :
    Agree look sessions (s.settle span x) (t.settle span' y) := by
  cases x with
  | error e =>
    cases y with
    | error e' => exact ⟨congrArg some (Except.error.inj hfound), h⟩
    | ok deed' => exact nomatch hfound
  | ok deed =>
    cases y with
    | error e' => exact nomatch hfound
    | ok deed' => exact hperform deed deed' (Except.ok.inj hfound)

end Session

end CatScript
