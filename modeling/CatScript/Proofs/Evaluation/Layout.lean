import CatScript.Proofs.Evaluation.Deeds
import CatScript.Proofs.Evaluation.Kinds
import CatScript.Proofs.Syntax.Alike

/-!
# Layout makes no difference

Where the tokens of a script stand, and which blanks are between them, shows in the places that
errors point at and in nothing else.  Tokens that are alike are read as programs of the same shape
(`Program.alike_ofTokens`).  Expressions of the same shape have the same value, or fail with errors
that say the same (`Expr.what_eval`); so statements of the same shape have the same effect
(`Session.exec_layout`), and whole scripts whose tokens are alike have it too
(`Session.runText_layout`).
-/

set_option autoImplicit false

namespace CatScript

/-! ## Programs of the same shape -/

/-- Two computations one behind the other, seen through a view of errors. -/
theorem mapError_bind {ε ζ α β : Type} {x : Except ε α} {y : Except ε α} {f : ε → ζ}
    {g g' : α → Except ε β} (hx : x.mapError f = y.mapError f)
    (hg : ∀ a, (g a).mapError f = (g' a).mapError f) :
    (x >>= g).mapError f = (y >>= g').mapError f := by
  cases x with
  | error e =>
    cases y with
    | error e' => exact congrArg Except.error (Except.error.inj hx)
    | ok b => simp [Except.mapError] at hx
  | ok a =>
    cases y with
    | error e' => simp [Except.mapError] at hx
    | ok b =>
      obtain rfl : a = b := Except.ok.inj hx
      exact hg a

/-- Expressions of the same shape have the same value, or fail with errors that say the same. -/
theorem Expr.what_eval (scope : Scope) : (e e' : Expr) → e.shape = e'.shape →
    (e.eval scope).mapError Error.what = (e'.eval scope).mapError Error.what
  | .string s _, e', h => by
    cases e' <;> simp only [shape, reduceCtorEq, Shape.string.injEq] at h
    subst h
    rfl
  | .integer i _, e', h => by
    cases e' <;> simp only [shape, reduceCtorEq, Shape.integer.injEq] at h
    subst h
    rfl
  | .float x _, e', h => by
    cases e' <;> simp only [shape, reduceCtorEq, Shape.float.injEq] at h
    subst h
    rfl
  | .identifier name _, e', h => by
    cases e' <;> simp only [shape, reduceCtorEq, Shape.identifier.injEq] at h
    subst h
    rw [eval, eval, Scope.lookup, Scope.lookup]
    cases scope.bindings.get? name <;> rfl
  | .call name _ _, e', h => by
    cases e' <;> simp only [shape, reduceCtorEq, Shape.call.injEq] at h
    rw [eval, eval, h.1]
    rfl
  | .negate operand _, e', h => by
    cases e' <;> simp only [shape, reduceCtorEq, Shape.negate.injEq] at h
    rw [eval_negate, eval_negate]
    refine mapError_bind (operand.what_eval scope _ h) fun v => ?_
    cases v.negate <;> rfl
  | .binary op left right _, e', h => by
    cases e' <;> simp only [shape, reduceCtorEq, Shape.binary.injEq] at h
    obtain ⟨rfl, hleft, hright⟩ := h
    rw [eval_binary, eval_binary]
    refine mapError_bind (left.what_eval scope _ hleft) fun l => ?_
    refine mapError_bind (right.what_eval scope _ hright) fun r => ?_
    cases op.apply l r <;> rfl

/-- Statements of the same shape find the same to do, or errors that say the same. -/
theorem Stmt.what_deed (scope : Scope) {a b : Stmt} (h : a.shape = b.shape) :
    (a.deed scope).mapError Error.what = (b.deed scope).mapError Error.what := by
  have hmap {x y : Except Error Value} (hxy : x.mapError Error.what = y.mapError Error.what)
      (f : Value → Deed) : (x.map f).mapError Error.what = (y.map f).mapError Error.what := by
    have hbind := mapError_bind (g := fun v => .ok (f v)) hxy fun v => rfl
    cases x <;> cases y <;> exact hbind
  cases a with
  | print argument span =>
    cases b <;> simp only [shape, reduceCtorEq, Shape.print.injEq] at h
    exact hmap (argument.what_eval scope _ h) _
  | declare name value span =>
    cases b <;> simp only [shape, reduceCtorEq, Shape.declare.injEq] at h
    obtain ⟨rfl, h⟩ := h
    exact hmap (value.what_eval scope _ h) _
  | access name span =>
    cases b <;> simp only [shape, reduceCtorEq, Shape.access.injEq] at h
    subst h
    rw [deed, deed, Scope.lookup, Scope.lookup]
    cases scope.bindings.get? name <;> rfl
  | trick name parameters body span =>
    cases b <;> simp only [shape, reduceCtorEq, Shape.trick.injEq] at h
    obtain ⟨rfl, hparameters, -⟩ := h
    have hlength := congrArg List.length hparameters
    rw [List.length_map, List.length_map] at hlength
    rw [deed, deed, hlength]
  | expression value span =>
    cases b <;> simp only [shape, reduceCtorEq, Shape.expression.injEq] at h
    exact hmap (value.what_eval scope _ h) _

/-- The shapes of statements are found one by one. -/
theorem Stmt.shapes_eq_map (ss : List Stmt) : Stmt.shapes ss = ss.map Stmt.shape := by
  induction ss with
  | nil => rfl
  | cons s ss ih => rw [Stmt.shapes, ih, List.map_cons]

/-- The shape of a program is that of its statements. -/
theorem Program.shape_eq_map (p : Program) : p.shape = p.statements.map Stmt.shape :=
  Stmt.shapes_eq_map p.statements

namespace Session

/-! ## Steps that agree up to places -/

/-- A deed has the same effect at another place. -/
theorem perform_layout (s : Session) (span span' : Span) (deed : Deed) :
    Agree Error.what Eq (s.perform span deed) (s.perform span' deed) := by
  cases deed with
  | print text =>
    refine ⟨?_, rfl⟩
    change ((s.sink.write _).1.map _).map _ = ((s.sink.write _).1.map _).map _
    cases (s.sink.write (text ++ "\n").toUTF8).1 <;> rfl
  | nothing => exact ⟨rfl, rfl⟩
  | define name value => exact ⟨rfl, rfl⟩
  | declare name arity => exact ⟨rfl, rfl⟩

/-- Statements of the same shape have the same effect. -/
theorem exec_layout (s : Session) {a b : Stmt} (h : a.shape = b.shape) :
    Agree Error.what Eq (s.exec a) (s.exec b) := by
  rw [exec_eq_settle, exec_eq_settle]
  have hdeed := Stmt.what_deed s.scope h
  refine settle_agree rfl (f := id) (by simpa only [Except.map_id, id] using hdeed) ?_
  rintro deed _ rfl
  exact perform_layout s a.span b.span deed

/-- Programs of the same shape have the same effect. -/
theorem run_layout (s : Session) {p q : Program} (h : p.shape = q.shape) :
    Agree Error.what Eq (s.run p) (s.run q) := by
  rw [Program.shape_eq_map, Program.shape_eq_map] at h
  refine run_agree h ?_ ?_ rfl
  · rintro a b hab s _ rfl
    exact exec_layout s hab
  · rintro s _ rfl
    refine ⟨?_, rfl⟩
    change (s.sink.flush.1.map _).map _ = (s.sink.flush.1.map _).map _
    cases s.sink.flush.1 <;> rfl

/-- Programs of the same shape leave the same behind, and succeed alike. -/
theorem run_of_shape (s : Session) {p q : Program} (h : p.shape = q.shape) :
    (s.run p).2 = (s.run q).2 ∧ ((s.run p).1 = none ↔ (s.run q).1 = none) := by
  have hagree := run_layout s h
  refine ⟨hagree.left, ?_⟩
  rw [← Option.map_eq_none_iff (f := Error.what), hagree.outcome, Option.map_eq_none_iff]

/-- Scripts whose tokens are alike have the same effect, also where they have none or are no
programs. -/
theorem runText_layout (s : Session) {source other : String}
    (h : Token.plain (Token.ofText source) = Token.plain (Token.ofText other)) :
    Agree Error.what Eq (s.runText source) (s.runText other) := by
  unfold runText read
  obtain ⟨ts, us, hts, hus, halike⟩ | ⟨e, e', he, he', hwhat⟩ := Token.alike_of_plain h
  · -- The numbers of tokens and of statements are entered in the journal, so they matter as well.
    rw [hts, hus]
    dsimp only
    rw [halike.length_eq]
    obtain ⟨p, q, hp, hq, hshape⟩ | ⟨e, e', he, he', hwhat⟩ := Program.alike_ofTokens halike
    · rw [hp, hq]
      dsimp only
      have hlength := congrArg List.length hshape
      rw [p.shape_eq_map, q.shape_eq_map, List.length_map, List.length_map] at hlength
      rw [hlength]
      exact run_layout _ hshape
    · rw [he, he']
      exact ⟨congrArg some hwhat, rfl⟩
  · rw [he, he']
    exact ⟨congrArg some hwhat, rfl⟩

/-- Layout makes no difference.  Tokens that differ only in where they stand make up programs of the
same shape, which have the same effect in every session, or are rejected with the same expectation,
in front of the same kind of token, and with the same help.  So the blanks behind a token, if there
are any, can be exchanged for others in front of anything but the end of the text: what is run
leaves the same session, and both succeed or fail with errors that say the same, also where the
text has no tokens or is no program.  In particular that is so between two neighbouring tokens. -/
theorem run_independent_of_layout :
    (∀ ts us : List Token, ts.Forall₂ Token.Alike us →
      (∃ p q, Program.ofTokens ts = .ok p ∧ Program.ofTokens us = .ok q ∧ p.shape = q.shape ∧
        ∀ s : Session, (s.run p).2 = (s.run q).2 ∧
          (s.run p).1.map Error.what = (s.run q).1.map Error.what) ∨
      ∃ e e', Program.ofTokens ts = .error e ∧ Program.ofTokens us = .error e' ∧
        e.what = e'.what) ∧
    (∀ front gap gap' back : List Char, Token.EndsAt (front ++ (gap ++ back)) (gap ++ back) →
      back ≠ [] → (∀ c ∈ gap, Text.isBlank c = true) → (∀ c ∈ gap', Text.isBlank c = true) →
      gap' ≠ [] → ∀ s : Session,
        let source := String.ofList (front ++ (gap ++ back))
        let other := String.ofList (front ++ (gap' ++ back))
        (s.runText source).2 = (s.runText other).2 ∧
          (s.runText source).1.map Error.what = (s.runText other).1.map Error.what) ∧
    ∀ source before t u after, Token.ofText source = .ok (before ++ t :: u :: after) →
      u.kind ≠ .endOfInput → ∀ gap : List Char, (∀ c ∈ gap, Text.isBlank c = true) → gap ≠ [] →
      ∀ s : Session,
        let other := String.ofList
          (source.toList.take t.span.stop ++ (gap ++ source.toList.drop u.span.start))
        (s.runText source).2 = (s.runText other).2 ∧
          (s.runText source).1.map Error.what = (s.runText other).1.map Error.what := by
  -- The last two parts are about one gap that is exchanged for another.
  have hrespaced {front gap gap' back : List Char}
      (hends : Token.EndsAt (front ++ (gap ++ back)) (gap ++ back)) (hback : back ≠ [])
      (hgap : ∀ c ∈ gap, Text.isBlank c = true) (hgap' : ∀ c ∈ gap', Text.isBlank c = true)
      (hne : gap' ≠ []) (s : Session) :
      Agree Error.what Eq (s.runText (String.ofList (front ++ (gap ++ back))))
        (s.runText (String.ofList (front ++ (gap' ++ back)))) := by
    apply runText_layout
    unfold Token.ofText
    rw [String.toList_ofList, String.toList_ofList]
    exact Token.plain_respaced hends rfl rfl hback hgap hgap' hne _ _
  refine ⟨fun ts us h => ?_, fun front gap gap' back hends hback hgap hgap' hne s => ?_,
    fun source before t u after htokens hu gap hgap hne s => ?_⟩
  · refine (Program.alike_ofTokens h).imp_left ?_
    rintro ⟨p, q, hp, hq, hshape⟩
    exact ⟨p, q, hp, hq, hshape, fun s =>
      ⟨(run_layout s hshape).left, (run_layout s hshape).outcome⟩⟩
  · have hagree := hrespaced hends hback hgap hgap' hne s
    exact ⟨hagree.left, hagree.outcome⟩
  · obtain ⟨front, between, back, htext, hends, hback, hbetween, hstop, hstart⟩ :=
      Token.endsAt_of_scanFrom Position.start source.toList htokens hu
    have hfront : source.toList.take t.span.stop = front := by
      rw [htext, hstop, show Position.start.offset = 0 from rfl, Nat.zero_add, List.take_left]
    have hdrop : source.toList.drop u.span.start = back := by
      rw [htext, hstart, show Position.start.offset = 0 from rfl, Nat.zero_add,
        ← List.length_append, ← List.append_assoc, List.drop_left]
    have hsource : source = String.ofList (front ++ (between ++ back)) := by
      rw [← htext, String.ofList_toList]
    have hagree := hrespaced (htext ▸ hends) hback hbetween hgap hne s
    rw [← hsource] at hagree
    rw [hfront, hdrop]
    exact ⟨hagree.left, hagree.outcome⟩

/-- A division by zero in the middle of which a wide blank and a line end are put fails alike, two
lines long; blanks exchanged for others in front of a character that belongs to no token leave the
error about it; and a token that stands elsewhere makes up the same program. -/
theorem run_independent_of_layout_spread :
    let s := start Sink.working
    (s.runText "purr(1/0)").1 = some (.of .divisionByZero ⟨5, 8, 1, 6⟩) ∧
      (s.runText "purr(1\u3000\n/0)").1 = some (.of .divisionByZero ⟨5, 10, 1, 6⟩) ∧
      (s.runText "purr(1/0)").2 = (s.runText "purr(1\u3000\n/0)").2 ∧
      (s.runText "meow x @").1.map Error.what = (s.runText "meow\t\nx @").1.map Error.what ∧
      ∃ p q, Program.ofTokens [⟨.identifier, "x", ⟨0, 1, 1, 1⟩⟩] = .ok p ∧
        Program.ofTokens [⟨.identifier, "x", ⟨7, 8, 2, 4⟩⟩] = .ok q ∧ p.shape = q.shape := by
  intro s
  obtain ⟨halike, hgap, hbetween⟩ := run_independent_of_layout
  refine ⟨by cbv, by cbv, ?_, ?_, ?_⟩
  · have htokens : Token.ofText "purr(1/0)" = .ok
        ([⟨.purr, "purr", ⟨0, 4, 1, 1⟩⟩, ⟨.leftParen, "(", ⟨4, 5, 1, 5⟩⟩] ++
          ⟨.integer, "1", ⟨5, 6, 1, 6⟩⟩ :: ⟨.slash, "/", ⟨6, 7, 1, 7⟩⟩ ::
          [⟨.integer, "0", ⟨7, 8, 1, 8⟩⟩, ⟨.rightParen, ")", ⟨8, 9, 1, 9⟩⟩,
            ⟨.endOfInput, "", ⟨9, 10, 1, 10⟩⟩]) := by cbv
    have hother : String.ofList ("purr(1/0)".toList.take 6 ++
        (['\u3000', '\n'] ++ "purr(1/0)".toList.drop 6)) = "purr(1\u3000\n/0)" := by rfl
    rw [← hother]
    have hblank : ∀ c ∈ ['\u3000', '\n'], Text.isBlank c = true := by simp [Text.isBlank]
    exact (hbetween _ _ _ _ _ htokens (by decide) _ hblank (by decide) s).1
  · have hends : Token.EndsAt ("meow".toList ++ ([' '] ++ "x @".toList)) ([' '] ++ "x @".toList) :=
      @Token.EndsAt.here 'm' _ ⟨.meow, "meow".toList, "meow".toList, " x @".toList⟩ (by cbv)
    have hspace : ∀ c ∈ [' '], Text.isBlank c = true := by simp [Text.isBlank]
    have hblank : ∀ c ∈ ['\t', '\n'], Text.isBlank c = true := by simp [Text.isBlank]
    exact (hgap _ _ _ _ hends (by decide) hspace hblank (by decide) s).2
  · obtain ⟨p, q, hp, hq, hshape, -⟩ | ⟨e, e', he, -⟩ :=
      halike [⟨.identifier, "x", ⟨0, 1, 1, 1⟩⟩] [⟨.identifier, "x", ⟨7, 8, 2, 4⟩⟩]
        (.cons ⟨rfl, rfl⟩ .nil)
    · exact ⟨p, q, hp, hq, hshape⟩
    · have hread : Program.ofTokens [⟨.identifier, "x", ⟨0, 1, 1, 1⟩⟩] =
          .ok ⟨[.access "x" ⟨0, 1, 1, 1⟩]⟩ := by cbv
      rw [hread] at he
      simp at he

end Session

end CatScript
