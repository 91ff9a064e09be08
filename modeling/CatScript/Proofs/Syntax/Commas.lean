import CatScript.Proofs.Syntax.Listing

/-!
# Commas

The commas of a list can be left out, except where two arguments would run into one another: a minus
in front of the later one would subtract it from the earlier one, and a parenthesis in front of it
would open a call behind a name at the end of the earlier one.  Then the two are read as one
argument (`Expression.absorbs`), and a call with fewer arguments is another call.  In all other
places both arguments stay what they are, since neither looks at the comma.
-/

set_option autoImplicit false

namespace CatScript

namespace Grammar

variable {ts mid rest covered : List Token}

/-! ## The last primary of an expression -/

/-- A product ends with a primary, and other factors may stand in its place. -/
theorem Factors.exists_last {mid rest : List Token} : (d : Factors mid rest) →
    ∀ {ts : List Token} (_ : Primary ts mid), ∃ front us, ts = front ++ us ∧
      Nonempty (Primary us rest) ∧ ∀ {us' mid' rest'}, Primary us' mid' → Factors mid' rest' →
        Nonempty (Product (front ++ us') rest')
  | .done _, ts, first => ⟨[], ts, rfl, ⟨first⟩, fun p f => ⟨.mk p f⟩⟩
  | .more t op kind factor others, ts, first => by
    obtain ⟨front, us, rfl, hlast, hput⟩ := others.exists_last factor
    obtain ⟨covered, rfl, hrefit⟩ := first.refits
    refine ⟨covered ++ t :: front, us, by simp, hlast, fun {us' mid' rest'} p f => ?_⟩
    obtain ⟨p', f'⟩ := (hput p f).some
    obtain ⟨first', -⟩ := hrefit (t :: (front ++ us')) (.of_ahead rfl)
    rw [List.append_assoc]
    exact ⟨.mk first' (.more t op kind p' f')⟩

/-- An expression ends with a primary, and other factors and summands may stand in its place. -/
theorem Summands.exists_last {mid rest : List Token} : (d : Summands mid rest) →
    ∀ {ts : List Token} (_ : Product ts mid), ∃ front us, ts = front ++ us ∧
      Nonempty (Primary us rest) ∧ ∀ {us' mid' mid'' rest'}, Primary us' mid' →
        Factors mid' mid'' → Summands mid'' rest' → Nonempty (Expression (front ++ us') rest')
  | .done _, ts, .mk first others => by
    obtain ⟨front, us, rfl, hlast, hput⟩ := others.exists_last first
    exact ⟨front, us, rfl, hlast, fun p f s => ⟨.mk (hput p f).some s⟩⟩
  | .more t op kind summand others, ts, first => by
    obtain ⟨front, us, rfl, hlast, hput⟩ := others.exists_last summand
    obtain ⟨covered, rfl, hrefit⟩ := first.refits
    refine ⟨covered ++ t :: front, us, by simp, hlast, fun {us' mid' mid'' rest'} p f s => ?_⟩
    obtain ⟨p', s'⟩ := (hput p f s).some
    obtain ⟨first', -⟩ := hrefit (t :: (front ++ us')) (.of_ahead rfl)
    rw [List.append_assoc]
    exact ⟨.mk first' (.more t op kind p' s')⟩

/-- A primary has tokens. -/
theorem Primary.irrefl (d : Primary ts ts) : False := by
  obtain ⟨covered, hts, hrefit⟩ := d.refits
  obtain rfl : covered = [] := List.self_eq_append_left.1 hts
  obtain ⟨d', -⟩ := hrefit [] Admits.nil.noCall
  exact absurd d'.begins (by decide)

/-- The last token of a piece is the one in front of what follows the piece. -/
theorem eq_of_last (front : List Token) {t u : Token} (hts : front ++ u :: rest = covered ++ rest)
    (ht : [t] <:+ covered) : t = u := by
  have hcovered : front ++ [u] = covered := List.append_cancel_right (by simpa using hts)
  obtain ⟨before, rfl⟩ := ht
  exact (List.cons.inj (List.append_inj_right' hcovered rfl)).1.symm

/-- A primary that ends with a name is a call if arguments in parentheses follow the name. -/
theorem Primary.called {ts rest : List Token} : (d : Primary ts rest) →
    ∀ {covered : List Token} {t : Token}, ts = covered ++ rest → [t] <:+ covered →
      t.kind = .identifier → ∀ {opening closing : Token} {us rest' : List Token},
        opening.kind = .leftParen ∧ closing.kind = .rightParen → Arguments us (closing :: rest') →
          Nonempty (Primary (covered ++ opening :: us) rest')
  | .integer t' _ kind _, covered, t, hts, ht, hkind => by
    obtain rfl := eq_of_last [] hts ht
    exact absurd (kind.symm.trans hkind) (by decide)
  | .float t' _ kind _, covered, t, hts, ht, hkind => by
    obtain rfl := eq_of_last [] hts ht
    exact absurd (kind.symm.trans hkind) (by decide)
  | .string t' kind, covered, t, hts, ht, hkind => by
    obtain rfl := eq_of_last [] hts ht
    exact absurd (kind.symm.trans hkind) (by decide)
  | .name t' kind _, covered, t, hts, ht, hkind => by
    obtain rfl : covered = [t'] := List.append_cancel_right hts.symm
    exact fun kinds arguments => ⟨.call t' _ _ ⟨kind, kinds⟩ arguments⟩
  | .call callee opening closing kinds arguments, covered, t, hts, ht, hkind => by
    obtain ⟨us, rfl, -⟩ := arguments.refits
    obtain rfl := eq_of_last (callee :: opening :: us) hts ht
    exact absurd (kinds.2.2.symm.trans hkind) (by decide)
  | .group opening closing kinds inner, covered, t, hts, ht, hkind => by
    obtain ⟨us, rfl, -⟩ := inner.refits
    obtain rfl := eq_of_last (opening :: us) hts ht
    exact absurd (kinds.2.symm.trans hkind) (by decide)
  | .negate minus kind operand, covered, t, hts, ht, hkind => by
    obtain ⟨us, rfl, -⟩ := operand.refits
    obtain rfl : covered = minus :: us := List.append_cancel_right hts.symm
    cases us with
    | nil => exact operand.irrefl.elim
    | cons u us =>
      intro kinds arguments
      obtain hsingle | ht' := List.suffix_cons_iff.1 ht
      · simp at hsingle
      obtain ⟨operand'⟩ := operand.called rfl ht' hkind kinds arguments
      exact ⟨.negate minus kind operand'⟩

/-! ## Arguments that run into one another -/

/-- Without a comma an argument goes on in tokens that begin with a minus, and behind a name at its
end also in tokens that begin with a parenthesis. -/
def RunsInto (argument later : List Token) : Prop :=
  ahead later = .minus ∨
    (ahead later = .leftParen ∧ ∃ t, [t] <:+ argument ∧ t.kind = .identifier)

/-- Where nothing runs into the other, an argument does not look at what follows. -/
theorem admits_of_not_runsInto {later : List Token}
    (hbegins : beginsExpression (ahead later) = true) (h : ¬ RunsInto covered later) :
    Admits covered rest later := by
  have hminus : ahead later ≠ .minus := fun h' => h (.inl h')
  refine ⟨fun t ht kind _ hparen => h (.inr ⟨hparen, t, ht, kind⟩), fun _ => ?_, fun _ => ?_⟩
  · cases hkind : ahead later <;> simp_all [beginsExpression, productOp?]
  · cases hkind : ahead later <;> simp_all [beginsExpression, sumOp?]

/-- An argument that runs into a later one is one argument with it. -/
theorem Expression.absorbs {later : List Token} (d : Expression (covered ++ rest) rest)
    (next : Expression later mid) (h : RunsInto covered later) :
    Nonempty (Expression (covered ++ later) mid) := by
  obtain ⟨first, others⟩ := d
  obtain ⟨front, us, hus, ⟨last⟩, hput⟩ := others.exists_last first
  obtain ⟨ending, rfl, hrefit⟩ := last.refits
  obtain rfl : covered = front ++ ending := List.append_cancel_right (hus.trans (by simp))
  obtain ⟨⟨primary, factors⟩, summands⟩ := next
  rw [List.append_assoc]
  obtain hminus | ⟨hparen, t, ht, hkind⟩ := h
  · cases primary with
    | @negate minus later mid' kind operand =>
      obtain ⟨last', -⟩ := hrefit (minus :: later) fun _ _ _ _ => by simp [kind]
      have hproduct : productOp? (ahead (minus :: later)) = none := by rw [ahead_cons, kind]; rfl
      have hsum : sumOp? minus.kind = some .subtract := by rw [kind]; rfl
      exact hput last' (.done hproduct) (.more minus .subtract hsum (.mk operand factors) summands)
    | _ => simp_all
  · cases primary with
    | group opening closing kinds inner =>
      have hending : ending ≠ [] := by
        rintro rfl
        exact last.irrefl
      have ht' : [t] <:+ ending := List.suffix_of_suffix_length_le ht
        (List.suffix_append front ending) (List.length_pos_iff.2 hending)
      obtain ⟨call⟩ := last.called rfl ht' hkind kinds (.bare inner .none)
      exact hput call factors summands
    | _ => simp_all

/-- An argument that runs into further ones adds none to them. -/
theorem Arguments.absorbs {later : List Token} (d : Expression (covered ++ rest) rest)
    (others : Arguments later mid) (hothers : others.trees ≠ []) (h : RunsInto covered later) :
    ∃ a : Arguments (covered ++ later) mid, a.trees.length = others.trees.length := by
  cases others with
  | none => exact absurd rfl hothers
  | bare next others =>
    obtain ⟨e⟩ := d.absorbs next h
    exact ⟨.bare e others, by simp [Arguments.trees]⟩
  | comma c kind next others =>
    obtain ⟨e⟩ := d.absorbs next h
    exact ⟨.comma c kind e others, by simp [Arguments.trees]⟩

/-- Arguments begin as an expression does, if there are any. -/
theorem Arguments.begins (d : Arguments ts rest) (h : d.trees ≠ []) :
    beginsExpression (ahead ts) = true := by
  cases d with
  | none => exact absurd rfl h
  | bare first => exact first.begins
  | comma _ _ first => exact first.begins

end Grammar

open Grammar

/-! ## Reading a script without a comma, or with one more -/

/-- Tokens are read as a program, up to spans. -/
def Program.IsReadFrom (program : Program) (tokens : List Token) : Prop :=
  ∃ other, Program.ofTokens tokens = .ok other ∧ other.shape = program.shape

namespace Grammar.Script

variable {tokens us later vs : List Token} {c name : Token} {l : Listing} {program : Program}

/-- A script is what its one derivation says. -/
theorem isReadFrom_iff (d : Script tokens) :
    program.IsReadFrom tokens ↔ d.tree = program.shape := by
  constructor
  · rintro ⟨other, hother, hshape⟩
    obtain ⟨d', rfl⟩ := (ofTokens_eq_ok_iff tokens other).1 hother
    rw [d.unique d', ← d'.shape_program, hshape]
  · intro h
    exact ⟨d.program, (ofTokens_eq_ok_iff tokens _).2 ⟨d, rfl⟩, d.shape_program.trans h⟩

/-- With another list in its place, a script is read as before exactly if the elements of the list
are the same. -/
theorem exists_before (d : Script tokens) (hprogram : d.tree = program.shape) (h : d.Holds l) :
    ahead l.behind = .rightParen ∧ ∃ before, tokens = before ++ l.tokens ∧ ∀ l', l.Like l' →
      (program.IsReadFrom (before ++ l'.tokens) ↔ l'.contents = l.contents) := by
  obtain ⟨hclosed, before, htokens, hexchange⟩ := d.exchanges h
  refine ⟨hclosed, before, htokens, fun l' hl => ?_⟩
  obtain ⟨d', hd'⟩ := hexchange l' hl
  rw [d'.isReadFrom_iff, ← hprogram]
  exact hd'

/-- The comma between an argument and further ones can be left out unless the argument runs into
them. -/
theorem without_comma (d : Script tokens) (hprogram : d.tree = program.shape)
    {kind : c.kind = .comma} {first : Expression us (c :: later)} {others : Arguments later vs}
    (h : d.Holds (.arguments (.comma c kind first others))) (hothers : others.trees ≠ []) :
    ∃ before argument, us = argument ++ c :: later ∧ tokens = before ++ (argument ++ c :: later) ∧
      (program.IsReadFrom (before ++ (argument ++ later)) ↔ ¬ RunsInto argument later) := by
  obtain ⟨-, before, htokens, hread⟩ := d.exists_before hprogram h
  obtain ⟨argument, rfl, hrefit⟩ := first.refits
  refine ⟨before, argument, rfl, htokens, ?_⟩
  have hahead : ahead (argument ++ later) = ahead (argument ++ c :: later) := by
    rw [first.ahead_append, first.ahead_append]
  by_cases hruns : RunsInto argument later
  · obtain ⟨a, hlength⟩ := Arguments.absorbs first others hothers hruns
    refine iff_of_false (fun hshape => ?_) (not_not_intro hruns)
    have hcontents := (hread _ (.arguments _ a hahead)).1 hshape
    have htrees : a.trees = first.tree :: others.trees := Sum.inl.inj hcontents
    simp [htrees] at hlength
  · obtain ⟨first', hfirst'⟩ := hrefit later (admits_of_not_runsInto (others.begins hothers) hruns)
    refine iff_of_true ((hread _ (.arguments _ (.bare first' others) hahead)).2 ?_) hruns
    simp [Listing.contents, Arguments.trees, hfirst']

/-- The comma behind the last argument can be left out. -/
theorem without_last_comma (d : Script tokens) (hprogram : d.tree = program.shape)
    {kind : c.kind = .comma} {first : Expression us (c :: vs)}
    (h : d.Holds (.arguments (.comma c kind first .none))) :
    ∃ before argument, us = argument ++ c :: vs ∧ tokens = before ++ (argument ++ c :: vs) ∧
      program.IsReadFrom (before ++ (argument ++ vs)) := by
  obtain ⟨hclosed, before, htokens, hread⟩ := d.exists_before hprogram h
  obtain ⟨argument, rfl, hrefit⟩ := first.refits
  refine ⟨before, argument, rfl, htokens, ?_⟩
  have hahead : ahead (argument ++ vs) = ahead (argument ++ c :: vs) := by
    rw [first.ahead_append, first.ahead_append]
  have hclosed' : ahead vs = .rightParen := hclosed
  obtain ⟨first', hfirst'⟩ := hrefit vs (.of_closing (by simp [hclosed']))
  refine (hread _ (.arguments _ (.bare first' .none) hahead)).2 ?_
  simp [Listing.contents, Arguments.trees, hfirst']

/-- Behind the last argument a comma can be added. -/
theorem with_last_comma (d : Script tokens) (hprogram : d.tree = program.shape)
    {first : Expression us vs} (h : d.Holds (.arguments (.bare first .none))) :
    ∃ before argument, us = argument ++ vs ∧ tokens = before ++ (argument ++ vs) ∧
      ∀ c : Token, c.kind = .comma → program.IsReadFrom (before ++ (argument ++ c :: vs)) := by
  obtain ⟨-, before, htokens, hread⟩ := d.exists_before hprogram h
  obtain ⟨argument, rfl, hrefit⟩ := first.refits
  refine ⟨before, argument, rfl, htokens, fun c kind => ?_⟩
  have hahead : ahead (argument ++ c :: vs) = ahead (argument ++ vs) := by
    rw [first.ahead_append, first.ahead_append]
  obtain ⟨first', hfirst'⟩ := hrefit (c :: vs) (.of_closing (by simp [kind]))
  refine (hread _ (.arguments _ (.comma c kind first' .none) hahead)).2 ?_
  simp [Listing.contents, Arguments.trees, hfirst']

/-- Every comma behind a parameter can be left out. -/
theorem without_parameter_comma (d : Script tokens) (hprogram : d.tree = program.shape)
    {kinds : name.kind = .identifier ∧ c.kind = .comma} {others : Parameters later vs}
    (h : d.Holds (.parameters (.comma name c kinds others))) :
    ∃ before, tokens = before ++ name :: c :: later ∧
      program.IsReadFrom (before ++ name :: later) := by
  obtain ⟨-, before, htokens, hread⟩ := d.exists_before hprogram h
  exact ⟨before, htokens, (hread _ (.parameters _ (.bare name kinds.1 others) rfl)).2 rfl⟩

/-- Behind the last parameter a comma can be added. -/
theorem with_last_parameter_comma (d : Script tokens) (hprogram : d.tree = program.shape)
    {kind : name.kind = .identifier}
    (h : d.Holds (.parameters (.bare name kind (@Parameters.none vs)))) :
    ∃ before, tokens = before ++ name :: vs ∧
      ∀ c : Token, c.kind = .comma → program.IsReadFrom (before ++ name :: c :: vs) := by
  obtain ⟨-, before, htokens, hread⟩ := d.exists_before hprogram h
  refine ⟨before, htokens, fun c hc => ?_⟩
  exact (hread _ (.parameters _ (.comma name c ⟨kind, hc⟩ .none) rfl)).2 rfl

end Grammar.Script

/-- Tokens that are a program have one derivation, and of every list in it, the arguments of a call
at any depth or the parameters of a function, it says which commas matter.  The comma between two
neighbouring arguments can be left out if and only if the earlier one does not run into the later
one; a comma behind a parameter can always be left out; and behind the last element a comma can
always be left out or added. -/
theorem Program.ofTokens_commas (tokens : List Token) (program : Program)
    (hprogram : Program.ofTokens tokens = .ok program) :
    ∃ d : Script tokens, d.tree = program.shape ∧
      (∀ (us later vs : List Token) (c : Token) (kind : c.kind = .comma)
        (first : Expression us (c :: later)) (others : Arguments later vs),
        d.Holds (.arguments (.comma c kind first others)) → others.trees ≠ [] →
          ∃ before argument, us = argument ++ c :: later ∧
            tokens = before ++ (argument ++ c :: later) ∧
            (program.IsReadFrom (before ++ (argument ++ later)) ↔ ahead later ≠ .minus ∧
              ¬(ahead later = .leftParen ∧ ∃ t, [t] <:+ argument ∧ t.kind = .identifier))) ∧
      (∀ (us vs : List Token) (c : Token) (kind : c.kind = .comma)
        (first : Expression us (c :: vs)), d.Holds (.arguments (.comma c kind first .none)) →
          ∃ before argument, us = argument ++ c :: vs ∧ tokens = before ++ (argument ++ c :: vs) ∧
            program.IsReadFrom (before ++ (argument ++ vs))) ∧
      (∀ (us vs : List Token) (first : Expression us vs),
        d.Holds (.arguments (.bare first .none)) →
          ∃ before argument, us = argument ++ vs ∧ tokens = before ++ (argument ++ vs) ∧
            ∀ c : Token, c.kind = .comma → program.IsReadFrom (before ++ (argument ++ c :: vs))) ∧
      (∀ (later vs : List Token) (name c : Token)
        (kinds : name.kind = .identifier ∧ c.kind = .comma) (others : Parameters later vs),
        d.Holds (.parameters (.comma name c kinds others)) →
          ∃ before, tokens = before ++ name :: c :: later ∧
            program.IsReadFrom (before ++ name :: later)) ∧
      ∀ (vs : List Token) (name : Token) (kind : name.kind = .identifier),
        d.Holds (.parameters (.bare name kind (@Parameters.none vs))) →
          ∃ before, tokens = before ++ name :: vs ∧
            ∀ c : Token, c.kind = .comma → program.IsReadFrom (before ++ name :: c :: vs) := by
  obtain ⟨d, rfl⟩ := (ofTokens_eq_ok_iff tokens program).1 hprogram
  have hshape : d.tree = d.program.shape := d.shape_program.symm
  refine ⟨d, hshape, ?_, ?_, ?_, ?_, ?_⟩
  · intro us later vs c kind first others h hothers
    obtain ⟨before, argument, hus, htokens, hread⟩ := d.without_comma hshape h hothers
    exact ⟨before, argument, hus, htokens, hread.trans not_or⟩
  · exact fun us vs c kind first h => d.without_last_comma hshape h
  · exact fun us vs first h => d.with_last_comma hshape h
  · exact fun later vs name c kinds others h => d.without_parameter_comma hshape h
  · exact fun vs name kind h => d.with_last_parameter_comma hshape h

/-- The tokens of `trick g(x, y) \x7b\x7d f(a, (b)) h(c,)`. -/
def listedTokens : List Token :=
  let s := Span.between .start .start
  [⟨.trick, "trick", s⟩, ⟨.identifier, "g", s⟩, ⟨.leftParen, "(", s⟩, ⟨.identifier, "x", s⟩,
    ⟨.comma, ",", s⟩, ⟨.identifier, "y", s⟩, ⟨.rightParen, ")", s⟩, ⟨.leftBrace, "\x7b", s⟩,
    ⟨.rightBrace, "\x7d", s⟩, ⟨.identifier, "f", s⟩, ⟨.leftParen, "(", s⟩, ⟨.identifier, "a", s⟩,
    ⟨.comma, ",", s⟩, ⟨.leftParen, "(", s⟩, ⟨.identifier, "b", s⟩, ⟨.rightParen, ")", s⟩,
    ⟨.rightParen, ")", s⟩, ⟨.identifier, "h", s⟩, ⟨.leftParen, "(", s⟩, ⟨.identifier, "c", s⟩,
    ⟨.comma, ",", s⟩, ⟨.rightParen, ")", s⟩]

/-- A name that is an argument by itself. -/
def Grammar.Expression.ofName (t : Token) {rest : List Token} (kind : t.kind = .identifier)
    (next : ahead rest = .comma ∨ ahead rest = .rightParen) : Expression (t :: rest) rest :=
  .mk (.mk (.name t kind (by obtain h | h := next <;> simp [h]))
    (.done (by obtain h | h := next <;> rw [h] <;> rfl)))
    (.done (by obtain h | h := next <;> rw [h] <;> exact ⟨rfl, rfl⟩))

/-- Their derivation. -/
def listed : Script listedTokens :=
  let inner := Expression.ofName _ rfl (.inr rfl)
  let group := Primary.group _ _ ⟨rfl, rfl⟩ inner
  let grouped := Expression.mk (.mk group (.done rfl)) (.done ⟨rfl, rfl⟩)
  ⟨_, .more
    (.trick _ _ _ _ _ _ ⟨rfl, rfl, rfl⟩ (.comma _ _ ⟨rfl, rfl⟩ (.bare _ rfl .none))
      ⟨rfl, rfl, rfl⟩ .none)
    (.more (.call _ _ _ ⟨rfl, rfl, rfl⟩
        (.comma _ rfl (.ofName _ rfl (.inl rfl)) (.bare grouped .none)))
      (.more (.call _ _ _ ⟨rfl, rfl, rfl⟩ (.comma _ rfl (.ofName _ rfl (.inl rfl)) .none))
        .none)), rfl⟩

/-- What stands in front of some tokens are as many of the first ones as there are more. -/
theorem eq_take_of_eq_append {ts before us : List Token} (h : ts = before ++ us) :
    before = ts.take (ts.length - us.length) := by
  simp [h]

/-- Only the comma between `a` and `(b)` matters. -/
theorem Program.ofTokens_commas_listed :
    Program.ofTokens listedTokens = .ok listed.program ∧
      ¬ listed.program.IsReadFrom (listedTokens.eraseIdx 12) ∧
      listed.program.IsReadFrom (listedTokens.eraseIdx 20) ∧
      listed.program.IsReadFrom (listedTokens.insertIdx 16 ⟨.comma, ",", .between .start .start⟩) ∧
      listed.program.IsReadFrom (listedTokens.eraseIdx 4) ∧
      listed.program.IsReadFrom
        (listedTokens.insertIdx 6 ⟨.comma, ",", .between .start .start⟩) := by
  have hprogram : Program.ofTokens listedTokens = .ok listed.program :=
    (ofTokens_eq_ok_iff _ _).2 ⟨listed, rfl⟩
  obtain ⟨d, -, hbetween, hlast, hadded, hparameter, hparameterAdded⟩ :=
    Program.ofTokens_commas listedTokens listed.program hprogram
  obtain rfl := d.unique listed
  refine ⟨hprogram, ?_, ?_, ?_, ?_, ?_⟩
  · obtain ⟨before, argument, hargument, hbefore, hread⟩ :=
      hbetween _ _ _ _ rfl _ _ (.inr (.inl (.inl rfl))) (by simp [Arguments.trees])
    obtain rfl := eq_take_of_eq_append hargument
    obtain rfl := eq_take_of_eq_append hbefore
    exact fun h => (hread.1 h).2 ⟨rfl, _, List.suffix_refl [_], rfl⟩
  · obtain ⟨before, argument, hargument, hbefore, hread⟩ :=
      hlast _ _ _ rfl _ (.inr (.inr (.inl (.inl rfl))))
    obtain rfl := eq_take_of_eq_append hargument
    obtain rfl := eq_take_of_eq_append hbefore
    exact hread
  · obtain ⟨before, argument, hargument, hbefore, hread⟩ :=
      hadded _ _ _ (.inr (.inl (.inr (.inr (.inl rfl)))))
    obtain rfl := eq_take_of_eq_append hargument
    obtain rfl := eq_take_of_eq_append hbefore
    exact hread _ rfl
  · obtain ⟨before, hbefore, hread⟩ := hparameter _ _ _ _ ⟨rfl, rfl⟩ _ (.inl (.inl (.inl rfl)))
    obtain rfl := eq_take_of_eq_append hbefore
    exact hread
  · obtain ⟨before, hbefore, hread⟩ := hparameterAdded _ _ rfl (.inl (.inl (.inr (.inl rfl))))
    obtain rfl := eq_take_of_eq_append hbefore
    exact hread _ rfl

end CatScript
