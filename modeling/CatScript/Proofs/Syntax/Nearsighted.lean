import CatScript.Proofs.Syntax.Reader

/-!
# No reader looks beyond the token it rejects

A reader that has read something would have read the same with other tokens behind it, and one that
rejects a token would have rejected it with other tokens behind it.  Some readers look at one token
behind what they read: an expression goes on with an operator, and a name becomes a call with a
parenthesis.  `Reader.Nearsighted` says this of a reader and the tokens in front of it, and also
that the tokens before a rejected one are no dead end: some further tokens complete what was begun.
It is carried through one reader behind another (`Nearsighted.andThen`).
-/

set_option autoImplicit false

namespace CatScript

open Grammar (ahead ahead_nil ahead_cons)

namespace Reader

variable {α β : Type} {looks looks' : Bool} {F F' : Reader α} {G : α → Reader β}
variable {t : Token} {ts passed rest tail tail' : List Token} {value : α}

/-- Neither an operator nor an opening parenthesis stands in front. -/
def Harmless (ts : List Token) : Prop := ahead ts ≠ .leftParen ∧ (ahead ts).operator? = none

/-- What can always stand behind what a reader has read: anything, except where the reader looks at
the token that does. -/
def Safe (looks : Bool) (ts : List Token) : Prop := looks = true → Harmless ts

/-- A reader reads the tokens `tail` to their end.  No end of the input is among them. -/
structure Completes (looks : Bool) (F : Reader α) (tail : List Token) : Prop where
  proper : ∀ t ∈ tail, t.kind ≠ .endOfInput
  reads : ∀ more, Safe looks more → ∃ value, F (tail ++ more) = .ok (value, more)

/-- A reader reads the tokens `passed`, with `rest` behind them or with anything else that begins
like it or is safe.  Only a reader that looks at `rest` can do so without reading a token. -/
structure Passes (looks : Bool) (F : Reader α) (passed rest : List Token) (value : α) : Prop where
  shows : passed = [] → looks = true
  reads : ∀ others, ahead others = ahead rest ∨ Safe looks others →
    F (passed ++ others) = .ok (value, others)

/-- A reader rejects the first token behind `passed`, whatever stands behind that one, and there
are tokens that would have completed `passed`. -/
structure Rejects (looks : Bool) (F : Reader α) (passed : List Token) (r : Rejection) : Prop where
  fails : F (passed ++ r.rest) = .error r
  hopeless : ∀ t ∈ r.rest.head?, ∀ others,
    F (passed ++ t :: others) = .error { r with rest := t :: others }
  completable : ∃ tail, Completes looks (fun us => F (passed ++ us)) tail

/-- What a reader makes of tokens depends on those it passes and on the one behind them, and on no
others. -/
inductive Nearsighted (looks : Bool) (F : Reader α) (ts : List Token) : Prop
  | passes (passed rest : List Token) (value : α) (split : ts = passed ++ rest)
      (passes : Passes looks F passed rest value)
  | rejects (passed : List Token) (r : Rejection) (split : ts = passed ++ r.rest)
      (rejects : Rejects looks F passed r)

/-- A token of a kind that nothing else is known of. -/
def sample (kind : TokenKind) : Token := ⟨kind, "", Span.point Position.start⟩

/-! ## Tokens that complete -/

/-- A token that is neither an operator nor an opening parenthesis can stand behind everything. -/
theorem safe_cons (kind : TokenKind) (h : kind ≠ .leftParen ∧ kind.operator? = none)
    (more : List Token) : Safe looks (sample kind :: more) :=
  fun _ => h

/-- Anything can stand behind a reader that does not look at it. -/
theorem safe_false (ts : List Token) : Safe false ts := fun h => by simp at h

/-- One token of the right kind completes a reader that takes it. -/
theorem completes_sample {kind : TokenKind} (hkind : kind ≠ .endOfInput)
    (h : ∀ more, Safe looks more → ∃ value, F (sample kind :: more) = .ok (value, more)) :
    Completes looks F [sample kind] where
  proper := by simpa [sample] using hkind
  reads := h

/-- Two readers one behind the other are completed by what completes the first and then the second.
-/
theorem Completes.andThen (h : Completes looks F tail)
    (hsafe : ∀ more, Safe looks' more → Safe looks (tail' ++ more))
    (h' : ∀ value, Completes looks' (G value) tail') :
    Completes looks' (F.andThen G) (tail ++ tail') where
  proper t ht := by
    obtain ht | ht := List.mem_append.1 ht
    · exact h.proper t ht
    · obtain ⟨value, -⟩ := h.reads [] (fun _ => by simp [Harmless, TokenKind.operator?])
      exact (h' value).proper t ht
  reads more hmore := by
    obtain ⟨value, hvalue⟩ := h.reads (tail' ++ more) (hsafe more hmore)
    obtain ⟨other, hother⟩ := (h' value).reads more hmore
    exact ⟨other, by rw [List.append_assoc, Reader.andThen, hvalue]; exact hother⟩

/-- What is made of something that is read does not change what completes it. -/
theorem Completes.map (h : Completes looks F tail) (f : α → β) :
    Completes looks (F.map f) tail where
  proper := h.proper
  reads more hmore := by
    obtain ⟨value, hvalue⟩ := h.reads more hmore
    exact ⟨f value, by rw [Reader.map, Reader.andThen, hvalue]; rfl⟩

/-! ## One reader behind another -/

/-- What is safe behind the second of two readers looks, to the first one, like what was there. -/
theorem Passes.next {value : α} (h : Passes looks' F passed rest value) {others : List Token}
    (hothers : ahead others = ahead rest ∨ Safe looks' others) :
    ahead (passed ++ others) = ahead (passed ++ rest) ∨ Safe looks (passed ++ others) := by
  cases passed with
  | nil => exact hothers.imp_right fun hsafe _ => hsafe (h.shows rfl)
  | cons t ts => exact .inl rfl

/-- Two nearsighted readers one behind the other are nearsighted, if there is something that
completes the second behind the first. -/
theorem Nearsighted.andThen (hF : Nearsighted looks F ts)
    (hG : ∀ value rest, F ts = .ok (value, rest) → Nearsighted looks' (G value) rest)
    (tail : List Token) (hsafe : ∀ more, Safe looks' more → Safe looks (tail ++ more))
    (htail : ∀ value, Completes looks' (G value) tail) :
    Nearsighted looks' (F.andThen G) ts := by
  obtain ⟨passed, rest, value, rfl, h⟩ | ⟨passed, r, rfl, h⟩ := hF
  · have hread : ∀ others, ahead others = ahead rest ∨ Safe looks others →
        F.andThen G (passed ++ others) = G value others := by
      intro others hothers
      rw [Reader.andThen, h.reads others hothers]
      rfl
    obtain ⟨passed', rest, other, rfl, h'⟩ | ⟨passed', r, rfl, h'⟩ :=
      hG value rest (h.reads rest (.inl rfl))
    · refine .passes _ _ other (List.append_assoc ..).symm
        ⟨fun hnil => ?_, fun others hothers => ?_⟩
      · exact h'.shows (List.append_eq_nil_iff.1 hnil).2
      · rw [List.append_assoc, hread _ (h'.next hothers)]
        exact h'.reads others hothers
    · refine .rejects _ _ (List.append_assoc ..).symm ⟨?_, fun t ht others => ?_, ?_⟩
      · rw [List.append_assoc, hread _ (.inl rfl)]
        exact h'.fails
      · obtain ⟨us, hrest⟩ := List.head?_eq_some_iff.1 ht
        rw [List.append_assoc, hread _ (.inl ?_)]
        · exact h'.hopeless t ht others
        · rw [hrest]
          cases passed' <;> rfl
      · -- A second reader that rejects its first token leaves the choice of what completes it.
        cases passed' with
        | nil =>
          refine ⟨tail, (htail value).proper, fun more hmore => ?_⟩
          rw [List.append_nil, hread _ (.inr (hsafe more hmore))]
          exact (htail value).reads more hmore
        | cons t ts =>
          obtain ⟨tail, h'⟩ := h'.completable
          have hread' : ∀ us, F.andThen G (passed ++ (t :: ts ++ us)) = G value (t :: ts ++ us) :=
            fun us => hread (t :: ts ++ us) (.inl rfl)
          exact ⟨tail, by simpa only [List.append_assoc, hread'] using h'⟩
  · refine .rejects _ _ rfl ⟨?_, fun t ht others => ?_, ?_⟩
    · rw [Reader.andThen, h.fails]
      rfl
    · rw [Reader.andThen, h.hopeless t ht others]
      rfl
    · obtain ⟨tail', h'⟩ := h.completable
      exact ⟨tail' ++ tail, h'.andThen hsafe htail⟩

/-- A reader that does not look at the token behind what it reads may be taken for one that does. -/
theorem Nearsighted.weaken (h : Nearsighted false F ts) : Nearsighted true F ts := by
  obtain ⟨passed, rest, value, split, h⟩ | ⟨passed, r, split, h⟩ := h
  · refine .passes _ _ value split ⟨fun _ => rfl, fun others hothers => ?_⟩
    exact h.reads others (hothers.imp_right fun _ => safe_false others)
  · obtain ⟨tail, h'⟩ := h.completable
    exact .rejects _ _ split
      ⟨h.fails, h.hopeless, tail, h'.proper, fun more _ => h'.reads more (safe_false more)⟩

/-- What is made of something that is read is nearsighted if the reader is. -/
theorem Nearsighted.map (h : Nearsighted looks F ts) (f : α → β) :
    Nearsighted looks (F.map f) ts := by
  obtain ⟨passed, rest, value, rfl, h⟩ | ⟨passed, r, rfl, h⟩ := h
  · refine .passes _ _ (f value) rfl ⟨h.shows, fun others hothers => ?_⟩
    rw [Reader.map, Reader.andThen, h.reads others hothers]
    rfl
  · refine .rejects _ _ rfl ⟨?_, fun t ht others => ?_, ?_⟩
    · rw [Reader.map, Reader.andThen, h.fails]
      rfl
    · rw [Reader.map, Reader.andThen, h.hopeless t ht others]
      rfl
    · obtain ⟨tail, h'⟩ := h.completable
      exact ⟨tail, h'.map f⟩

/-- A help for rejections leaves a reader nearsighted. -/
theorem Nearsighted.orHelp (h : Nearsighted looks F ts) (help : String) :
    Nearsighted looks (F.orHelp help) ts := by
  obtain ⟨passed, rest, value, rfl, h⟩ | ⟨passed, r, rfl, h⟩ := h
  · refine .passes _ _ value rfl ⟨h.shows, fun others hothers => ?_⟩
    rw [Reader.orHelp, h.reads others hothers]
    rfl
  · refine .rejects _ (r.orHelp help) rfl ⟨?_, fun t ht others => ?_, ?_⟩
    · rw [Reader.orHelp]
      exact congrArg (Except.mapError _) h.fails
    · rw [Reader.orHelp, h.hopeless t ht others]
      rfl
    · obtain ⟨tail, hproper, hreads⟩ := h.completable
      refine ⟨tail, hproper, fun more hmore => ?_⟩
      obtain ⟨value, hvalue⟩ := hreads more hmore
      exact ⟨value, by rw [Reader.orHelp, hvalue]; rfl⟩

/-! ## The token in front -/

/-- Behind a token that it takes, a reader goes on like another one. -/
theorem Nearsighted.behind (hF : ∀ us, F (t :: us) = F' us) (h : Nearsighted looks F' ts) :
    Nearsighted looks F (t :: ts) := by
  obtain ⟨passed, rest, value, rfl, h⟩ | ⟨passed, r, rfl, h⟩ := h
  · refine .passes (t :: passed) _ value rfl
      ⟨fun hnil => by simp at hnil, fun others hothers => ?_⟩
    exact (hF _).trans (h.reads others hothers)
  · refine .rejects (t :: passed) _ rfl
      ⟨(hF _).trans h.fails, fun u hu others => (hF _).trans (h.hopeless u hu others), ?_⟩
    obtain ⟨tail, h⟩ := h.completable
    exact ⟨tail, by simpa only [List.cons_append, hF] using h⟩

/-- A reader that takes one token and looks at the one behind it. -/
theorem Nearsighted.takes (hF : ∀ us, ahead us = ahead ts ∨ Safe looks us →
    F (t :: us) = .ok (value, us)) : Nearsighted looks F (t :: ts) :=
  .passes [t] _ value rfl ⟨fun hnil => by simp at hnil, hF⟩

/-- A reader that stays in front of whatever begins like the given tokens or is harmless. -/
theorem Nearsighted.stays (hF : ∀ us, ahead us = ahead ts ∨ Harmless us → F us = .ok (value, us)) :
    Nearsighted true F ts :=
  .passes [] _ value rfl
    ⟨fun _ => rfl, fun us hus => hF us (hus.imp_right fun hsafe => hsafe rfl)⟩

/-- A reader that rejects whatever begins with the given token. -/
theorem Nearsighted.refuses {expected : Expected} {help : Option String}
    (hF : ∀ us, F (t :: us) = .error ⟨expected, t :: us, help⟩) (htail : Completes looks F tail) :
    Nearsighted looks F (t :: ts) := by
  refine .rejects [] ⟨expected, t :: ts, help⟩ rfl
    ⟨hF ts, fun u hu others => ?_, tail, htail⟩
  obtain rfl := Option.some.inj hu
  exact hF others

/-- A reader that rejects the end of the input. -/
theorem Nearsighted.lacks {expected : Expected} {help : Option String}
    (hF : F [] = .error ⟨expected, [], help⟩) (htail : Completes looks F tail) :
    Nearsighted looks F [] :=
  .rejects [] ⟨expected, [], help⟩ rfl
    ⟨hF, fun u hu => by simp at hu, tail, htail⟩

/-- A reader is as nearsighted as another one that does the same with every first token of the given
kind, and that reads this token or rejects it. -/
theorem Nearsighted.of_eq (hF : ∀ u us, u.kind = t.kind → F (u :: us) = F' (u :: us))
    (h : Nearsighted looks F' (t :: ts)) (hshort : ∀ value, F' (t :: ts) ≠ .ok (value, t :: ts))
    (htail : Completes looks F tail) : Nearsighted looks F (t :: ts) := by
  obtain ⟨passed, rest, value, split, h⟩ | ⟨passed, r, split, h⟩ := h
  · cases passed with
    | nil =>
      rw [List.nil_append] at split
      exact absurd (split ▸ h.reads rest (.inl rfl)) (hshort value)
    | cons u us =>
      obtain ⟨rfl, rfl⟩ := List.cons.inj split
      exact .passes (t :: us) _ value rfl
        ⟨h.shows, fun others hothers => (hF t _ rfl).trans (h.reads others hothers)⟩
  · cases passed with
    | nil =>
      have hrest : t :: ts = r.rest := split
      refine .rejects [] r split ⟨?_, fun u hu others => ?_, tail, htail⟩
      · exact hrest ▸ (hF t ts rfl).trans (hrest ▸ h.fails)
      · refine (hF u others ?_).trans (h.hopeless u hu others)
        rw [← hrest] at hu
        exact congrArg Token.kind (Option.some.inj hu).symm
    | cons u us =>
      obtain ⟨rfl, hts⟩ := List.cons.inj split
      refine .rejects (t :: us) r split
        ⟨(hF t _ rfl).trans h.fails, fun u hu others => ?_, ?_⟩
      · exact (hF t _ rfl).trans (h.hopeless u hu others)
      · obtain ⟨tail, h⟩ := h.completable
        have hF' : ∀ more, F (t :: us ++ more) = F' (t :: us ++ more) := fun more => hF t _ rfl
        exact ⟨tail, by simpa only [hF'] using h⟩

/-- A reader that always reads or rejects a token, behind a comma if one stands there. -/
theorem Nearsighted.pastComma {expected : Expected} {help : Option String}
    (h : Nearsighted looks F (Token.skipComma ts)) (hnil : F [] = .error ⟨expected, [], help⟩)
    (hshort : ∀ value us, F us ≠ .ok (value, us)) (htail : Completes looks F.pastComma tail) :
    Nearsighted looks F.pastComma ts := by
  cases ts with
  | nil => exact .lacks hnil htail
  | cons t ts =>
    by_cases comma : t.kind = .comma
    · rw [Token.skipComma, if_pos comma] at h
      exact h.behind fun us => by rw [Reader.pastComma, Token.skipComma, if_pos comma]
    · rw [Token.skipComma, if_neg comma] at h
      refine .of_eq (fun u us hu => ?_) h (fun value => hshort value _) htail
      rw [Reader.pastComma, Token.skipComma, if_neg (hu ▸ comma)]

/-! ## Readers that can begin anywhere -/

/-- A reader that is nearsighted wherever it begins, and tokens that it reads to their end. -/
structure AlwaysNearsighted (looks : Bool) (F : Reader α) (tail : List Token) : Prop where
  nearsighted : ∀ ts, Nearsighted looks F ts
  completes : Completes looks F tail

/-- Two readers that are always nearsighted are so one behind the other. -/
theorem AlwaysNearsighted.andThen (h : AlwaysNearsighted looks F tail)
    (hsafe : ∀ more, Safe looks' more → Safe looks (tail' ++ more))
    (h' : ∀ value, AlwaysNearsighted looks' (G value) tail') :
    AlwaysNearsighted looks' (F.andThen G) (tail ++ tail') where
  nearsighted ts := (h.nearsighted ts).andThen (fun value rest _ => (h' value).nearsighted rest)
    tail' hsafe fun value => (h' value).completes
  completes := h.completes.andThen hsafe fun value => (h' value).completes

/-- What is made of something that is read is always nearsighted if the reader is. -/
theorem AlwaysNearsighted.map (h : AlwaysNearsighted looks F tail) (f : α → β) :
    AlwaysNearsighted looks (F.map f) tail :=
  ⟨fun ts => (h.nearsighted ts).map f, h.completes.map f⟩

end Reader

/-- A reader of one token that has to stand here. -/
theorem Token.alwaysNearsighted_expect {kind : TokenKind} (hkind : kind ≠ .endOfInput)
    (help : String) :
    Reader.AlwaysNearsighted false (Reader.of (expect kind help)) [Reader.sample kind] := by
  have hcompletes : Reader.Completes false (Reader.of (expect kind help)) [Reader.sample kind] :=
    Reader.completes_sample hkind fun more _ => ⟨_, of_expect rfl help more⟩
  refine ⟨fun ts => ?_, hcompletes⟩
  cases ts with
  | nil => exact .lacks (of_expect_nil kind help) hcompletes
  | cons t ts =>
    by_cases h : t.kind = kind
    · exact .takes fun us _ => of_expect h help us
    · exact .refuses (of_expect_ne h help) hcompletes

end CatScript
