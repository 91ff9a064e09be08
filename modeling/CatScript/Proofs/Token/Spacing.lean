import CatScript.Proofs.Token.Joined

/-!
# Blanks between tokens

How many blanks stand between two tokens, and which ones, makes no difference but to where the
tokens behind them stand.  A blank stops every token but an open string (`Token.scan_exchange`), and
an open string has no token behind it; so the blanks between two tokens can be exchanged for others,
and put there where none are (`Token.plain_respaced`).  What the lexer makes of a text is compared
by kinds and lexemes alone, or by the cause of the error and its help (`Token.plain`).
-/

set_option autoImplicit false

namespace CatScript

/-- What an error says wherever it points: its cause and its help. -/
def Error.what (e : Error) : Cause × Option String := (e.cause, e.help)

namespace Token

/-- Two tokens of the same kind with the same lexeme, wherever they stand. -/
structure Alike (t u : Token) : Prop where
  kind : t.kind = u.kind
  lexeme : t.lexeme = u.lexeme

/-! ## What may follow a token -/

/-- A text that can stand behind a token in place of another one: it begins with a blank, or with
the same character, which is no point. -/
def Exchanges (rest other : List Char) : Prop :=
  ∃ c tail, other = c :: tail ∧ (Text.isBlank c = true ∨ rest.head? = some c ∧ c ≠ '.')

/-- What does not go on with a token does not do so either in place of the other text. -/
theorem Exchanges.goesOn_eq_false {kind : TokenKind} {rest other : List Char}
    (h : Exchanges rest other) (hrest : goesOn kind rest = false) : goesOn kind other = false := by
  obtain ⟨c, tail, rfl, hblank | ⟨hhead, hpoint⟩⟩ := h
  · exact goesOn_blank hblank tail
  · obtain ⟨tail', rfl⟩ := List.head?_eq_some_iff.1 hhead
    have hlook (text : List Char) : goesOn kind (c :: text) = goesOn kind [c] :=
      goesOn_cons_append hpoint [] text
    rw [hlook, ← hlook tail', hrest]

/-- A token that does not end with the text stays the same if what follows it is exchanged. -/
theorem scan_exchange {first : Char} {tail other : List Char} {s : Scanned}
    (h : scan first tail = some s) (hne : s.rest ≠ []) (hother : Exchanges s.rest other) :
    ∃ mid, s.slice = first :: mid ∧ scan first (mid ++ other) = some { s with rest := other } :=
  scan_behind h (closed_of_rest_ne_nil h hne) (hother.goesOn_eq_false (scan_stops h))

/-! ## Tokens without their places -/

/-- What the lexer makes of a text, without places: the kinds and lexemes of its tokens, or what
its error says. -/
def plain (outcome : Except Error (List Token)) :
    Except (Cause × Option String) (List (TokenKind × String)) :=
  (outcome.map (List.map fun t => (t.kind, t.lexeme))).mapError Error.what

/-- A token in front of others is listed in front of them. -/
theorem plain_cons (t : Token) (outcome : Except Error (List Token)) :
    plain (outcome.map (t :: ·)) = (plain outcome).map ((t.kind, t.lexeme) :: ·) := by
  cases outcome <;> rfl

/-- The lexer makes the same of a text wherever it stands. -/
theorem plain_scanFrom (p q : Position) (text : List Char) :
    plain (scanFrom p text) = plain (scanFrom q text) := by
  induction p, text using scanFrom.induct generalizing q with
  | case1 p =>
    rw [scanFrom_nil, scanFrom_nil]
    rfl
  | case2 p first rest hblank ih =>
    rw [scanFrom_blank hblank, scanFrom_blank hblank]
    exact ih (q.next first)
  | case3 p first rest hblank hnone =>
    have hblank' := Bool.eq_false_iff.2 hblank
    rw [scanFrom_none hblank' hnone, scanFrom_none hblank' hnone]
    rfl
  | case4 p first rest hblank s hscan stop =>
    rename_i ih
    rw [scanFrom_token hscan, scanFrom_token hscan, plain_cons, plain_cons]
    exact congrArg _ (ih (q.after s.slice))

/-- Blanks in front of a text make no difference. -/
theorem plain_blanks {gap : List Char} (hgap : ∀ c ∈ gap, Text.isBlank c = true) (p q : Position)
    (text : List Char) : plain (scanFrom p (gap ++ text)) = plain (scanFrom q text) := by
  induction gap generalizing p with
  | nil => exact plain_scanFrom p q text
  | cons c gap ih =>
    rw [List.cons_append, scanFrom_blank (hgap c (List.mem_cons_self ..))]
    exact ih (fun c hc => hgap c (List.mem_cons_of_mem _ hc)) (p.next c)

/-- Outcomes without places are the same where the tokens are alike one by one, or the errors say
the same. -/
theorem alike_of_plain {x y : Except Error (List Token)} (h : plain x = plain y) :
    (∃ ts us, x = .ok ts ∧ y = .ok us ∧ ts.Forall₂ Alike us) ∨
      ∃ e e', x = .error e ∧ y = .error e' ∧ e.what = e'.what := by
  cases x with
  | error e =>
    cases y with
    | error e' => exact .inr ⟨e, e', rfl, rfl, Except.error.inj h⟩
    | ok us => simp [plain, Except.map, Except.mapError] at h
  | ok ts =>
    cases y with
    | error e' => simp [plain, Except.map, Except.mapError] at h
    | ok us =>
      refine .inl ⟨ts, us, rfl, rfl, ?_⟩
      have hmap : ts.map (fun t => (t.kind, t.lexeme)) = us.map fun t => (t.kind, t.lexeme) :=
        Except.ok.inj h
      rw [← List.forall₂_eq_eq_eq, List.forall₂_map_left_iff, List.forall₂_map_right_iff] at hmap
      exact hmap.imp fun t u htu => ⟨congrArg Prod.fst htu, congrArg Prod.snd htu⟩

/-- A text has tokens that are alike wherever it stands. -/
theorem exists_alike_scanFrom {p : Position} {text : List Char} {ts : List Token}
    (h : scanFrom p text = .ok ts) (q : Position) :
    ∃ us, scanFrom q text = .ok us ∧ ts.Forall₂ Alike us := by
  obtain ⟨ts', us, hts, hus, halike⟩ | ⟨e, e', he, -⟩ := alike_of_plain (plain_scanFrom p q text)
  · rw [h] at hts
    exact ⟨us, hus, Except.ok.inj hts ▸ halike⟩
  · simp [h] at he

/-! ## Places between tokens -/

/-- A token of a text ends right in front of the rest of the text. -/
inductive EndsAt : (text rest : List Char) → Prop
  | here {first : Char} {tail : List Char} {s : Scanned} (h : scan first tail = some s) :
    EndsAt (first :: tail) s.rest
  | blank {first : Char} {tail rest : List Char} (hblank : Text.isBlank first = true)
    (h : EndsAt tail rest) : EndsAt (first :: tail) rest
  | later {first : Char} {tail rest : List Char} {s : Scanned} (hscan : scan first tail = some s)
    (h : EndsAt s.rest rest) : EndsAt (first :: tail) rest

namespace EndsAt

variable {text rest : List Char}

/-- There is something in front of the end of a token. -/
theorem exists_front (h : EndsAt text rest) : ∃ front, front ≠ [] ∧ text = front ++ rest := by
  induction h with
  | here h => exact ⟨_, scan_slice_ne_nil h, (scan_slice h).symm⟩
  | @blank first tail rest hblank h ih =>
    obtain ⟨front, -, rfl⟩ := ih
    exact ⟨first :: front, by simp, rfl⟩
  | @later first tail rest s hscan h ih =>
    obtain ⟨front, -, hrest⟩ := ih
    refine ⟨s.slice ++ front, by simp [scan_slice_ne_nil hscan], ?_⟩
    rw [← scan_slice hscan, List.append_assoc, hrest]

/-- A text in which a token ends begins with no point. -/
theorem head_ne_point (h : EndsAt text rest) (c : Char) (tail : List Char)
    (hc : text = c :: tail) : c ≠ '.' := by
  have hscan {tail : List Char} : scan '.' tail = none := rfl
  rintro rfl
  cases h with
  | here h =>
    obtain ⟨rfl, rfl⟩ := List.cons.inj hc
    simp [hscan] at h
  | blank hblank h =>
    obtain ⟨rfl, rfl⟩ := List.cons.inj hc
    exact absurd hblank (by decide)
  | later h _ =>
    obtain ⟨rfl, rfl⟩ := List.cons.inj hc
    simp [hscan] at h

end EndsAt

/-- The blanks behind a token, if there are any, can be exchanged for others where the text does not
end, wherever in a text that is. -/
theorem plain_respaced {text rest : List Char} (h : EndsAt text rest) :
    ∀ {front gap gap' back : List Char}, rest = gap ++ back → text = front ++ rest → back ≠ [] →
      (∀ c ∈ gap, Text.isBlank c = true) → (∀ c ∈ gap', Text.isBlank c = true) → gap' ≠ [] →
      ∀ p q, plain (scanFrom p text) = plain (scanFrom q (front ++ (gap' ++ back))) := by
  -- The token that ends there is followed by a blank afterwards, and every token in front of it by
  -- the same character as before.
  induction h with
  | @here first tail s hscan =>
    intro front gap gap' back hrest htext hback hgap hgap' hne p q
    have hexchanges : Exchanges s.rest (gap' ++ back) := by
      obtain ⟨c, others, rfl⟩ := List.exists_cons_of_ne_nil hne
      exact ⟨c, others ++ back, rfl, .inl (hgap' c (List.mem_cons_self ..))⟩
    obtain ⟨mid, hslice, hscan'⟩ := scan_exchange hscan (by simp [hrest, hback]) hexchanges
    have hfront : front = first :: mid := by
      rw [← hslice]
      exact List.append_cancel_right (htext.symm.trans (scan_slice hscan).symm)
    rw [hfront, List.cons_append, scanFrom_token hscan, scanFrom_token hscan', plain_cons,
      plain_cons, hrest, plain_blanks hgap _ Position.start, plain_blanks hgap' _ Position.start]
  | @blank first tail rest hblank h ih =>
    intro front gap gap' back hrest htext hback hgap hgap' hne p q
    obtain ⟨front', -, rfl⟩ := h.exists_front
    obtain rfl : first :: front' = front := List.append_cancel_right htext
    rw [List.cons_append, scanFrom_blank hblank, scanFrom_blank hblank]
    exact ih hrest rfl hback hgap hgap' hne (p.next first) (q.next first)
  | @later first tail rest s hscan h ih =>
    intro front gap gap' back hrest htext hback hgap hgap' hne p q
    obtain ⟨front', hfront', hs⟩ := h.exists_front
    have hexchanges : Exchanges s.rest (front' ++ (gap' ++ back)) := by
      obtain ⟨c, others, rfl⟩ := List.exists_cons_of_ne_nil hfront'
      exact ⟨c, others ++ (gap' ++ back), rfl, .inr ⟨by rw [hs]; rfl, h.head_ne_point c _ hs⟩⟩
    obtain ⟨mid, hslice, hscan'⟩ := scan_exchange hscan (by simp [hs, hfront']) hexchanges
    have hfront : front = first :: (mid ++ front') := by
      rw [← List.cons_append, ← hslice]
      refine List.append_cancel_right (htext.symm.trans ?_)
      rw [List.append_assoc, ← hs, scan_slice hscan]
    rw [hfront, List.cons_append, List.append_assoc, scanFrom_token hscan, scanFrom_token hscan',
      plain_cons, plain_cons]
    exact congrArg _ (ih hrest hs hback hgap hgap' hne _ _)

/-- In front of the first token of a text there are blanks only. -/
theorem gap_of_scanFrom (p : Position) (text : List Char) :
    ∀ {u : Token} {others : List Token}, scanFrom p text = .ok (u :: others) →
      u.kind ≠ .endOfInput →
      ∃ gap back, text = gap ++ back ∧ back ≠ [] ∧ (∀ c ∈ gap, Text.isBlank c = true) ∧
        u.span.start = p.offset + gap.length := by
  induction p, text using scanFrom.induct with
  | case1 p =>
    intro u others h hu
    rw [scanFrom_nil, Except.ok.injEq, List.cons.injEq] at h
    exact absurd (h.1 ▸ rfl) hu
  | case2 p first rest hblank ih =>
    intro u others h hu
    rw [scanFrom_blank hblank] at h
    obtain ⟨gap, back, rfl, hback, hgap, hstart⟩ := ih h hu
    refine ⟨first :: gap, back, rfl, hback, ?_, ?_⟩
    · exact List.forall_mem_cons.2 ⟨hblank, hgap⟩
    · rw [hstart, Position.next_offset, List.length_cons]
      omega
  | case3 p first rest hblank hnone =>
    intro u others h
    rw [scanFrom_none (Bool.eq_false_iff.2 hblank) hnone] at h
    simp at h
  | case4 p first rest hblank s hscan stop =>
    intro u others h hu
    obtain ⟨others', -, hcons⟩ := scanFrom_token_ok hscan h
    obtain ⟨rfl, -⟩ := List.cons.inj hcons
    exact ⟨[], first :: rest, rfl, by simp, by simp, rfl⟩

/-- Between two neighbouring tokens of a text there are blanks only, and the first of them ends in
front of these. -/
theorem endsAt_of_scanFrom (p : Position) (text : List Char) :
    ∀ {before after : List Token} {t u : Token},
      scanFrom p text = .ok (before ++ t :: u :: after) → u.kind ≠ .endOfInput →
      ∃ front gap back, text = front ++ (gap ++ back) ∧ EndsAt text (gap ++ back) ∧ back ≠ [] ∧
        (∀ c ∈ gap, Text.isBlank c = true) ∧ t.span.stop = p.offset + front.length ∧
        u.span.start = p.offset + front.length + gap.length := by
  induction p, text using scanFrom.induct with
  | case1 p =>
    intro before after t u h
    rw [scanFrom_nil] at h
    have hlength := congrArg List.length (Except.ok.inj h)
    simp at hlength
    omega
  | case2 p first rest hblank ih =>
    intro before after t u h hu
    rw [scanFrom_blank hblank] at h
    obtain ⟨front, gap, back, rfl, hends, hback, hgap, hstop, hstart⟩ := ih h hu
    refine ⟨first :: front, gap, back, rfl, .blank hblank hends, hback, hgap, ?_, ?_⟩
    · rw [hstop, Position.next_offset, List.length_cons]
      omega
    · rw [hstart, Position.next_offset, List.length_cons]
      omega
  | case3 p first rest hblank hnone =>
    intro before after t u h
    rw [scanFrom_none (Bool.eq_false_iff.2 hblank) hnone] at h
    simp at h
  | case4 p first rest hblank s hscan stop =>
    rename_i ih
    intro before after t u h hu
    obtain ⟨others, hothers, hcons⟩ := scanFrom_token_ok hscan h
    have hoffset : (p.after s.slice).offset = p.offset + s.slice.length :=
      Position.after_offset p s.slice
    -- The first of the neighbours is the token found here, or both stand further on.
    cases before with
    | nil =>
      obtain ⟨rfl, rfl⟩ := List.cons.inj hcons
      obtain ⟨gap, back, hrest, hback, hgap, hstart⟩ := gap_of_scanFrom _ _ hothers hu
      refine ⟨s.slice, gap, back, ?_, hrest ▸ .here hscan, hback, hgap, hoffset, ?_⟩
      · rw [← hrest, scan_slice hscan]
      · rw [hstart, hoffset]
    | cons t' before =>
      obtain ⟨rfl, rfl⟩ := List.cons.inj hcons
      obtain ⟨front, gap, back, hrest, hends, hback, hgap, hstop, hstart⟩ := ih hothers hu
      refine ⟨s.slice ++ front, gap, back, ?_, .later hscan hends, hback, hgap, ?_, ?_⟩
      · rw [List.append_assoc, ← hrest, scan_slice hscan]
      · rw [hstop, show stop.offset = _ from hoffset, List.length_append]
        omega
      · rw [hstart, show stop.offset = _ from hoffset, List.length_append]
        omega

end Token

end CatScript
