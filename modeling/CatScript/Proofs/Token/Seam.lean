import CatScript.Proofs.Token.Written

/-!
# Where a token ends

A token at the head of a text depends on its own characters and on what follows them only so far as
that could go on with it.  `Token.goesOn` says which texts go on with which kinds of token; the
lexer never stops in front of one that does (`Token.scan_stops`), and in front of any other text it
finds the same token (`Token.scan_behind`).  A string is the exception: it is ended by its quote,
and by the end of the text if it has none.
-/

set_option autoImplicit false

namespace CatScript.Token

/-- Whether a text goes on with a token of a kind: with a word as a letter or an underscore, with a
number as a digit, and with an integer also as a point in front of a digit. -/
def goesOn (kind : TokenKind) : List Char → Bool
  | [] => false
  | c :: rest =>
    match kind with
    | .integer => c.isDigit || c == '.' && rest.head?.any Char.isDigit
    | .float => c.isDigit
    | .identifier | .purr | .meow | .woof | .trick => isWordChar c
    | _ => false

variable {kind : TokenKind} {c : Char}

/-- Nothing goes on with nothing. -/
@[simp] theorem goesOn_nil (kind : TokenKind) : goesOn kind [] = false := rfl

/-- A word, whether it is a keyword or not, goes on with letters and underscores. -/
@[simp] theorem goesOn_ofWord (word : String) (c : Char) (rest : List Char) :
    goesOn (TokenKind.ofWord word) (c :: rest) = isWordChar c := by
  unfold TokenKind.ofWord
  repeat' split
  all_goals rfl

/-- A mark never goes on. -/
theorem goesOn_of_ofMark? (h : TokenKind.ofMark? c = some kind) (text : List Char) :
    goesOn kind text = false := by
  cases text with
  | nil => rfl
  | cons first rest =>
    unfold TokenKind.ofMark? at h
    split at h <;> simp only [Option.some.injEq, reduceCtorEq] at h <;> subst h <;> rfl

/-- What goes on with a token does so as well if more characters follow. -/
theorem goesOn_append_eq_false {text rest : List Char} (h : goesOn kind (text ++ rest) = false) :
    goesOn kind text = false := by
  cases text with
  | nil => rfl
  | cons c text =>
    cases text with
    | nil => cases kind <;> simp_all [goesOn]
    | cons d text => exact h

/-- Behind a first character that is no point, no other is looked at. -/
theorem goesOn_cons_append (hc : c ≠ '.') (text rest : List Char) :
    goesOn kind (c :: text ++ rest) = goesOn kind (c :: text) := by
  have hpoint : (c == '.') = false := beq_eq_false_iff_ne.2 hc
  cases kind <;> simp [goesOn, hpoint]

/-- A character that is no part of a word or a number goes on with a token only as a point between
an integer and a digit. -/
theorem goesOn_cons_iff (hword : isWordChar c = false) (hdigit : c.isDigit = false)
    (rest : List Char) :
    goesOn kind (c :: rest) = true ↔
      kind = .integer ∧ c = '.' ∧ ∃ d tail, rest = d :: tail ∧ d.isDigit = true := by
  cases kind <;> simp [goesOn, hword, hdigit]
  cases rest <;> simp

/-- No token but a string goes on with a blank. -/
theorem goesOn_blank (h : Text.isBlank c = true) (rest : List Char) :
    goesOn kind (c :: rest) = false := by
  have hword : isWordChar c = false := by
    refine Bool.eq_false_iff.2 fun hword => ?_
    simp [isBlank_of_isWordChar hword] at h
  have hdigit : c.isDigit = false := by
    refine Bool.eq_false_iff.2 fun hdigit => ?_
    simp [isBlank_of_isDigit hdigit] at h
  refine Bool.eq_false_iff.2 fun hgoes => ?_
  obtain ⟨-, rfl, -⟩ := (goesOn_cons_iff hword hdigit rest).1 hgoes
  exact absurd h (by decide)

/-! ## Tokens stop where nothing goes on with them -/

/-- A number is taken until it does not go on. -/
theorem scanNumber_stops (text : List Char) :
    goesOn (scanNumber text).kind (scanNumber text).rest = false := by
  unfold scanNumber
  split
  next digit rest hdrop =>
    dsimp only
    split
    next hdigit =>
      cases hrest : (digit :: rest).dropWhile Char.isDigit with
      | nil => rfl
      | cons c tail => exact stops_dropWhile c tail hrest
    next hdigit => simp [goesOn, hdigit, show Char.isDigit '.' = false from rfl]
  next hother =>
    dsimp only
    cases hrest : text.dropWhile Char.isDigit with
    | nil => rfl
    | cons c tail =>
      have hc : c.isDigit = false := stops_dropWhile c tail hrest
      refine Bool.eq_false_iff.2 fun hgoes => ?_
      obtain h | ⟨rfl, h⟩ : c.isDigit = true ∨ c = '.' ∧ tail.head?.any Char.isDigit = true := by
        simpa [goesOn] using hgoes
      · simp [hc] at h
      · cases tail with
        | nil => simp at h
        | cons d tail => exact hother d tail hrest

/-- A word is taken until it does not go on. -/
theorem scanWord_stops (text : List Char) :
    goesOn (scanWord text).kind (scanWord text).rest = false := by
  unfold scanWord
  dsimp only
  cases hrest : text.dropWhile isWordChar with
  | nil => rfl
  | cons c tail =>
    rw [goesOn_ofWord]
    exact stops_dropWhile c tail hrest

/-- The lexer does not stop in front of what goes on with a token. -/
theorem scan_stops {first : Char} {rest : List Char} {s : Scanned}
    (h : scan first rest = some s) : goesOn s.kind s.rest = false := by
  unfold scan at h
  split at h
  next kind hmark =>
    rw [← Option.some.inj h]
    exact goesOn_of_ofMark? hmark rest
  next =>
    split at h
    next =>
      rw [← Option.some.inj h, scanString_kind]
      cases (scanString rest).rest <;> rfl
    next =>
      split at h
      next => rw [← Option.some.inj h]; exact scanNumber_stops _
      next =>
        split at h
        next => rw [← Option.some.inj h]; exact scanWord_stops _
        next => exact absurd h (by simp)

/-! ## Other texts behind a token -/

variable {other : List Char}

/-- A word is taken in front of every text that does not go on with it. -/
theorem scanWord_behind {text : List Char} (h : goesOn (scanWord text).kind other = false) :
    scanWord ((scanWord text).slice ++ other) = { scanWord text with rest := other } := by
  refine scanWord_append (fun _ hc => List.mem_takeWhile_imp hc) ?_
  rintro c tail rfl
  unfold scanWord at h
  rwa [goesOn_ofWord] at h

/-- A number is taken in front of every text that does not go on with it. -/
theorem scanNumber_behind {text : List Char} (h : goesOn (scanNumber text).kind other = false) :
    scanNumber ((scanNumber text).slice ++ other) = { scanNumber text with rest := other } := by
  have hwhole : ∀ c ∈ text.takeWhile Char.isDigit, c.isDigit = true :=
    fun _ hc => List.mem_takeWhile_imp hc
  have hinteger (h : goesOn .integer other = false) :
      scanNumber (text.takeWhile Char.isDigit ++ other) =
        ⟨.integer, text.takeWhile Char.isDigit, text.takeWhile Char.isDigit, other⟩ := by
    apply scanNumber_digits hwhole
    · rintro c tail rfl
      exact (Bool.or_eq_false_iff.1 h).1
    · rintro d tail rfl
      simpa [goesOn] using h
  unfold scanNumber at h
  rw [scanNumber.eq_1 text]
  split at h
  next digit rest hdrop =>
    dsimp only at h
    split at h
    next hdigit =>
      have hfraction : ∀ c ∈ (digit :: rest).takeWhile Char.isDigit, c.isDigit = true :=
        fun _ hc => List.mem_takeWhile_imp hc
      have hne : (digit :: rest).takeWhile Char.isDigit ≠ [] := by simp [hdigit]
      simp only [if_pos hdigit]
      rw [List.append_assoc, List.cons_append]
      refine scanNumber_point hwhole hfraction hne ?_
      rintro c tail rfl
      exact h
    next hdigit =>
      simp only [if_neg hdigit]
      exact hinteger h
  next hother =>
    exact hinteger h

/-- A body that is closed by a quote is closed by a quote in the same place whatever follows. -/
theorem body_behind {text body rest : List Char}
    (h : Text.Quoted.body text = (body, '"' :: rest)) (other : List Char) :
    Text.Quoted.body (body ++ '"' :: other) = (body, '"' :: other) := by
  fun_induction Text.Quoted.body text generalizing body with
  | case1 => simp at h
  | case2 tail =>
    obtain ⟨rfl, -⟩ := Prod.mk.inj h
    simp [Text.Quoted.body]
  | case3 c tail ih =>
    obtain ⟨rfl, hrest⟩ := Prod.mk.inj h
    rw [List.cons_append, List.cons_append, Text.Quoted.body, ih (Prod.ext rfl hrest)]
  | case4 c tail hquote hescape ih =>
    obtain ⟨rfl, hrest⟩ := Prod.mk.inj h
    rw [List.cons_append, Text.Quoted.body.eq_4, ih (Prod.ext rfl hrest)]
    · exact hquote
    · -- A backslash is the last character only of a body that is not closed.
      intro c' tail' hc _
      cases tail with
      | nil => simp [Text.Quoted.body] at hrest
      | cons d tail => exact hescape d tail hc rfl

/-- What stands behind the opening quote of a closed string is closed by the same quote whatever
follows. -/
theorem body_slice {behindQuote mid : List Char} (hclosed : (Text.Quoted.body behindQuote).2 ≠ [])
    (hmid : (scanString behindQuote).slice = '"' :: mid) (other : List Char) :
    Text.Quoted.body (mid ++ other) = ((Text.Quoted.body behindQuote).1, '"' :: other) := by
  unfold scanString at hmid
  rcases hbody : Text.Quoted.body behindQuote with ⟨body, rest⟩
  obtain hrest | ⟨rest, hrest⟩ := Text.Quoted.body_snd behindQuote
  · exact absurd hrest hclosed
  · rw [hbody] at hrest hmid
    obtain rfl := hrest
    obtain rfl : body ++ ['"'] = mid := (List.cons.inj hmid).2
    rw [List.append_assoc, List.cons_append, List.nil_append, body_behind hbody]

/-- A string that is closed is taken in front of every text. -/
theorem scanString_behind {behindQuote mid : List Char}
    (hclosed : (Text.Quoted.body behindQuote).2 ≠ [])
    (hmid : (scanString behindQuote).slice = '"' :: mid) :
    scanString (mid ++ other) = { scanString behindQuote with rest := other } := by
  unfold scanString
  rw [body_slice hclosed hmid]
  obtain ⟨rest, hrest⟩ := (Text.Quoted.body_snd behindQuote).resolve_left hclosed
  simp only [hrest]

/-- A token that is no open string is found in front of every text that does not go on with it. -/
theorem scan_behind {first : Char} {tail : List Char} {s : Scanned} (h : scan first tail = some s)
    (hclosed : first = '"' → (Text.Quoted.body tail).2 ≠ [])
    (hother : goesOn s.kind other = false) :
    ∃ mid, s.slice = first :: mid ∧ scan first (mid ++ other) = some { s with rest := other } := by
  obtain ⟨first', mid, hslice⟩ := List.exists_cons_of_ne_nil (scan_slice_ne_nil h)
  have hhead := scan_slice h
  rw [hslice, List.cons_append] at hhead
  obtain rfl : first' = first := (List.cons.inj hhead).1
  refine ⟨mid, hslice, ?_⟩
  -- The first character alone decides which of the four kinds of token is scanned.
  unfold scan at h ⊢
  cases hmark : TokenKind.ofMark? first' with
  | some kind =>
    rw [hmark] at h
    have hs := Option.some.inj h
    rw [← hs] at hslice ⊢
    obtain rfl : [] = mid := (List.cons.inj hslice).2
    rfl
  | none =>
    rw [hmark] at h
    dsimp only at h ⊢
    split at h
    next hquote =>
      obtain rfl := Option.some.inj h
      rw [if_pos hquote, scanString_behind (hclosed hquote) (hquote ▸ hslice)]
    next hquote =>
      rw [if_neg hquote]
      split at h
      next hdigit =>
        obtain rfl := Option.some.inj h
        rw [if_pos hdigit, ← List.cons_append, ← hslice, scanNumber_behind hother]
      next hdigit =>
        rw [if_neg hdigit]
        split at h
        next hword =>
          obtain rfl := Option.some.inj h
          rw [if_pos hword, ← List.cons_append, ← hslice, scanWord_behind hother]
        next => simp at h

/-- An open string is the last token in front of the end of the input. -/
theorem scan_quote_open {tail : List Char} {s : Scanned} (h : scan '"' tail = some s)
    (hopen : (Text.Quoted.body tail).2 = []) : s.kind = .string ∧ s.rest = [] := by
  have hs : scanString tail = s := Option.some.inj h
  rw [← hs]
  refine ⟨scanString_kind tail, ?_⟩
  unfold scanString
  rcases hbody : Text.Quoted.body tail with ⟨body, rest⟩
  rw [hbody] at hopen
  subst hopen
  rfl

/-- A token is a string only if it begins with a quote. -/
theorem eq_quote_of_kind {first : Char} {rest : List Char} {s : Scanned}
    (h : scan first rest = some s) (hkind : s.kind = .string) : first = '"' := by
  have hword (word : String) : TokenKind.ofWord word ≠ .string := by
    unfold TokenKind.ofWord
    repeat' split
    all_goals simp
  by_contra hquote
  unfold scan at h
  split at h
  next kind hmark =>
    obtain rfl := Option.some.inj h
    obtain rfl : kind = .string := hkind
    unfold TokenKind.ofMark? at hmark
    split at hmark <;> simp at hmark
  next =>
    rw [if_neg hquote] at h
    split at h
    next =>
      obtain rfl := Option.some.inj h
      obtain hnumber | hnumber := scanNumber_kind (first :: rest) <;> simp [hnumber] at hkind
    next =>
      split at h
      next => exact hword _ (Option.some.inj h ▸ hkind)
      next => simp at h

/-- A token with something behind it is no open string. -/
theorem closed_of_rest_ne_nil {first : Char} {tail : List Char} {s : Scanned}
    (h : scan first tail = some s) (hne : s.rest ≠ []) (hquote : first = '"') :
    (Text.Quoted.body tail).2 ≠ [] := by
  subst hquote
  exact fun hopen => hne (scan_quote_open h hopen).2

/-- A string with something behind it is closed by the same quote whatever follows. -/
theorem closed_of_slice {tail mid : List Char} {s : Scanned} (h : scan '"' tail = some s)
    (hne : s.rest ≠ []) (hslice : s.slice = '"' :: mid) (other : List Char) :
    (Text.Quoted.body (mid ++ other)).2 ≠ [] := by
  have hs : scanString tail = s := Option.some.inj h
  rw [body_slice (closed_of_rest_ne_nil h hne rfl) (hs ▸ hslice)]
  simp

/-- A token stays the same if what follows it is cut off further down. -/
theorem scan_cut {first : Char} {tail front behind : List Char} {s : Scanned}
    (h : scan first tail = some s) (hrest : s.rest = front ++ behind) (hne : behind ≠ []) :
    ∃ mid, s.slice = first :: mid ∧ scan first (mid ++ front) = some { s with rest := front } := by
  refine scan_behind h (closed_of_rest_ne_nil h ?_) ?_
  · rw [hrest]
    exact List.append_ne_nil_of_right_ne_nil front hne
  · exact goesOn_append_eq_false (hrest ▸ scan_stops h)

end CatScript.Token
