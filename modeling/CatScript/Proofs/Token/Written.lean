import CatScript.Proofs.Number.ReadBack
import CatScript.Proofs.Token.Scan

/-!
# Written tokens are found again

What the lexer makes of a text that was written token by token.  `Scans` says of a text which
tokens it has, wherever it stands, by a property of the whole list of them; there is one lemma for
each kind of token, which writes it in front of a text that is already known.  A word or a number
ends only where no character could go on with it, which is what `Apart` asks of the text behind.
-/

set_option autoImplicit false

namespace CatScript.Token

/-- Wherever it stands, a text has tokens, and they have a property. -/
def Scans (text : List Char) (P : List Token → Prop) : Prop :=
  ∀ p, ∃ ts, scanFrom p text = .ok ts ∧ P ts

/-- The first token is of a kind and has a lexeme, and the others have a property. -/
def Begins (kind : TokenKind) (lexeme : String) (P : List Token → Prop) (ts : List Token) : Prop :=
  ∃ t rest, ts = t :: rest ∧ t.kind = kind ∧ t.lexeme = lexeme ∧ P rest

/-- No word and no number goes on with a text. -/
def Apart (text : List Char) : Prop :=
  ∀ c rest, text = c :: rest → isWordChar c = false ∧ c.isDigit = false ∧ c ≠ '.'

/-- Nothing goes on with nothing. -/
theorem apart_nil : Apart [] := fun _ _ h => absurd h (by simp)

/-- A character that no word and no number goes on with keeps apart what is behind it. -/
theorem apart_cons {c : Char} (h : isWordChar c = false ∧ c.isDigit = false ∧ c ≠ '.')
    (rest : List Char) : Apart (c :: rest) := by
  intro c' rest' heq
  rw [← (List.cons.inj heq).1]
  exact h

/-! ## Heads of written tokens -/

/-- A mark is no part of a word or of a number. -/
theorem not_part_of_ofMark? {c : Char} {kind : TokenKind} (h : TokenKind.ofMark? c = some kind) :
    c.isDigit = false ∧ isWordChar c = false := by
  unfold TokenKind.ofMark? at h
  split at h <;> first | decide | simp at h

/-- A part of a word or of a number is no mark. -/
theorem ofMark?_eq_none {c : Char} (h : c.isDigit = true ∨ isWordChar c = true) :
    TokenKind.ofMark? c = none := by
  cases hmark : TokenKind.ofMark? c with
  | none => rfl
  | some kind =>
    obtain ⟨hdigit, hword⟩ := not_part_of_ofMark? hmark
    simp [hdigit, hword] at h

/-- At a digit the lexer takes a number. -/
theorem scan_digit {first : Char} (h : first.isDigit = true) (rest : List Char) :
    scan first rest = some (scanNumber (first :: rest)) := by
  have hquote : first ≠ '"' := by
    rintro rfl
    exact absurd h (by decide)
  unfold scan
  rw [ofMark?_eq_none (.inl h)]
  dsimp only
  rw [if_neg hquote, if_pos h]

/-- A letter and the underscore are no digits. -/
theorem isDigit_of_isWordChar {c : Char} (h : isWordChar c = true) : c.isDigit = false := by
  have hword := toNat_of_isWordChar h
  apply Bool.eq_false_iff.2
  intro hdigit
  have := toNat_of_isDigit hdigit
  omega

/-- At a letter or an underscore the lexer takes a word. -/
theorem scan_letter {first : Char} (h : isWordChar first = true) (rest : List Char) :
    scan first rest = some (scanWord (first :: rest)) := by
  have hquote : first ≠ '"' := by
    rintro rfl
    exact absurd h (by decide)
  unfold scan
  rw [ofMark?_eq_none (.inr h)]
  dsimp only
  rw [if_neg hquote, if_neg (by simp [isDigit_of_isWordChar h]), if_pos h]

/-- At a mark the lexer takes the mark alone. -/
theorem scan_mark {c : Char} {kind : TokenKind} (h : TokenKind.ofMark? c = some kind)
    (rest : List Char) : scan c rest = some ⟨kind, [c], [c], rest⟩ := by
  unfold scan
  rw [h]

/-- A word that is not empty has a first character. -/
theorem exists_toList_cons {word : String} (h : word ≠ "") :
    ∃ first tail, word.toList = first :: tail :=
  List.exists_cons_of_ne_nil fun hnil => h (String.toList_eq_nil_iff.1 hnil)

/-! ## Runs of characters -/

/-- A run of characters is cut where a text that does not go on with it begins. -/
theorem cut_run {part : Char → Bool} {run rest : List Char} (hrun : ∀ c ∈ run, part c = true)
    (hrest : ∀ c tail, rest = c :: tail → part c = false) :
    (run ++ rest).takeWhile part = run ∧ (run ++ rest).dropWhile part = rest := by
  rw [List.takeWhile_append_of_pos hrun, List.dropWhile_append_of_pos hrun]
  cases rest with
  | nil => simp
  | cons c tail =>
    have hc := hrest c tail rfl
    simp [hc]

/-- A run that is as long as it can be stops at what is no part of it. -/
theorem stops_dropWhile {part : Char → Bool} {text : List Char} (c : Char) (tail : List Char)
    (h : text.dropWhile part = c :: tail) : part c = false := by
  have hne : text.dropWhile part ≠ [] := by simp [h]
  have hhead := List.head_dropWhile_not part hne
  simpa only [h, List.head_cons] using hhead

/-- A word in front of something else is taken as a whole. -/
theorem scanWord_append {word rest : List Char} (hword : ∀ c ∈ word, isWordChar c = true)
    (hrest : ∀ c tail, rest = c :: tail → isWordChar c = false) :
    scanWord (word ++ rest) = ⟨TokenKind.ofWord (String.ofList word), word, word, rest⟩ := by
  obtain ⟨htake, hdrop⟩ := cut_run hword hrest
  simp only [scanWord, htake, hdrop]

/-- Digits in front of something else are taken as a whole, as an integer. -/
theorem scanNumber_digits {digits rest : List Char} (hdigits : ∀ c ∈ digits, c.isDigit = true)
    (hrest : ∀ c tail, rest = c :: tail → c.isDigit = false)
    (hpoint : ∀ d tail, rest = '.' :: d :: tail → d.isDigit = false) :
    scanNumber (digits ++ rest) = ⟨.integer, digits, digits, rest⟩ := by
  obtain ⟨htake, hdrop⟩ := cut_run hdigits hrest
  simp only [scanNumber, htake, hdrop]
  split
  next digit tail => rw [hpoint digit tail rfl]; rfl
  next => rfl

/-- Digits with a point in them in front of something else are taken as a whole, as a float. -/
theorem scanNumber_point {whole fraction rest : List Char}
    (hwhole : ∀ c ∈ whole, c.isDigit = true) (hfraction : ∀ c ∈ fraction, c.isDigit = true)
    (hne : fraction ≠ []) (hrest : ∀ c tail, rest = c :: tail → c.isDigit = false) :
    scanNumber (whole ++ '.' :: (fraction ++ rest)) =
      ⟨.float, whole ++ '.' :: fraction, whole ++ '.' :: fraction, rest⟩ := by
  have hpoint : ∀ c tail, '.' :: (fraction ++ rest) = c :: tail → c.isDigit = false := by
    intro c tail h
    rw [← (List.cons.inj h).1]
    rfl
  obtain ⟨htake, hdrop⟩ := cut_run hwhole hpoint
  obtain ⟨htake', hdrop'⟩ := cut_run hfraction hrest
  obtain ⟨digit, tail, rfl⟩ := List.exists_cons_of_ne_nil hne
  have hdigit := hfraction digit (List.mem_cons_self ..)
  rw [List.cons_append] at htake hdrop htake' hdrop'
  simp only [scanNumber, htake, List.cons_append, hdrop, hdigit, if_true, htake', hdrop']

/-- An encoded text in quotes is taken as a whole, as the text. -/
theorem scanString_encode (s rest : List Char) :
    scanString (Text.Quoted.encode s ++ '"' :: rest) =
      ⟨.string, s, '"' :: (Text.Quoted.encode s ++ ['"']), rest⟩ := by
  simp only [scanString, Text.Quoted.body_encode, Text.Quoted.decode_encode]

/-! ## Texts in front of texts -/

namespace Scans

variable {rest : List Char} {P Q : List Token → Prop}

/-- A property of the tokens can be replaced by a weaker one. -/
theorem mono {text : List Char} (h : Scans text P) (hPQ : ∀ ts, P ts → Q ts) : Scans text Q := by
  intro p
  obtain ⟨ts, hts, hP⟩ := h p
  exact ⟨ts, hts, hPQ ts hP⟩

/-- Nothing is read as the end of the input. -/
theorem nil : Scans [] (Begins .endOfInput "" (· = [])) :=
  fun p => ⟨_, scanFrom_nil p, _, _, rfl, rfl, rfl, rfl⟩

/-- A blank in front does not matter. -/
theorem blank {c : Char} (hc : Text.isBlank c = true) (h : Scans rest P) :
    Scans (c :: rest) P := by
  intro p
  rw [scanFrom_blank hc]
  exact h (p.next c)

/-- A token at the head of a text comes before the tokens behind it. -/
theorem scanned {first : Char} {tail : List Char} {s : Scanned} (hs : scan first tail = some s)
    (h : Scans s.rest P) : Scans (first :: tail) (Begins s.kind (String.ofList s.lexeme) P) := by
  intro p
  obtain ⟨ts, hts, hP⟩ := h (p.after s.slice)
  let t : Token := ⟨s.kind, String.ofList s.lexeme, Span.between p (p.after s.slice)⟩
  refine ⟨t :: ts, ?_, t, ts, rfl, rfl, rfl, hP⟩
  rw [scanFrom_token hs, hts]
  rfl

/-- A mark is read in front of whatever follows. -/
theorem mark {c : Char} {kind : TokenKind} (hc : TokenKind.ofMark? c = some kind)
    (h : Scans rest P) : Scans (c :: rest) (Begins kind (String.ofList [c]) P) :=
  scanned (scan_mark hc rest) h

/-- A word is read in front of what is apart from it. -/
theorem word {word : String} (hne : word ≠ "")
    (hword : ∀ c ∈ word.toList, isWordChar c = true) (hrest : Apart rest) (h : Scans rest P) :
    Scans (word.toList ++ rest) (Begins (TokenKind.ofWord word) word P) := by
  have hcut := scanWord_append hword fun c tail h => (hrest c tail h).1
  obtain ⟨first, tail, hfirst⟩ := exists_toList_cons hne
  rw [String.ofList_toList, hfirst, List.cons_append] at hcut
  have hs := scan_letter (hword first (by simp [hfirst])) (tail ++ rest)
  rw [hcut] at hs
  have hscanned := scanned hs h
  rw [← hfirst, String.ofList_toList] at hscanned
  rwa [hfirst]

/-- Digits are read as an integer in front of what is apart from them. -/
theorem digits {digits : List Char} (hne : digits ≠ [])
    (hdigits : ∀ c ∈ digits, c.isDigit = true) (hrest : Apart rest) (h : Scans rest P) :
    Scans (digits ++ rest) (Begins .integer (String.ofList digits) P) := by
  have hcut := scanNumber_digits hdigits (fun c tail h => (hrest c tail h).2.1)
    fun d tail h => absurd rfl (hrest '.' _ h).2.2
  obtain ⟨first, tail, rfl⟩ := List.exists_cons_of_ne_nil hne
  have hs := scan_digit (hdigits first (List.mem_cons_self ..)) (tail ++ rest)
  rw [← List.cons_append, hcut] at hs
  exact scanned hs h

/-- Digits with a point in them are read as a float in front of what is apart from them. -/
theorem point {whole fraction : List Char} (hne : whole ≠ [])
    (hwhole : ∀ c ∈ whole, c.isDigit = true) (hne' : fraction ≠ [])
    (hfraction : ∀ c ∈ fraction, c.isDigit = true) (hrest : Apart rest) (h : Scans rest P) :
    Scans (whole ++ '.' :: (fraction ++ rest))
      (Begins .float (String.ofList (whole ++ '.' :: fraction)) P) := by
  have hcut := scanNumber_point hwhole hfraction hne' fun c tail h => (hrest c tail h).2.1
  obtain ⟨first, tail, rfl⟩ := List.exists_cons_of_ne_nil hne
  have hs : scan first (tail ++ '.' :: (fraction ++ rest)) =
      some (scanNumber (first :: tail ++ '.' :: (fraction ++ rest))) :=
    scan_digit (hwhole first (List.mem_cons_self ..)) _
  rw [hcut] at hs
  exact scanned hs h

/-- An encoded text in quotes is read as a string in front of whatever follows. -/
theorem quoted (s : String) (h : Scans rest P) :
    Scans ('"' :: (Text.Quoted.encode s.toList ++ '"' :: rest)) (Begins .string s P) := by
  have hs : scan '"' (Text.Quoted.encode s.toList ++ '"' :: rest) = some (scanString _) := rfl
  rw [scanString_encode] at hs
  have hscanned := scanned hs h
  rwa [String.ofList_toList] at hscanned

/-- An integer without a sign is found again as an integer token that reads as it. -/
theorem integer {i : Int64} (hi : 0 ≤ i.toInt) (hrest : Apart rest) (h : Scans rest P) :
    Scans (Integer64.text i ++ rest)
      (Begins .integer (String.ofList (Integer64.text i)) P) := by
  rw [Integer64.text_eq hi]
  exact digits (Text.toDigits_ne_nil _) (fun _ => Text.isDigit_of_mem_toDigits) hrest h

/-- A finite float without a sign is found again as a float token that reads as it. -/
theorem float {x : Float} (hfinite : Binary64.magnitude x < Binary64.infinity)
    (hsign : Binary64.isNegative x = false) (hrest : Apart rest) (h : Scans rest P) :
    Scans (Decimal.floatText x ++ rest)
      (Begins .float (String.ofList (Decimal.floatText x)) P) := by
  obtain ⟨-, hplaces⟩ := Decimal.nearest_ofMagnitude hfinite
  obtain ⟨whole, fraction, htext, hne, hlength, hwhole, hfraction, -⟩ := Decimal.text_eq hplaces
  have hne' : fraction ≠ [] := by
    rintro rfl
    exact absurd hlength.symm (Nat.ne_of_gt hplaces)
  rw [Decimal.floatText_eq hfinite hsign, htext, List.append_assoc, List.cons_append]
  exact point hne hwhole hne' hfraction hrest h

end Scans

end CatScript.Token
