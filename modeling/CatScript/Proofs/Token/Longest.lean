import CatScript.Proofs.Token.Lexicon
import CatScript.Proofs.Token.Tiling

/-!
# Tokens are the longest matches

Among the pieces that the lexicon finds at the head of a text, the lexer takes the longest, with the
kind and the lexeme that the lexicon gives it (`Token.LongestMatch`).  That it takes one of them is
`Token.scan_listed`, one lemma for each kind of scanner; that none is longer is
`Token.Matches.covered`, one case for each entry of the lexicon.  In a whole text every token is
found that way in the place that its span says (`Token.longest_of_scan`, `Token.scanFrom_longest`).
-/

set_option autoImplicit false

namespace CatScript.Token

/-- A text begins with a token of a kind, a piece of the text with a lexeme. -/
def MatchesHead (text : List Char) (kind : TokenKind) (slice lexeme : List Char) : Prop :=
  ∃ behind, slice ++ behind = text ∧ Matches kind slice lexeme behind

/-- A text begins with a token that is longer than every other one it may begin with. -/
structure LongestMatch (text : List Char) (kind : TokenKind) (slice lexeme : List Char) :
    Prop where
  matches_head : MatchesHead text kind slice lexeme
  longest : ∀ {kind' : TokenKind} {slice' lexeme' : List Char},
    MatchesHead text kind' slice' lexeme' →
      slice'.length ≤ slice.length ∧ (slice' = slice → kind' = kind ∧ lexeme' = lexeme)

/-! ## What the lexer takes is a match -/

/-- What the lexer has taken from the head of a text is in the lexicon. -/
def Listed (s : Scanned) : Prop := Matches s.kind s.slice s.lexeme s.rest

/-- A string that the lexer takes is in the lexicon. -/
theorem scanString_listed (behindQuote : List Char) : Listed (scanString behindQuote) := by
  have hdenotes := Text.Quoted.denotes_body behindQuote
  have hend := Text.Quoted.body_snd behindQuote
  unfold scanString
  revert hdenotes hend
  rcases Text.Quoted.body behindQuote with ⟨body, rest⟩
  intro hdenotes hend
  dsimp only at hdenotes hend
  obtain h | ⟨front, rfl, rfl, h⟩ := hdenotes
  · obtain rfl | ⟨rest, rfl⟩ := hend
    · exact .unclosed h
    · exact .closed h
  · exact .dangling h

/-- The digits that a text begins with are a run of digits, if the first character is one. -/
theorem isDigits_takeWhile {first : Char} (h : first.isDigit = true) (rest : List Char) :
    IsDigits ((first :: rest).takeWhile Char.isDigit) :=
  ⟨by simp [h], fun _ hc => List.mem_takeWhile_imp hc⟩

/-- A number that the lexer takes is in the lexicon. -/
theorem scanNumber_listed {first : Char} (h : first.isDigit = true) (rest : List Char) :
    Listed (scanNumber (first :: rest)) := by
  have hwhole := isDigits_takeWhile h rest
  unfold scanNumber
  split
  next digit tail hdrop =>
    dsimp only
    split
    next hdigit => exact .spelled (.float hwhole (isDigits_takeWhile hdigit tail))
    next => exact .spelled (.integer hwhole)
  next => exact .spelled (.integer hwhole)

/-- A word that the lexer takes is in the lexicon. -/
theorem scanWord_listed {first : Char} (h : isWordChar first = true) (rest : List Char) :
    Listed (scanWord (first :: rest)) := by
  have hne : String.ofList ((first :: rest).takeWhile isWordChar) ≠ "" := by simp [h]
  have hspelled := TokenKind.spelled_ofWord hne fun c hc => by
    rw [String.toList_ofList] at hc
    exact List.mem_takeWhile_imp hc
  rw [String.toList_ofList] at hspelled
  exact .spelled hspelled

/-- Whatever the lexer takes is in the lexicon. -/
theorem scan_listed {first : Char} {rest : List Char} {s : Scanned} (h : scan first rest = some s) :
    Listed s := by
  unfold scan at h
  split at h
  next kind hmark =>
    rw [← Option.some.inj h]
    exact .spelled (TokenKind.spelled_of_ofMark? hmark)
  next =>
    split at h
    next => rw [← Option.some.inj h]; exact scanString_listed rest
    next =>
      split at h
      next hdigit => rw [← Option.some.inj h]; exact scanNumber_listed hdigit rest
      next =>
        split at h
        next hword => rw [← Option.some.inj h]; exact scanWord_listed hword rest
        next => exact absurd h (by simp)

/-! ## No match is longer -/

/-- The lexer takes no less of a text than a piece of it, and takes it for the same if it takes
just that. -/
def Covered (text : List Char) (kind : TokenKind) (slice lexeme : List Char) : Prop :=
  ∃ first rest s, text = first :: rest ∧ scan first rest = some s ∧
    slice.length ≤ s.slice.length ∧ (slice = s.slice → kind = s.kind ∧ lexeme = s.lexeme)

variable {behind : List Char}

/-- The lexer takes no less of a text than a word that it begins with. -/
theorem covered_word {word : String} (hne : word ≠ "")
    (hword : ∀ c ∈ word.toList, isWordChar c = true) :
    Covered (word.toList ++ behind) (TokenKind.ofWord word) word.toList word.toList := by
  obtain ⟨first, tail, hfirst⟩ := exists_toList_cons hne
  refine ⟨first, tail ++ behind, _, by rw [hfirst]; rfl,
    scan_letter (hword first (by simp [hfirst])) _, ?_⟩
  rw [← List.cons_append, ← hfirst]
  unfold scanWord
  rw [List.takeWhile_append_of_pos hword]
  refine ⟨by simp, fun hslice => ?_⟩
  dsimp only at hslice ⊢
  rw [← hslice, String.ofList_toList]
  exact ⟨rfl, rfl⟩

/-- The lexer takes no less of a text than the digits that it begins with. -/
theorem covered_digits {digits : List Char} (h : IsDigits digits) :
    Covered (digits ++ behind) .integer digits digits := by
  obtain ⟨first, tail, rfl⟩ := List.exists_cons_of_ne_nil h.nonempty
  refine ⟨first, tail ++ behind, _, rfl, scan_digit (h.digits first (List.mem_cons_self ..)) _, ?_⟩
  rw [← List.cons_append]
  unfold scanNumber
  rw [List.takeWhile_append_of_pos h.digits]
  split
  next digit rest _ =>
    dsimp only
    split
    next =>
      refine ⟨by simp, fun hslice => ?_⟩
      dsimp only at hslice
      -- A run of digits has no point in it.
      have hpoint : '.' ∈ first :: tail := by rw [hslice]; simp
      exact absurd (h.digits '.' hpoint) (by decide)
    next => exact ⟨by simp, fun hslice => ⟨rfl, hslice⟩⟩
  next => exact ⟨by simp, fun hslice => ⟨rfl, hslice⟩⟩

/-- The lexer takes no less of a text than digits with a point in them that it begins with. -/
theorem covered_point {whole fraction : List Char} (hwhole : IsDigits whole)
    (hfraction : IsDigits fraction) :
    Covered (whole ++ '.' :: fraction ++ behind) .float (whole ++ '.' :: fraction)
      (whole ++ '.' :: fraction) := by
  obtain ⟨first, tail, hfirst⟩ := List.exists_cons_of_ne_nil hwhole.nonempty
  have hscan := scan_digit (hwhole.digits first (by simp [hfirst]))
    (tail ++ '.' :: fraction ++ behind)
  have htext : first :: (tail ++ '.' :: fraction ++ behind) = whole ++ '.' ::
      (fraction ++ behind.takeWhile Char.isDigit ++ behind.dropWhile Char.isDigit) := by
    rw [List.append_assoc fraction, List.takeWhile_append_dropWhile, hfirst]
    simp
  have hrun : ∀ c ∈ fraction ++ behind.takeWhile Char.isDigit, c.isDigit = true := by
    intro c hc
    obtain hc | hc := List.mem_append.1 hc
    · exact hfraction.digits c hc
    · exact List.mem_takeWhile_imp hc
  have hne : fraction ++ behind.takeWhile Char.isDigit ≠ [] := by simp [hfraction.nonempty]
  rw [htext, scanNumber_point hwhole.digits hrun hne stops_dropWhile] at hscan
  refine ⟨first, _, _, by rw [hfirst]; rfl, hscan, by simp, fun hslice => ⟨rfl, hslice⟩⟩

/-- A string that is closed, or that goes on to the end of the text, is all that the lexer takes. -/
theorem covered_string {lexeme slice behindQuote : List Char}
    (hscan : scanString behindQuote = ⟨.string, lexeme, slice, behind⟩) :
    Covered ('"' :: behindQuote) .string slice lexeme :=
  ⟨'"', behindQuote, _, rfl, congrArg some hscan, Nat.le_refl _, fun _ => ⟨rfl, rfl⟩⟩

/-- The lexer takes no less of a text than any spelling that it begins with. -/
theorem covered_spelled {kind : TokenKind} {slice : List Char} (h : kind.Spelled slice) :
    Covered (slice ++ behind) kind slice slice := by
  cases h with
  | own h =>
    obtain ⟨c, htext, hmark⟩ | ⟨hne, hword, hkind⟩ := TokenKind.mark_or_word h
    · rw [htext]
      exact ⟨c, behind, _, rfl, scan_mark hmark behind, Nat.le_refl _, fun _ => ⟨rfl, rfl⟩⟩
    · rw [← hkind]
      exact covered_word hne hword
  | identifier h =>
    have hcovered := @covered_word behind _ h.nonempty h.isWordChar
    rwa [h.ofWord] at hcovered
  | integer h => exact covered_digits h
  | float hwhole hfraction => exact covered_point hwhole hfraction

/-- The lexer takes no less than what the lexicon has at the head of a text. -/
theorem Matches.covered {kind : TokenKind} {slice lexeme : List Char}
    (h : Matches kind slice lexeme behind) : Covered (slice ++ behind) kind slice lexeme := by
  cases h with
  | spelled h => exact covered_spelled h
  | @closed body text behind h =>
    have htext : ('"' :: (body ++ ['"'])) ++ behind = '"' :: (body ++ '"' :: behind) := by simp
    rw [htext]
    apply @covered_string behind
    simp [scanString, h.body_append, h.decode_eq, Text.Quoted.body]
  | @unclosed body text h =>
    rw [List.append_nil]
    apply @covered_string []
    have hbody := h.body_append []
    rw [List.append_nil] at hbody
    simp [scanString, hbody, h.decode_eq, Text.Quoted.body]
  | @dangling body text h =>
    rw [List.append_nil]
    apply @covered_string []
    simp [scanString, h.body_append, h.decode_append, Text.Quoted.body, Text.Quoted.decode]

/-- What the lexer takes from the head of a text is the longest match there. -/
theorem scan_longest {first : Char} {rest : List Char} {s : Scanned}
    (h : scan first rest = some s) : LongestMatch (first :: rest) s.kind s.slice s.lexeme where
  matches_head := ⟨s.rest, scan_slice h, scan_listed h⟩
  longest := by
    rintro kind slice lexeme ⟨behind, htext, hmatches⟩
    obtain ⟨first', rest', s', hhead, hs', hcovers⟩ := hmatches.covered
    obtain ⟨rfl, rfl⟩ := List.cons.inj (htext.symm.trans hhead)
    obtain rfl := Option.some.inj (h.symm.trans hs')
    exact hcovers

/-! ## The tokens of a text -/

/-- The piece of a text that a token covers. -/
def sliceIn (text : List Char) (t : Token) : List Char :=
  (text.drop t.span.start).take (t.span.stop - t.span.start)

/-- A token stands where its span says, and is the longest match there. -/
structure Longest (text : List Char) (t : Token) : Prop where
  inside : t.span.stop ≤ text.length
  longest : LongestMatch (text.drop t.span.start) t.kind (t.sliceIn text) t.lexeme.toList

/-- What is scanned behind some characters is a token that covers what was taken. -/
theorem longest_of_scan (before : List Char) {first : Char} {rest : List Char} {s : Scanned}
    (h : scan first rest = some s) :
    Longest (before ++ first :: rest) ⟨s.kind, String.ofList s.lexeme,
      Span.between (Position.start.after before)
        (Position.start.after (before ++ s.slice))⟩ := by
  have hlength : (before ++ s.slice).length - before.length = s.slice.length := by simp
  rw [Position.after_start, Position.after_start]
  constructor
  · rw [← scan_slice h]
    simp [Span.between]
  · simp only [sliceIn, Span.between, List.drop_left, hlength, String.toList_ofList]
    rw [← scan_slice h, List.take_left, scan_slice h]
    exact scan_longest h

/-- From a position that is the one behind the characters consumed so far, every token that the
lexer finds is the longest match in its place.  The induction is on the lexer's own recursion, over
all ways to cut the text in two. -/
theorem scanFrom_longest (p : Position) (rest : List Char) :
    ∀ {before : List Char} {ts : List Token}, p = Position.start.after before →
      scanFrom p rest = .ok ts →
      ∀ t ∈ ts, t.kind ≠ .endOfInput → Longest (before ++ rest) t := by
  induction p, rest using scanFrom.induct with
  | case1 p =>
    intro before ts hp h t ht hkind
    rw [scanFrom_nil] at h
    rw [← Except.ok.inj h, List.mem_singleton] at ht
    rw [ht] at hkind
    exact absurd rfl hkind
  | case2 p first rest hblank ih =>
    intro before ts hp h
    rw [scanFrom_blank hblank] at h
    have hlater := ih (Position.next_eq_after hp first) h
    rwa [List.append_assoc, List.singleton_append] at hlater
  | case3 p first rest hblank hnone =>
    intro before ts hp h
    rw [scanFrom_none (Bool.eq_false_iff.2 hblank) hnone] at h
    exact absurd h (by simp)
  | case4 p first rest hblank s hscan stop =>
    rename_i ih
    intro before ts hp h t ht hkind
    obtain ⟨others, hothers, rfl⟩ := scanFrom_token_ok hscan h
    have hstop : stop = Position.start.after (before ++ s.slice) := by
      rw [Position.after_append, ← hp]
    obtain rfl | ht := List.mem_cons.1 ht
    · have hlongest := longest_of_scan before hscan
      rwa [← hstop, ← hp] at hlongest
    · have hlater := ih hstop hothers t ht hkind
      rwa [List.append_assoc, scan_slice hscan] at hlater

/-- Every token of a text, but for the end of the input, is the longest match in its place, and its
kind and its lexeme are the only ones that the match has. -/
theorem ofText_longest {source : String} {ts : List Token} (h : ofText source = .ok ts) {t : Token}
    (ht : t ∈ ts) (hkind : t.kind ≠ .endOfInput) : Longest source.toList t :=
  @scanFrom_longest Position.start source.toList [] ts rfl h t ht hkind

/-- A word that begins like a keyword is a name, and a string without a closing quote goes on to the
end of the text. -/
theorem ofText_longest_purring :
    Token.ofText "purring \"\\n" = .ok [⟨.identifier, "purring", ⟨0, 7, 1, 1⟩⟩,
        ⟨.string, "\n", ⟨8, 11, 1, 9⟩⟩, ⟨.endOfInput, "", ⟨11, 12, 1, 12⟩⟩] ∧
      Longest "purring \"\\n".toList ⟨.identifier, "purring", ⟨0, 7, 1, 1⟩⟩ ∧
      Longest "purring \"\\n".toList ⟨.string, "\n", ⟨8, 11, 1, 9⟩⟩ :=
  have h : Token.ofText "purring \"\\n" = .ok [⟨.identifier, "purring", ⟨0, 7, 1, 1⟩⟩,
      ⟨.string, "\n", ⟨8, 11, 1, 9⟩⟩, ⟨.endOfInput, "", ⟨11, 12, 1, 12⟩⟩] := by cbv
  ⟨h, ofText_longest h (by simp) (by simp), ofText_longest h (by simp) (by simp)⟩

end CatScript.Token
