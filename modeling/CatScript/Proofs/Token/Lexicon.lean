import CatScript.Proofs.Syntax.Printer
import CatScript.Proofs.Token.Written

/-!
# What a token looks like

The lexicon of scripts.  Marks and keywords have a spelling of their own, names and numbers are runs
of characters (`TokenKind.Spelled`), and a string is a body between quotes that stands for a text
(`Text.Quoted.Denotes`).  Which of these a piece of a text is does not depend on what follows it,
but for a string without a closing quote, which goes on to the end of the text (`Token.Matches`).
-/

set_option autoImplicit false

namespace CatScript

/-- The spelling of a mark or a keyword. -/
def TokenKind.spelling? : TokenKind → Option String
  | .leftParen => some "("
  | .rightParen => some ")"
  | .leftBrace => some "\x7b"
  | .rightBrace => some "\x7d"
  | .comma => some ","
  | .equal => some "="
  | .plus => some "+"
  | .minus => some "-"
  | .star => some "*"
  | .slash => some "/"
  | .purr => some "purr"
  | .meow => some "meow"
  | .woof => some "woof"
  | .trick => some "trick"
  | .identifier | .string | .integer | .float | .endOfInput => none

/-- A run of digits, and not an empty one. -/
structure IsDigits (text : List Char) : Prop where
  nonempty : text ≠ []
  digits : ∀ c ∈ text, c.isDigit = true

/-- A text spells a token of a kind, which is not a string. -/
inductive TokenKind.Spelled : TokenKind → List Char → Prop
  | own {kind : TokenKind} {text : String} (h : kind.spelling? = some text) :
    Spelled kind text.toList
  | identifier {name : String} (h : IsName name) : Spelled .identifier name.toList
  | integer {text : List Char} (h : IsDigits text) : Spelled .integer text
  | float {whole fraction : List Char} (hwhole : IsDigits whole) (hfraction : IsDigits fraction) :
    Spelled .float (whole ++ '.' :: fraction)

/-- What stands between the quotes of a string denotes a text: a character that is neither a quote
nor a backslash denotes itself, and a backslash and a character denote one character, which is a
line feed, a tab or a carriage return for three letters and that character itself for all others. -/
inductive Text.Quoted.Denotes : List Char → List Char → Prop
  | nil : Denotes [] []
  | plain {c : Char} {body text : List Char} (quote : c ≠ '"') (escape : c ≠ '\\')
    (h : Denotes body text) : Denotes (c :: body) (c :: text)
  | lineFeed {body text : List Char} (h : Denotes body text) :
    Denotes ('\\' :: 'n' :: body) ('\n' :: text)
  | tab {body text : List Char} (h : Denotes body text) :
    Denotes ('\\' :: 't' :: body) ('\t' :: text)
  | carriageReturn {body text : List Char} (h : Denotes body text) :
    Denotes ('\\' :: 'r' :: body) ('\r' :: text)
  | escaped {c : Char} {body text : List Char} (letter : c ≠ 'n' ∧ c ≠ 't' ∧ c ≠ 'r')
    (h : Denotes body text) : Denotes ('\\' :: c :: body) (c :: text)

/-- A piece of a text is a token of a kind with a lexeme, in front of what follows it.  A string
ends with a quote, or else with the text, where a backslash may stand alone. -/
inductive Token.Matches : TokenKind → (slice lexeme behind : List Char) → Prop
  | spelled {kind : TokenKind} {slice behind : List Char} (h : kind.Spelled slice) :
    Matches kind slice slice behind
  | closed {body text behind : List Char} (h : Text.Quoted.Denotes body text) :
    Matches .string ('"' :: (body ++ ['"'])) text behind
  | unclosed {body text : List Char} (h : Text.Quoted.Denotes body text) :
    Matches .string ('"' :: body) text []
  | dangling {body text : List Char} (h : Text.Quoted.Denotes body text) :
    Matches .string ('"' :: (body ++ ['\\'])) text []

/-! ## Names, marks and keywords -/

/-- A name has only letters and underscores in it. -/
theorem IsName.isWordChar {name : String} (h : IsName name) :
    ∀ c ∈ name.toList, Token.isWordChar c = true := by
  intro c hc
  unfold Token.isWordChar
  obtain halpha | hunderscore := h.letters c hc
  · rw [halpha, Bool.true_or]
  · rw [hunderscore]
    rfl

/-- A name is no keyword. -/
theorem IsName.ofWord {name : String} (h : IsName name) :
    TokenKind.ofWord name = .identifier := by
  obtain ⟨hpurr, hmeow, hwoof, htrick⟩ := h.no_keyword
  simp only [TokenKind.ofWord, hpurr, hmeow, hwoof, htrick, if_false]

/-- A name in front of something apart from it is read as an identifier. -/
theorem Token.Scans.name {rest : List Char} {P : List Token → Prop} {name : String}
    (hname : IsName name) (hrest : Apart rest) (h : Scans rest P) :
    Scans (name.toList ++ rest) (Begins .identifier name P) := by
  have hword := Scans.word hname.nonempty hname.isWordChar hrest h
  rwa [hname.ofWord] at hword

namespace TokenKind

/-- What has a spelling of its own is a mark, or a word that the lexer knows. -/
theorem mark_or_word {kind : TokenKind} {text : String} (h : kind.spelling? = some text) :
    (∃ c, text.toList = [c] ∧ ofMark? c = some kind) ∨
      text ≠ "" ∧ (∀ c ∈ text.toList, Token.isWordChar c = true) ∧ ofWord text = kind := by
  cases kind <;> simp only [spelling?, Option.some.injEq, reduceCtorEq] at h <;> subst h
  case purr | meow | woof | trick =>
    exact .inr ⟨by decide, List.all_eq_true.1 (by decide), by simp [ofWord]⟩
  all_goals exact .inl ⟨_, rfl, rfl⟩

/-- A mark spells the token that it is. -/
theorem spelled_of_ofMark? {c : Char} {kind : TokenKind} (h : ofMark? c = some kind) :
    kind.Spelled [c] := by
  have hown : kind.spelling? = some (String.ofList [c]) := by
    unfold ofMark? at h
    split at h <;> simp only [Option.some.injEq, reduceCtorEq] at h <;> subst h <;> rfl
  have hspelled := Spelled.own hown
  rwa [String.toList_ofList] at hspelled

/-- A run of letters and underscores spells the keyword or the name that it is. -/
theorem spelled_ofWord {word : String} (hne : word ≠ "")
    (hword : ∀ c ∈ word.toList, Token.isWordChar c = true) :
    (ofWord word).Spelled word.toList := by
  unfold ofWord
  split_ifs with hpurr hmeow hwoof htrick
  · exact .own (hpurr ▸ rfl)
  · exact .own (hmeow ▸ rfl)
  · exact .own (hwoof ▸ rfl)
  · exact .own (htrick ▸ rfl)
  · refine .identifier ⟨hne, fun c hc => ?_, hpurr, hmeow, hwoof, htrick⟩
    simpa [Token.isWordChar] using hword c hc

end TokenKind

/-! ## Bodies of strings -/

namespace Text.Quoted

variable {body text : List Char}

/-- A character that is no backslash is decoded to itself. -/
theorem decode_cons {c : Char} (h : c ≠ '\\') (rest : List Char) :
    decode (c :: rest) = c :: decode rest := by
  apply decode.eq_4
  · intro hc
    exact absurd hc h
  · intro _ _ hc
    exact absurd hc h

/-- A backslash and a character denote what the character means behind a backslash. -/
theorem Denotes.unescape (c : Char) (h : Denotes body text) :
    Denotes ('\\' :: c :: body) (Quoted.unescape c :: text) := by
  by_cases hn : c = 'n'
  · subst hn
    exact h.lineFeed
  by_cases ht : c = 't'
  · subst ht
    exact h.tab
  by_cases hr : c = 'r'
  · subst hr
    exact h.carriageReturn
  rw [Quoted.unescape, if_neg hn, if_neg ht, if_neg hr]
  exact h.escaped ⟨hn, ht, hr⟩

/-- A body in front of a text is passed over, and the string ends where the text says. -/
theorem Denotes.body_append (h : Denotes body text) (behind : List Char) :
    Quoted.body (body ++ behind) = (body ++ (Quoted.body behind).1, (Quoted.body behind).2) := by
  induction h with
  | nil => rfl
  | plain hquote hescape h ih =>
    rw [List.cons_append, Quoted.body.eq_4, ih]
    · rfl
    · intro hc
      exact absurd hc hquote
    · intro _ _ hc
      exact absurd hc hescape
  | lineFeed h ih | tab h ih | carriageReturn h ih | escaped _ h ih =>
    rw [List.cons_append, List.cons_append, Quoted.body, ih]
    rfl

/-- A body in front of another one is decoded to the text that it denotes. -/
theorem Denotes.decode_append (h : Denotes body text) (behind : List Char) :
    decode (body ++ behind) = text ++ decode behind := by
  induction h with
  | nil => rfl
  | plain hquote hescape h ih => rw [List.cons_append, decode_cons hescape, ih, List.cons_append]
  | lineFeed h ih | tab h ih | carriageReturn h ih =>
    rw [List.cons_append, List.cons_append, decode, ih]
    rfl
  | escaped hletter h ih =>
    obtain ⟨hn, ht, hr⟩ := hletter
    rw [List.cons_append, List.cons_append, decode, ih, Quoted.unescape, if_neg hn, if_neg ht,
      if_neg hr]
    rfl

/-- What a body denotes is what decoding makes of it. -/
theorem Denotes.decode_eq (h : Denotes body text) : decode body = text := by
  have hdecode := h.decode_append []
  rwa [List.append_nil, decode, List.append_nil] at hdecode

/-- What stands in front of the end of a string denotes what it is decoded to, but for a backslash
at the end of the text. -/
theorem denotes_body (text : List Char) :
    Denotes (Quoted.body text).1 (decode (Quoted.body text).1) ∨
      ∃ body, (Quoted.body text).1 = body ++ ['\\'] ∧ (Quoted.body text).2 = [] ∧
        Denotes body (decode (Quoted.body text).1) := by
  fun_induction Quoted.body text with
  | case1 => exact .inl .nil
  | case2 => exact .inl .nil
  | case3 c tail ih =>
    obtain h | ⟨body, hbody, hrest, h⟩ := ih
    · refine .inl ?_
      rw [decode]
      exact h.unescape c
    · refine .inr ⟨'\\' :: c :: body, by rw [hbody]; rfl, hrest, ?_⟩
      rw [decode]
      exact h.unescape c
  | case4 c tail hquote hescape ih =>
    by_cases hc : c = '\\'
    · -- The lexer takes a backslash by itself only where nothing follows it.
      obtain rfl : tail = [] := by
        cases tail with
        | nil => rfl
        | cons d tail => exact (hescape d tail hc rfl).elim
      subst hc
      exact .inr ⟨[], rfl, rfl, .nil⟩
    · rw [decode_cons hc]
      obtain h | ⟨body, hbody, hrest, h⟩ := ih
      · exact .inl (.plain (fun hc => hquote hc) hc h)
      · exact .inr ⟨c :: body, by rw [hbody]; rfl, hrest, .plain (fun hc => hquote hc) hc h⟩

end Text.Quoted

end CatScript
