import CatScript.Model.Program.OfTokens
import CatScript.Proofs.Token.Seam
import CatScript.Proofs.Token.Tiling

/-!
# The tokens of joined texts

A text that is put behind another one, with a line end in between, has the same tokens as by itself,
only further down.  Where a text begins makes no difference but to the spans of its tokens
(`Token.scanFrom_shift`).  Behind a text that ends with no open string, a text that goes on with no
token only adds tokens of its own (`Token.scanFrom_append`), and a line end goes on with none.  So
the tokens of the first text come first, as they are, and those of the second one behind them, moved
(`Token.ofText_joined`); if the second one has none, its error is moved in the same way.
-/

set_option autoImplicit false

namespace CatScript

/-- The span so many characters and lines further down in a text, at the same column. -/
def Span.shift (offset lines : Nat) (s : Span) : Span :=
  ⟨s.start + offset, s.stop + offset, s.line + lines, s.column⟩

/-- The place so many characters and lines further down in a text, at the same column. -/
def Position.shift (offset lines : Nat) (p : Position) : Position :=
  ⟨p.offset + offset, p.line + lines, p.column⟩

/-- A token with another span, and with its line and its column changed as those of a span. -/
def Token.respan (f : Span → Span) (t : Token) : Token :=
  let own := f { t.span with line := t.line, column := t.column }
  { kind := t.kind, lexeme := t.lexeme, span := f t.span, mark := ⟨own.line, own.column⟩ }

/-- An error that points elsewhere. -/
def Error.respan (f : Span → Span) (e : Error) : Error := { e with span := f e.span }

/-- Another span does not change the kind of a token. -/
@[simp] theorem Token.respan_kind (f : Span → Span) (t : Token) : (t.respan f).kind = t.kind := rfl

/-- Another span does not change the lexeme of a token. -/
@[simp] theorem Token.respan_lexeme (f : Span → Span) (t : Token) :
    (t.respan f).lexeme = t.lexeme := rfl

/-- The span of a token is the one that it is given. -/
@[simp] theorem Token.respan_span (f : Span → Span) (t : Token) :
    (t.respan f).span = f t.span := rfl

namespace Position

variable (offset lines : Nat)

/-- Behind a character that stands further down one is further down. -/
theorem next_shift (p : Position) (c : Char) :
    (p.shift offset lines).next c = (p.next c).shift offset lines := by
  unfold next shift
  split
  · simp only [mk.injEq, and_true]
    omega
  · simp only [mk.injEq, and_true]
    omega

/-- Behind a text that stands further down one is further down. -/
theorem after_shift (text : List Char) : ∀ p : Position,
    (p.shift offset lines).after text = (p.after text).shift offset lines := by
  induction text with
  | nil => intro p; rfl
  | cons c text ih => intro p; rw [after_cons, after_cons, next_shift, ih]

/-- The span of one character that stands further down. -/
theorem point_shift (p : Position) :
    Span.point (p.shift offset lines) = (Span.point p).shift offset lines := by
  simp only [Span.point, Span.shift, shift, Span.mk.injEq, and_true, true_and]
  omega

end Position

namespace Token

/-! ## Texts further down -/

section Shift

variable (offset lines : Nat)

/-- Tokens, or the error that stands in their way, further down in a text. -/
def shifted (outcome : Except Error (List Token)) : Except Error (List Token) :=
  (outcome.map (List.map (respan (Span.shift offset lines)))).mapError
    (Error.respan (Span.shift offset lines))

/-- A token in front of others stands further down with them. -/
theorem shifted_cons (t : Token) (outcome : Except Error (List Token)) :
    shifted offset lines (outcome.map (t :: ·)) =
      (shifted offset lines outcome).map (t.respan (Span.shift offset lines) :: ·) := by
  cases outcome <;> rfl

/-- Where a text begins makes no difference but to spans. -/
theorem scanFrom_shift (p : Position) (text : List Char) :
    scanFrom (p.shift offset lines) text = shifted offset lines (scanFrom p text) := by
  induction p, text using scanFrom.induct with
  | case1 p =>
    rw [scanFrom_nil, scanFrom_nil, Position.point_shift]
    rfl
  | case2 p first rest hblank ih =>
    rw [scanFrom_blank hblank, scanFrom_blank hblank, Position.next_shift]
    exact ih
  | case3 p first rest hblank hnone =>
    have hblank' := Bool.eq_false_iff.2 hblank
    rw [scanFrom_none hblank' hnone, scanFrom_none hblank' hnone, Position.point_shift]
    rfl
  | case4 p first rest hblank s hscan stop =>
    rename_i ih
    rw [scanFrom_token hscan, scanFrom_token hscan, shifted_cons, Position.after_shift]
    rw [show scanFrom ((p.after s.slice).shift offset lines) s.rest = _ from ih]
    rfl

end Shift

/-! ## Texts behind texts -/

/-- A string token behind whose opening quote no quote closes the string. -/
def Unclosed (text : List Char) (t : Token) : Prop :=
  t.kind = .string ∧ (Text.Quoted.body (text.drop (t.span.start + 1))).2 = []

/-- A text has the tokens, and ends with no open string. -/
structure Whole (text : String) (ts : List Token) : Prop where
  tokens : ofText text = .ok ts
  closed : ∀ t, (script ts).getLast? = some t → ¬ t.Unclosed text.toList

/-- A text that goes on with no token which ends where it begins. -/
def Parts (size : Nat) (ts : List Token) (other : List Char) : Prop :=
  ∀ t, (script ts).getLast? = some t → t.span.stop = size → goesOn t.kind other = false

/-- No token goes on behind a line end. -/
theorem parts_line (size : Nat) (ts : List Token) (other : List Char) :
    Parts size ts ('\n' :: other) :=
  fun _ _ _ => goesOn_blank (by decide) other

/-- A token that is found, in front of the tokens of what is left. -/
theorem script_cons_scanned {first : Char} {rest : List Char} {s : Scanned}
    (h : scan first rest = some s) (lexeme : String) (span : Span) (others : List Token) :
    script (⟨s.kind, lexeme, span⟩ :: others) = ⟨s.kind, lexeme, span⟩ :: script others := by
  simp [script, scan_kind_ne_endOfInput h]

/-- What holds of the last of some tokens, and of one in front of them if they are none, holds of
the last of all of them. -/
theorem last_cons_scanned {first : Char} {rest : List Char} {s : Scanned}
    (h : scan first rest = some s) {lexeme : String} {span : Span} {others : List Token}
    {Q : Token → Prop} (hfirst : Q ⟨s.kind, lexeme, span⟩)
    (hothers : ∀ t, (script others).getLast? = some t → Q t) (t : Token)
    (ht : (script (⟨s.kind, lexeme, span⟩ :: others)).getLast? = some t) : Q t := by
  rw [script_cons_scanned h, List.getLast?_cons, Option.some.injEq] at ht
  cases hlast : (script others).getLast? with
  | none => exact ht ▸ hlast ▸ hfirst
  | some u =>
    obtain rfl : u = t := by rwa [hlast] at ht
    exact hothers u hlast

/-- No text with tokens begins with a point. -/
theorem scanFrom_point_ne_ok (p : Position) (rest : List Char) (ts : List Token) :
    scanFrom p ('.' :: rest) ≠ .ok ts := by
  rw [scanFrom_none (by decide) rfl]
  simp

/-- A token with what is left behind it is found as well if another text comes behind that. -/
theorem scan_append {first : Char} {tail other : List Char} {s : Scanned}
    (h : scan first tail = some s) (hclosed : first = '"' → (Text.Quoted.body tail).2 ≠ [])
    (hother : goesOn s.kind (s.rest ++ other) = false) :
    scan first (tail ++ other) = some { s with rest := s.rest ++ other } := by
  obtain ⟨mid, hslice, hscan⟩ := scan_behind h hclosed hother
  have hhead := scan_slice h
  rw [hslice, List.cons_append] at hhead
  rwa [← (List.cons.inj hhead).2, List.append_assoc]

/-- Behind a text that ends with no open string, another text that goes on with none of its tokens
only adds its own.  The induction is on the recursion of the lexer over the first text. -/
theorem scanFrom_append (p : Position) (rest : List Char) :
    ∀ {before : List Char} {ts : List Token} {other : List Char}, p.offset = before.length →
      scanFrom p rest = .ok ts →
      (∀ t, (script ts).getLast? = some t → ¬ t.Unclosed (before ++ rest)) →
      Parts (before ++ rest).length ts other →
      scanFrom p (rest ++ other) = (scanFrom (p.after rest) other).map (script ts ++ ·) := by
  induction p, rest using scanFrom.induct with
  | case1 p =>
    intro before ts other hp h hclosed hparts
    rw [scanFrom_nil] at h
    rw [← Except.ok.inj h, List.nil_append, Position.after_nil]
    simp [script]
    cases scanFrom p other <;> rfl
  | case2 p first rest hblank ih =>
    intro before ts other hp h hclosed hparts
    rw [scanFrom_blank hblank] at h
    rw [List.cons_append, scanFrom_blank hblank, Position.after_cons]
    apply @ih (before ++ [first]) ts other _ h
    · simpa using hclosed
    · simpa using hparts
    · rw [Position.next_offset, hp, List.length_append]
      rfl
  | case3 p first rest hblank hnone =>
    intro before ts other hp h
    rw [scanFrom_none (Bool.eq_false_iff.2 hblank) hnone] at h
    exact absurd h (by simp)
  | case4 p first rest hblank s hscan stop =>
    rename_i ih
    intro before ts other hp h hclosed hparts
    obtain ⟨others, hothers, rfl⟩ := scanFrom_token_ok hscan h
    rw [script_cons_scanned hscan] at hclosed ⊢
    have htext : before ++ s.slice ++ s.rest = before ++ first :: rest := by
      rw [List.append_assoc, scan_slice hscan]
    have hstop : stop.offset = (before ++ s.slice).length := by
      rw [show stop.offset = _ from Position.after_offset p s.slice, hp, List.length_append]
    have hlast (hrest : s.rest = []) : script others = [] := by
      rw [hrest, scanFrom_nil] at hothers
      rw [← Except.ok.inj hothers]
      simp [script]
    have hopen : first = '"' → (Text.Quoted.body rest).2 ≠ [] := by
      rintro rfl hopen
      obtain ⟨hstring, hrest⟩ := scan_quote_open hscan hopen
      refine hclosed _ (by rw [hlast hrest]; rfl) ⟨hstring, ?_⟩
      show (Text.Quoted.body ((before ++ '"' :: rest).drop (p.offset + 1))).2 = []
      rwa [hp, ← List.drop_drop, List.drop_left]
    have hgoes : goesOn s.kind (s.rest ++ other) = false := by
      cases hrest : s.rest with
      | nil =>
        apply hparts ⟨s.kind, String.ofList s.lexeme, Span.between p stop⟩
        · rw [script_cons_scanned hscan, hlast hrest]
          rfl
        · rw [← htext, hrest, List.append_nil]
          exact hstop
      | cons c tail =>
        -- The rest has tokens of its own, so that it begins with no point.
        have hc : c ≠ '.' := by
          rintro rfl
          rw [hrest] at hothers
          exact scanFrom_point_ne_ok _ _ _ hothers
        rw [goesOn_cons_append hc, ← hrest]
        exact scan_stops hscan
    rw [List.cons_append, scanFrom_token (scan_append hscan hopen hgoes)]
    show (scanFrom stop (s.rest ++ other)).map _ = _
    rw [@ih (before ++ s.slice) others other hstop hothers ?_ ?_, ← scan_slice hscan,
      Position.after_append]
    · cases scanFrom (stop.after s.rest) other <;> rfl
    · intro t ht
      rw [htext]
      apply hclosed t
      rw [List.getLast?_cons, ht]
      rfl
    · intro t ht
      rw [htext]
      apply hparts t
      rw [script_cons_scanned hscan, List.getLast?_cons, ht]
      rfl

/-- The place behind a text and a line end is that many characters and lines down from the start. -/
theorem next_line_after_start (text : List Char) :
    (Position.start.after text).next '\n' =
      Position.start.shift (text.length + 1) (1 + text.count '\n') := by
  have hoffset := Position.after_offset Position.start text
  have hline := Position.after_line Position.start text
  simp only [Position.start] at hoffset hline
  simp only [Position.next, Position.shift, Position.start, if_true, Position.mk.injEq, and_true,
    hoffset, hline]
  omega

/-- Two texts with a line end in between, the first of which ends with no open string, have the
tokens of the first text, and those of the second one that many characters and lines further down;
if the second text has none, its error is moved alike. -/
theorem ofText_joined {a : String} {ts : List Token} (h : ofText a = .ok ts)
    (hclosed : ∀ t, (script ts).getLast? = some t → ¬ t.Unclosed a.toList) (b : String) :
    ofText (a ++ "\n" ++ b) =
      (shifted (a.toList.length + 1) (1 + a.toList.count '\n') (ofText b)).map
        (script ts ++ ·) := by
  have htext : (a ++ "\n" ++ b).toList = a.toList ++ '\n' :: b.toList := by simp
  have hjoined := @scanFrom_append Position.start a.toList [] ts ('\n' :: b.toList) rfl h hclosed
    (parts_line _ _ _)
  unfold ofText
  rw [htext, hjoined, scanFrom_blank (by decide), next_line_after_start, scanFrom_shift]

/-- The tokens of the script proper are all but the last. -/
theorem script_eq_dropLast {source : String} {ts : List Token} (h : ofText source = .ok ts) :
    script ts = ts.dropLast := by
  have htiles : Tiles source.toList 0 ts :=
    @scanFrom_tiles Position.start source.toList [] ts rfl h
  obtain ⟨pieces, last, rfl, hlast, -, -, hpieces⟩ := htiles.ends
  rw [List.dropLast_concat, script, List.takeWhile_append_of_pos]
  · simp [hlast]
  · intro t ht
    simpa using (hpieces t ht).1

/-- A line end between two texts, the first of which ends with no open string, keeps them apart.
Together they have tokens if the second one has, and these are the tokens of the first text but its
end of the input, and those of the second one that many characters and lines further down.  If the
second one has none, the error is its error, moved alike. -/
theorem ofText_line_end {a : String} {ts : List Token} (h : Whole a ts) (b : String) :
    ((∃ all, ofText (a ++ "\n" ++ b) = .ok all) ↔ ∃ us, ofText b = .ok us) ∧
      (∀ us, ofText b = .ok us → ofText (a ++ "\n" ++ b) = .ok (ts.dropLast ++
        us.map (respan (Span.shift (a.toList.length + 1) (1 + a.toList.count '\n'))))) ∧
      ∀ e, ofText b = .error e → ofText (a ++ "\n" ++ b) = .error
        (e.respan (Span.shift (a.toList.length + 1) (1 + a.toList.count '\n'))) := by
  have hjoined := ofText_joined h.tokens h.closed b
  rw [script_eq_dropLast h.tokens] at hjoined
  cases hb : ofText b with
  | error e =>
    rw [hb] at hjoined
    simp [hjoined, shifted, Except.map, Except.mapError]
  | ok us =>
    rw [hb] at hjoined
    simp [hjoined, shifted, Except.map, Except.mapError]

/-- Behind a name and a string over two lines, an error of the third line. -/
theorem ofText_line_end_third_line :
    Whole "z \"x\ny\"" [⟨.identifier, "z", ⟨0, 1, 1, 1⟩⟩, ⟨.string, "x\ny", ⟨2, 7, 1, 3⟩⟩,
        ⟨.endOfInput, "", ⟨7, 8, 2, 3⟩⟩] ∧
      ofText "a #" = .error (.of (.unexpectedCharacter '#') ⟨2, 3, 1, 3⟩) ∧
      ofText "z \"x\ny\"\na #" = .error (.of (.unexpectedCharacter '#') ⟨10, 11, 3, 3⟩) := by
  have hwhole : Whole "z \"x\ny\"" [⟨.identifier, "z", ⟨0, 1, 1, 1⟩⟩,
      ⟨.string, "x\ny", ⟨2, 7, 1, 3⟩⟩, ⟨.endOfInput, "", ⟨7, 8, 2, 3⟩⟩] := by
    refine ⟨by cbv, ?_⟩
    rintro t ht ⟨-, hopen⟩
    obtain rfl : (⟨.string, "x\ny", ⟨2, 7, 1, 3⟩⟩ : Token) = t := Option.some.inj ht
    exact absurd hopen (by decide)
  have herror : ofText "a #" = .error (.of (.unexpectedCharacter '#') ⟨2, 3, 1, 3⟩) := by cbv
  exact ⟨hwhole, herror, (ofText_line_end hwhole "a #").2.2 _ herror⟩

end Token

end CatScript
