import CatScript.Proofs.Token.Seam

/-!
# Excerpts of a text

What stands under a span is an excerpt of the text.  Under a span that begins where a token does and
ends where a token does, the lexer finds the tokens in between once more, and nothing else.  For
what stands in front of a token can be left out (`Token.scanFrom_drop`), and so can what stands
behind one (`Token.scanFrom_cut`), since a token that does not go on with the text as it stands does
not do so where the text is cut off.
-/

set_option autoImplicit false

namespace CatScript

/-- The piece of a text under a span. -/
def Span.excerpt (text : List Char) (span : Span) : List Char :=
  (text.take span.stop).drop span.start

/-- The text under a span. -/
def Span.textIn (span : Span) (source : String) : String :=
  String.ofList (span.excerpt source.toList)

/-- The excerpt of a span that covers a piece of a text is the piece. -/
theorem Span.excerpt_append {front piece back : List Char} {span : Span}
    (hstart : span.start = front.length) (hstop : span.stop = front.length + piece.length) :
    span.excerpt (front ++ (piece ++ back)) = piece := by
  unfold excerpt
  rw [hstart, hstop, ← List.append_assoc, ← List.length_append, List.take_left, List.drop_left]

namespace Token

/-- A token stays the same if some of what follows it is cut off, or nothing is. -/
theorem scan_front {first : Char} {tail front behind : List Char} {s : Scanned}
    (h : scan first tail = some s) (hrest : s.rest = front ++ behind) :
    ∃ mid, s.slice = first :: mid ∧ scan first (mid ++ front) = some { s with rest := front } := by
  cases behind with
  | cons c behind => exact scan_cut h hrest (List.cons_ne_nil c behind)
  | nil =>
    rw [List.append_nil] at hrest
    obtain ⟨first', mid, hslice⟩ := List.exists_cons_of_ne_nil (scan_slice_ne_nil h)
    have htext := scan_slice h
    rw [hslice, List.cons_append, hrest] at htext
    obtain ⟨rfl, rfl⟩ := List.cons.inj htext
    exact ⟨mid, hslice, by rw [h, ← hrest]⟩

/-- The only token of nothing is the end of the input. -/
theorem kind_of_scanFrom_nil {p : Position} {before after : List Token} {t : Token}
    (h : scanFrom p [] = .ok (before ++ t :: after)) : t.kind = .endOfInput := by
  rw [scanFrom_nil] at h
  have ht : t ∈ [(⟨.endOfInput, "", Span.point p⟩ : Token)] := by
    rw [Except.ok.inj h]
    simp
  rw [List.mem_singleton.1 ht]

/-- The text from a token on has the tokens from that one on. -/
theorem scanFrom_drop (p : Position) (text : List Char) :
    ∀ {before after : List Token} {t : Token}, scanFrom p text = .ok (before ++ t :: after) →
      t.kind ≠ .endOfInput →
      ∃ front back, text = front ++ back ∧ t.span.start = p.offset + front.length ∧
        scanFrom (p.after front) back = .ok (t :: after) := by
  induction p, text using scanFrom.induct with
  | case1 p =>
    intro before after t h ht
    exact absurd (kind_of_scanFrom_nil h) ht
  | case2 p first rest hblank ih =>
    intro before after t h ht
    rw [scanFrom_blank hblank] at h
    obtain ⟨front, back, rfl, hstart, hback⟩ := ih h ht
    refine ⟨first :: front, back, rfl, ?_, hback⟩
    rw [hstart, Position.next_offset, List.length_cons]
    omega
  | case3 p first rest hblank hnone =>
    intro before after t h
    rw [scanFrom_none (Bool.eq_false_iff.2 hblank) hnone] at h
    simp at h
  | case4 p first rest hblank s hscan stop =>
    rename_i ih
    intro before after t h ht
    obtain ⟨others, hothers, hcons⟩ := scanFrom_token_ok hscan h
    cases before with
    | nil =>
      obtain ⟨rfl, rfl⟩ := List.cons.inj hcons
      exact ⟨[], first :: rest, rfl, rfl, h⟩
    | cons t' before =>
      obtain ⟨rfl, rfl⟩ := List.cons.inj hcons
      obtain ⟨front, back, hrest, hstart, hback⟩ := ih hothers ht
      refine ⟨s.slice ++ front, back, ?_, ?_, ?_⟩
      · rw [List.append_assoc, ← hrest, scan_slice hscan]
      · rw [hstart, show stop.offset = _ from Position.after_offset p s.slice, List.length_append]
        omega
      · rw [Position.after_append]
        exact hback

/-- The text up to the end of a token has the tokens up to that one, and then it is at its end. -/
theorem scanFrom_cut (p : Position) (text : List Char) :
    ∀ {before after : List Token} {t : Token}, scanFrom p text = .ok (before ++ t :: after) →
      t.kind ≠ .endOfInput →
      ∃ front back, text = front ++ back ∧ t.span.stop = p.offset + front.length ∧
        scanFrom p front =
          .ok (before ++ [t, ⟨.endOfInput, "", Span.point (p.after front)⟩]) := by
  induction p, text using scanFrom.induct with
  | case1 p =>
    intro before after t h ht
    exact absurd (kind_of_scanFrom_nil h) ht
  | case2 p first rest hblank ih =>
    intro before after t h ht
    rw [scanFrom_blank hblank] at h
    obtain ⟨front, back, rfl, hstop, hfront⟩ := ih h ht
    refine ⟨first :: front, back, rfl, ?_, ?_⟩
    · rw [hstop, Position.next_offset, List.length_cons]
      omega
    · rw [scanFrom_blank hblank, hfront, Position.after_cons]
  | case3 p first rest hblank hnone =>
    intro before after t h
    rw [scanFrom_none (Bool.eq_false_iff.2 hblank) hnone] at h
    simp at h
  | case4 p first rest hblank s hscan stop =>
    rename_i ih
    intro before after t h ht
    obtain ⟨others, hothers, hcons⟩ := scanFrom_token_ok hscan h
    have hoffset : stop.offset = p.offset + s.slice.length := Position.after_offset p s.slice
    cases before with
    | nil =>
      obtain ⟨rfl, rfl⟩ := List.cons.inj hcons
      obtain ⟨mid, hslice, hscan'⟩ := scan_front hscan (List.nil_append s.rest).symm
      rw [List.append_nil] at hscan'
      refine ⟨s.slice, s.rest, (scan_slice hscan).symm, hoffset, ?_⟩
      rw [hslice, scanFrom_token hscan', hslice, scanFrom_nil]
      rfl
    | cons t' before =>
      obtain ⟨rfl, rfl⟩ := List.cons.inj hcons
      obtain ⟨front, back, hrest, hstop, hfront⟩ := ih hothers ht
      -- The first token is found in front of the shorter rest as well.
      obtain ⟨mid, hslice, hscan'⟩ := scan_front hscan hrest
      refine ⟨s.slice ++ front, back, ?_, ?_, ?_⟩
      · rw [List.append_assoc, ← hrest, scan_slice hscan]
      · rw [hstop, hoffset, List.length_append]
        omega
      · rw [hslice, List.cons_append, scanFrom_token hscan', ← List.cons_append, ← hslice,
          Position.after_append]
        show (scanFrom stop front).map _ = _
        rw [hfront]
        rfl

/-- Under the span from one token through another, a text has the tokens from the one through the
other, and then it is at its end. -/
theorem scanFrom_excerpt {source : String} {before covered after : List Token} {first last : Token}
    (h : ofText source = .ok (before ++ (covered ++ after))) (hfirst : covered.head? = some first)
    (hlast : covered.getLast? = some last) (hkinds : ∀ t ∈ covered, t.kind ≠ .endOfInput)
    {span : Span} (hstart : span.start = first.span.start) (hstop : span.stop = last.span.stop) :
    ∃ p stop, scanFrom p (span.excerpt source.toList) = .ok (covered ++ [stop]) ∧
      stop.kind = .endOfInput := by
  obtain ⟨tail, rfl⟩ := List.head?_eq_some_iff.1 hfirst
  rw [List.cons_append] at h
  obtain ⟨front, back, htext, hfront, hback⟩ :=
    scanFrom_drop .start source.toList h (hkinds first (List.mem_cons_self ..))
  obtain ⟨init, hinit⟩ := List.getLast?_eq_some_iff.1 hlast
  rw [← List.cons_append, hinit, List.append_assoc] at hback
  obtain ⟨piece, behind, rfl, hpiece, hscan⟩ :=
    scanFrom_cut _ back hback (hkinds last (List.mem_of_getLast? hlast))
  have hexcerpt : span.excerpt source.toList = piece := by
    rw [Position.after_offset] at hpiece
    have hzero : Position.start.offset = 0 := rfl
    rw [htext]
    apply Span.excerpt_append <;> omega
  rw [hexcerpt, hinit]
  simp only [List.append_assoc, List.singleton_append]
  exact ⟨_, _, hscan, rfl⟩

end Token

end CatScript
