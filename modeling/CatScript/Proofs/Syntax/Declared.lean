import CatScript.Proofs.Syntax.Alike
import CatScript.Proofs.Syntax.ReadBack
import CatScript.Proofs.Token.Seam

/-!
# Texts as the values of declarations

A text can be put in the place of the value of a variable declaration.  The head of the declaration
ends with a mark, so that the text has the same tokens behind it as by itself, only further down
(`Token.ofText_declaration`).  So it depends on these tokens alone whether the declaration is a
program, and with which value: they have to derive an expression, and nothing may be left over
(`Program.ofText_declaration_iff`).
-/

set_option autoImplicit false

namespace CatScript

open Grammar
open Token (Scans Begins apart_cons scanFrom)

/-- The script that declares a variable, with a text in the place of the value. -/
def declaration (name value : String) : String := "meow " ++ name ++ " = " ++ value

/-- What stands in front of the value of a declaration. -/
def declarationHead (name : String) : List Char :=
  "meow".toList ++ ' ' :: (name.toList ++ [' ', '=', ' '])

/-- A declaration is its head and its value. -/
theorem toList_declaration (name value : String) :
    (declaration name value).toList = declarationHead name ++ value.toList := by
  simp [declaration, declarationHead]

variable {name : String}

/-- The tokens in front of the value of a declaration. -/
structure DeclarationHead (name : String) (meow word equal : Token) : Prop where
  kinds : meow.kind = .meow ∧ word.kind = .identifier ∧ equal.kind = .equal
  names : word.lexeme = name

/-- The head of a declaration is read as the keyword, the name and the equals sign. -/
theorem scans_declarationHead (hname : IsName name) :
    Scans (declarationHead name) (Begins .meow "meow" (Begins .identifier name
      (Begins .equal (String.ofList ['=']) (Begins .endOfInput "" (· = []))))) := by
  have hequal := (Scans.nil.space.mark (c := '=') rfl).space
  have hword := (hequal.name hname (apart_cons (by decide) _)).space
  exact hword.keyword "meow" .meow (by decide) (apart_cons (by decide) _)

/-- Behind the head of a declaration, a text has the tokens that it has further down in a text, or
the error that it has there. -/
theorem Token.ofText_declaration (hname : IsName name) (value : String) :
    ∃ meow word equal, DeclarationHead name meow word equal ∧
      Token.ofText (declaration name value) =
        (scanFrom (Position.start.after (declarationHead name)) value.toList).map
          (meow :: word :: equal :: ·) := by
  obtain ⟨ts, hts, m, _, rfl, hm, -, v, _, rfl, hv, hname, e, _, rfl, he, -, stop, _, rfl, hstop,
    -, rfl⟩ := scans_declarationHead hname .start
  refine ⟨m, v, e, ⟨⟨hm, hv, he⟩, hname⟩, ?_⟩
  have hscript : Token.script [m, v, e, stop] = [m, v, e] := by
    simp [Token.script, hm, hv, he, hstop]
  have hlast {t : Token} (ht : (Token.script [m, v, e, stop]).getLast? = some t) : t = e := by
    rw [hscript] at ht
    exact (Option.some.inj ht).symm
  have hall := @Token.scanFrom_append .start (declarationHead name) [] _ value.toList rfl hts ?_ ?_
  · rw [hscript] at hall
    unfold Token.ofText
    rw [toList_declaration, hall]
    rfl
  · rintro t ht ⟨hstring, -⟩
    rw [hlast ht, he] at hstring
    exact TokenKind.noConfusion hstring
  · intro t ht _
    rw [hlast ht, he]
    exact Token.goesOn_of_ofMark? (c := '=') rfl _

/-- Behind the head of a declaration, tokens make up a program of that shape if they derive an
expression with nothing left over, and only then. -/
theorem Program.ofTokens_declaration_iff {meow word equal : Token}
    (h : DeclarationHead name meow word equal) (ts : List Token) (shape : Expr.Shape) :
    (∃ program, Program.ofTokens (meow :: word :: equal :: ts) = .ok program ∧
      program.shape = [.declare name shape]) ↔
      Derives @Expression.tree shape (fun rest => ahead rest = .endOfInput) ts := by
  constructor
  · rintro ⟨program, hread, hshape⟩
    obtain ⟨script, rfl⟩ := (ofTokens_eq_ok_iff _ _).1 hread
    rw [script.shape_program] at hshape
    obtain ⟨rest, statements, hrest⟩ := script
    change statements.trees = [.declare name shape] at hshape
    cases statements with
    | none => simp [Statements.trees] at hshape
    | more first others =>
      cases others with
      | more => simp [Statements.trees] at hshape
      | none =>
        rw [Statements.trees, Statements.trees, List.cons.injEq] at hshape
        cases first with
        | declare _ _ _ _ value =>
          simp only [Statement.tree, Stmt.Shape.declare.injEq] at hshape
          exact ⟨rest, hrest, value, hshape.1.2⟩
        | _ => simp [Statement.tree] at hshape
  · rintro ⟨rest, hrest, value, rfl⟩
    let statement := Statement.declare meow word equal h.kinds value
    let script : Script _ := ⟨rest, .more statement .none, hrest⟩
    refine ⟨script.program, (ofTokens_eq_ok_iff _ _).2 ⟨script, rfl⟩, ?_⟩
    rw [script.shape_program]
    show [Stmt.Shape.declare word.lexeme value.tree] = _
    rw [h.names]

/-- Whether tokens derive an expression with nothing left over does not depend on where they
stand. -/
theorem Token.derives_alike {ts us : List Token} (h : List.Forall₂ Alike ts us)
    {shape : Expr.Shape}
    (hderives : Derives @Expression.tree shape (fun rest => ahead rest = .endOfInput) ts) :
    Derives @Expression.tree shape (fun rest => ahead rest = .endOfInput) us := by
  -- The reading of tokens is compared for whole programs, so both go behind the same head.
  have hx : IsName "x" := by decide
  obtain ⟨meow, word, equal, hhead, -⟩ := ofText_declaration hx ""
  obtain ⟨program, hread, hshape⟩ := (Program.ofTokens_declaration_iff hhead ts shape).2 hderives
  have hall : List.Forall₂ Alike (meow :: word :: equal :: ts) (meow :: word :: equal :: us) :=
    .cons ⟨rfl, rfl⟩ (.cons ⟨rfl, rfl⟩ (.cons ⟨rfl, rfl⟩ h))
  obtain ⟨q, q', hq, hq', hsame⟩ | ⟨e, e', he, -⟩ := Program.alike_ofTokens hall
  · obtain rfl : q = program := Except.ok.inj (hq.symm.trans hread)
    exact (Program.ofTokens_declaration_iff hhead us shape).1 ⟨q', hq', hsame.symm.trans hshape⟩
  · simp [hread] at he

/-- A declaration is a program whose only statement declares the name with a value of this shape if
the tokens of the text derive such an expression with nothing left over, and only then.  Where the
text stands does not matter. -/
theorem Program.ofText_declaration_iff (hname : IsName name) {value : String} {p : Position}
    {ts : List Token} (hts : scanFrom p value.toList = .ok ts) (shape : Expr.Shape) :
    (∃ program, Program.ofText (declaration name value) = .ok program ∧
      program.shape = [.declare name shape]) ↔
      Derives @Expression.tree shape (fun rest => ahead rest = .endOfInput) ts := by
  obtain ⟨meow, word, equal, hhead, htokens⟩ := Token.ofText_declaration hname value
  obtain ⟨us, hus, halike⟩ :=
    Token.exists_alike_scanFrom hts (Position.start.after (declarationHead name))
  have hread : Program.ofText (declaration name value) =
      Program.ofTokens (meow :: word :: equal :: us) := by
    unfold Program.ofText
    rw [htokens, hus]
    rfl
  rw [hread, ofTokens_declaration_iff hhead us shape]
  have halike' : List.Forall₂ Token.Alike us ts :=
    halike.flip.imp fun _ _ h => ⟨h.kind.symm, h.lexeme.symm⟩
  exact ⟨Token.derives_alike halike', Token.derives_alike halike⟩

end CatScript
