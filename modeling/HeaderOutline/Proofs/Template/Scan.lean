import HeaderOutline.Proofs.Attribute.Scan
import HeaderOutline.Proofs.Revision.Scan
import HeaderOutline.Proofs.Template.Lead

/-! # The tokens of a parameter list

A parameter list in front of a declaration is cut into its lexemes whatever the declaration is,
and the declaration is cut as it is by itself, but for blanks at its start
(`Lexeme.cuts_templated`).  The list is read as one parameter, and the declaration is left
(`Construct.Template.exists_clauses_templated`).
-/
namespace HeaderOutline

open Tokens

/-- A declaration behind a parameter list. -/
def Text.templated (declaration : Text) : Text := "template <typename T> ".toList ++ declaration

namespace Lexeme

/-- The lexemes of the parameter list. -/
def parameterList : List Lexeme :=
  [keyword .templateKw, blanks 1, punct .lt, keyword .typenameKw, blanks 1, sound .ident ['T'],
    punct .gt]

theorem textOf_parameterList : textOf parameterList = "template <typename T>".toList := by
  decide +kernel

theorem faithful_parameterList [Alphabet] {x : Lexeme} {xs : List Lexeme} {w : Text}
    (ht : textOf (x :: xs) = ' ' :: w) (h : Faithful (x :: xs)) :
    Faithful (parameterList ++ x :: xs) := by
  have hgt : Faithful (punct .gt :: x :: xs) := by
    refine h.cons ⟨'>', ' ' :: w, by rw [ht]; rfl, ?_⟩
    rw [ht]
    rfl
  have hword : Text.IsWord ['T'] := .of_letters (by decide) (by decide)
  have hname : Faithful (sound .ident ['T'] :: punct .gt :: x :: xs) := by
    have hspelled := hgt.word hword (.cons rfl)
    rwa [show wordKind ['T'] = .ident by decide +kernel] at hspelled
  have htypename := (hname.blanks 0 (.cons (by decide))).keyword .typenameKw (.cons rfl)
  have hlt : Faithful (punct .lt :: keyword .typenameKw :: blanks 1 :: sound .ident ['T'] ::
      punct .gt :: x :: xs) := htypename.cons ⟨'<', _, rfl, rfl⟩
  exact (hlt.blanks 0 (.cons (by decide))).keyword .templateKw (.cons rfl)

/-- **A parameter list in front of a declaration** is cut off, and the declaration is cut as it
is by itself. -/
theorem cuts_templated [Alphabet] {declaration : Text} {zs : List Lexeme}
    (hz : Cuts declaration zs []) :
    ∃ x ys, x.kind = .whitespace ∧ (zs = ys ∨ ∃ y, y.kind = .whitespace ∧ zs = y :: ys) ∧
      Cuts (Text.templated declaration) (parameterList ++ x :: ys) [] := by
  obtain ⟨x, ys, hblank, hcuts, hys⟩ := exists_cuts_blank hz
  have htext : textOf (x :: ys) = ' ' :: declaration := by simpa using hcuts.append_eq
  have hbehind : Faithful (x :: ys) := by
    unfold Faithful
    rwa [htext]
  have hall := faithful_parameterList htext hbehind
  unfold Faithful at hall
  rw [textOf_append, textOf_parameterList, htext] at hall
  exact ⟨x, ys, hblank, hys, hall⟩

end Lexeme

namespace Construct.Template

theorem skipGap_of_plain {ts : List Token} (h : ∀ t ∈ ts, t.kind.isComment = false) :
    skipGap ts = skipTrivia ts := by
  induction ts with
  | nil => rfl
  | cons t ts ih =>
    have hc := h t List.mem_cons_self
    have hrest := ih fun u hu => h u (List.mem_cons_of_mem t hu)
    unfold skipGap skipTrivia at hrest ⊢
    rw [List.dropWhile_cons, List.dropWhile_cons, hc, Bool.or_false, hrest]

/-- **The parameter list is read** as one list with one parameter. -/
theorem exists_clauses_templated {x : Lexeme} {ys : List Lexeme} (hx : x.kind = .whitespace)
    (hys : ∀ y ∈ ys, y.kind.isComment = false) (p : Position) :
    ∃ first rest q, Token.placed p (Lexeme.parameterList ++ x :: ys) = first :: rest ∧
      first.kind = .keyword .templateKw ∧
      clauses [] [] (first :: rest) = clauses ["template <typename T>".toList]
        ["typename T".toList] (skipTrivia (Token.placed q ys)) := by
  obtain ⟨first, blank, list, hlist, hfirst, hblank, hlt, htext, hangles⟩ :
      ∃ first blank list, Token.placed p Lexeme.parameterList = first :: blank :: list ∧
        first.kind = .keyword .templateKw ∧ blank.kind = .whitespace ∧
        (∀ ts, headKind (list ++ ts) = .punct .lt) ∧
        Token.textOf list = "<typename T>".toList ∧
        ∀ ts, angles? (list ++ ts) = some (list, ts) :=
    ⟨_, _, _, rfl, rfl, rfl, fun _ => rfl, by rw [Token.textOf_placed]; decide +kernel,
      fun _ => rfl⟩
  have hparams : params "<typename T>".toList = ["typename T".toList] := by decide +kernel
  generalize hq : p.advance (Lexeme.textOf Lexeme.parameterList) = q
  refine ⟨first, blank :: (list ++ Token.placed q (x :: ys)), q.advance x.text, ?_, hfirst, ?_⟩
  · rw [Token.placed_append, hlist, hq]
    rfl
  · have hskip : ∀ ts, skipTrivia (list ++ ts) = list ++ ts := by
      intro ts
      have hhead := hlt ts
      generalize list ++ ts = us at hhead ⊢
      cases us with
      | nil => rfl
      | cons u us => exact skipTrivia_of_not (by rw [show u.kind = .punct .lt from hhead]; rfl)
    have hgap : skipGap (Token.placed q (x :: ys))
        = skipTrivia (Token.placed (q.advance x.text) ys) := by
      rw [skipGap_of_plain, Token.placed, skipTrivia_of_whitespace hx]
      intro t ht
      obtain ⟨y, hy, _, rfl⟩ := Token.exists_of_mem_placed ht
      rcases List.mem_cons.mp hy with rfl | hy
      · exact show y.kind.isComment = false by rw [hx]; rfl
      · exact hys y hy
    rw [clauses_cons, if_pos (by simp [hfirst]), skipTrivia_of_whitespace hblank, hskip,
      if_neg (by simp [hlt]), hangles]
    dsimp only
    rw [htext, hparams, hgap]
    rfl

end Construct.Template
end HeaderOutline
