import HeaderOutline.Proofs.Respaced.Scan
import HeaderOutline.Proofs.Returns.Doc

/-! # Tokens with carriage returns

In front of a line end a carriage return is white space of its own, or the end of the white
space or of the comment that stands there (`Tokens.Returned`).  That is a change of gaps and of
comments (`Respacing.returning`), so that only directives and comments have to be compared by
themselves.
-/
namespace HeaderOutline

/-- A token that is no trivia, and the one that takes its place. -/
structure Token.Returned (t u : Token) : Prop where
  kind : u.kind = t.kind
  not_trivia : t.kind.isTrivia = false
  plain : '\r' ∉ t.text
  text : t.kind.isComment = false → u.text = t.text
  comment : t.kind.isComment = true → Text.Commented t.text u.text
  name : t.kind.isComment = true → t.kind ≠ .docComment →
    Construct.Comment.name u.text = Construct.Comment.name t.text

theorem Token.Returned.returned {t u : Token} (h : t.Returned u) : Text.Returned t.text u.text := by
  cases hc : t.kind.isComment with
  | true => exact (h.comment hc).returned
  | false => exact h.text hc ▸ .refl _

namespace Tokens

/-- The tokens of a text and of the one with carriage returns in front of line feeds. -/
inductive Returned : List Token → List Token → Prop
  | nil : Returned [] []
  | token {t u : Token} {ts us : List Token} (fits : (Token.textOf (u :: us)).EndsLines)
    (h : t.Returned u) (more : Returned ts us) : Returned (t :: ts) (u :: us)
  | space {t u : Token} {ts us : List Token} (ht : t.kind = .whitespace) (hu : u.kind = .whitespace)
    (hs : Text.Returned t.text u.text) (more : Returned ts us) : Returned (t :: ts) (u :: us)
  | line {t u : Token} {ts us : List Token} (ht : t.kind = .newline) (hu : u.kind = .newline)
    (hs : u.text = t.text) (more : Returned ts us) : Returned (t :: ts) (u :: us)
  /-- A carriage return that is white space of its own. -/
  | carriage {t r u : Token} {ts us : List Token} (ht : t.kind = .newline)
    (hr : r.kind = .whitespace) (hrs : r.text = ['\r']) (hu : u.kind = .newline)
    (hs : u.text = t.text) (more : Returned ts us) : Returned (t :: ts) (r :: u :: us)

end Tokens

/-- Texts count as the same if only carriage returns are put into them. -/
def Respacing.returning : Respacing :=
  { keeping with
    token := Token.Returned
    blanks := fun gap gap' => ∀ ts us, Tokens.Returned ts us →
      Tokens.Returned (gap ++ ts) (gap' ++ us)
    same := Text.Returned
    name := Text.Returned
    doc := fun c c' =>
      Text.Returned c.raw c'.raw ∧ c' = { c with raw := c'.raw, span := c'.span }
    fits := fun us => (Token.textOf us).EndsLines
    kind_of_token := fun h => h.kind
    text_of_token := fun h hc => h.text hc
    not_trivia := fun h => h.not_trivia
    same_of_loose := fun h => h.elim
    not_loose_of_comment := fun _ _ _ _ => id
    same_of_token := fun h => h.returned
    same_refl := .refl
    same_append := fun h h' => h.append h'
    same_trim := fun h => h.trim
    same_trimEnd := fun h => h.trimEnd
    same_of_doc := fun h => h.1
    name_refl := .refl
    name_append := fun h h' => h.append h'
    params_of_list := fun {t u ts us rest} _ _ hs hf => by
      refine hs.params_eq (hf.part (List.IsPrefix.isInfix ⟨Token.textOf rest, ?_⟩))
      simp }

namespace Respacing

theorem isStrict_returning : IsStrict .returning := fun _ _ => id

end Respacing

namespace Tokens

variable {b : Trail} {ts us gap gap' : List Token} {t u : Token}

/-! ## Gaps -/

theorem Respaced.returned (h : Respaced .returning b ts us) : Returned ts us := by
  induction h with
  | nil => exact .nil
  | token fits h _ ih => exact .token fits h ih
  | gap h _ ih => exact h.blanks _ _ ih

theorem gap_returning {k : Kind} (hg : Respacing.blanks .returning gap gap')
    (hne : gap ≠ []) (hne' : gap' ≠ []) (ht : ∀ t ∈ gap, t.kind.isTrivia = true)
    (hu : ∀ u ∈ gap', u.kind.isTrivia = true) (hlines : lineEnds gap' = lineEnds gap)
    (hs : Text.Returned (Token.textOf gap) (Token.textOf gap')) :
    Respacing.Gap .returning b k gap gap' :=
  ⟨hne, hne', ht, fun u hu' => .inl (hu u hu'), fun _ => hu, fun _ => hlines, hs, hg⟩

theorem Returned.respaced (h : Returned ts us) (b : Trail) : Respaced .returning b ts us := by
  induction h generalizing b with
  | nil => exact .nil
  | token fits h _ ih => exact .token fits h (ih _)
  | @space t u ts us ht hu hs _ ih =>
    have hgap : Respacing.Gap .returning b (nextKind ts) [t] [u] :=
      gap_returning (fun _ _ h => .space ht hu hs h) (List.cons_ne_nil _ _) (List.cons_ne_nil _ _)
        (by simp [ht, Kind.isTrivia]) (by simp [hu, Kind.isTrivia]) (by simp [lineEnds, ht, hu])
        (by simpa using hs)
    have hmore := Respaced.gap hgap (ih b)
    exact hmore
  | @line t u ts us ht hu hs _ ih =>
    have hgap : Respacing.Gap .returning b (nextKind ts) [t] [u] :=
      gap_returning (fun _ _ h => .line ht hu hs h) (List.cons_ne_nil _ _) (List.cons_ne_nil _ _)
        (by simp [ht, Kind.isTrivia]) (by simp [hu, Kind.isTrivia]) (by simp [lineEnds, ht, hu])
        (by simpa [hs] using Text.Returned.refl _)
    have hmore := Respaced.gap hgap (ih b)
    exact hmore
  | @carriage t r u ts us ht hr hrs hu hs _ ih =>
    have hgap : Respacing.Gap .returning b (nextKind ts) [t] [r, u] :=
      gap_returning (fun _ _ h => .carriage ht hr hrs hu hs h) (List.cons_ne_nil _ _)
        (List.cons_ne_nil _ _) (by simp [ht, Kind.isTrivia]) (by simp [hr, hu, Kind.isTrivia])
        (by simp [lineEnds, ht, hr, hu])
        (by simpa [hs, hrs] using Text.Returned.insert (Text.Returned.refl _))
    have hmore := Respaced.gap hgap (ih b)
    exact hmore

theorem Returned.on (h : Returned ts us) : RespacedOn .returning ts us :=
  (h.respaced []).on (.inl rfl)

theorem Returned.exists_cons (h : Returned (t :: ts) us) : ∃ u vs, us = u :: vs := by
  cases h <;> exact ⟨_, _, rfl⟩

/-- In front there is the same token in both lists, or trivia. -/
theorem Returned.head_cases (h : Returned (t :: ts) (u :: us)) :
    t.Returned u ∧ Returned ts us ∨ t.kind.isTrivia = true ∧ u.kind.isTrivia = true := by
  cases h with
  | token _ ht more => exact .inl ⟨ht, more⟩
  | space ht hu => exact .inr ⟨by rw [ht]; rfl, by rw [hu]; rfl⟩
  | line ht hu => exact .inr ⟨by rw [ht]; rfl, by rw [hu]; rfl⟩
  | carriage ht hr => exact .inr ⟨by rw [ht]; rfl, by rw [hr]; rfl⟩

/-! ## Line ends -/

theorem skipSpace_cons_of_ne (h : t.kind ≠ .whitespace) (ts : List Token) :
    skipSpace (t :: ts) = t :: ts :=
  List.dropWhile_cons_of_neg (by simpa using h)

theorem skipSpace_cons_of_space (h : t.kind = .whitespace) (ts : List Token) :
    skipSpace (t :: ts) = skipSpace ts :=
  List.dropWhile_cons_of_pos (by simpa using h)

theorem ne_whitespace_of_not_trivia (h : t.kind.isTrivia = false) : t.kind ≠ .whitespace := by
  rintro hk
  rw [hk] at h
  cases h

/-- White space is passed over in both lists. -/
theorem Returned.skipSpace (h : Returned ts us) :
    Returned (Tokens.skipSpace ts) (Tokens.skipSpace us) := by
  induction h with
  | nil => exact .nil
  | @token t u ts us fits h more _ =>
    have ht := ne_whitespace_of_not_trivia h.not_trivia
    rw [skipSpace_cons_of_ne ht, skipSpace_cons_of_ne (h.kind ▸ ht)]
    exact .token fits h more
  | space ht hu _ _ ih => rwa [skipSpace_cons_of_space ht, skipSpace_cons_of_space hu]
  | line ht hu hs more _ =>
    rw [skipSpace_cons_of_ne (by simp [ht]), skipSpace_cons_of_ne (by simp [hu])]
    exact .line ht hu hs more
  | carriage ht hr _ hu hs more _ =>
    rw [skipSpace_cons_of_ne (by simp [ht]), skipSpace_cons_of_space hr,
      skipSpace_cons_of_ne (by simp [hu])]
    exact .line ht hu hs more

/-- What is passed over is the same text. -/
theorem Returned.takeSpace (h : Returned ts us) :
    Text.Returned (Token.textOf (ts.takeWhile (·.kind == .whitespace)))
      (Token.textOf (us.takeWhile (·.kind == .whitespace))) := by
  induction h with
  | nil => exact .nil
  | @token t u ts us _ h _ _ =>
    have ht := ne_whitespace_of_not_trivia h.not_trivia
    rw [List.takeWhile_cons_of_neg (by simpa using ht),
      List.takeWhile_cons_of_neg (by simpa using h.kind ▸ ht)]
    exact .nil
  | space ht hu hs _ ih =>
    rw [List.takeWhile_cons_of_pos (by simp [ht]), List.takeWhile_cons_of_pos (by simp [hu]),
      Token.textOf_cons, Token.textOf_cons]
    exact hs.append ih
  | line ht hu _ _ _ =>
    rw [List.takeWhile_cons_of_neg (by simp [ht]), List.takeWhile_cons_of_neg (by simp [hu])]
    exact .nil
  | carriage ht hr hrs hu _ _ _ =>
    rw [List.takeWhile_cons_of_neg (by simp [ht]), List.takeWhile_cons_of_pos (by simp [hr]),
      List.takeWhile_cons_of_neg (by simp [hu]), Token.textOf_cons, hrs]
    exact .insert .nil

/-- Behind white space both lists have a line end, or none of them has. -/
theorem Returned.line_cases (h : Returned ts us) :
    (eat? .newline (Tokens.skipSpace ts) = none ∧ eat? .newline (Tokens.skipSpace us) = none) ∨
      ∃ t u vs ws, Tokens.skipSpace ts = t :: vs ∧ Tokens.skipSpace us = u :: ws ∧
        t.kind = .newline ∧ u.kind = .newline ∧ u.text = t.text ∧ Returned vs ws := by
  induction h with
  | nil => exact .inl ⟨rfl, rfl⟩
  | @token t u ts us _ h _ _ =>
    have ht := ne_whitespace_of_not_trivia h.not_trivia
    have hn : t.kind ≠ .newline := by
      rintro hk
      have hnot := h.not_trivia
      rw [hk] at hnot
      cases hnot
    rw [skipSpace_cons_of_ne ht, skipSpace_cons_of_ne (h.kind ▸ ht)]
    exact .inl ⟨eat?_of_ne hn, eat?_of_ne (h.kind ▸ hn)⟩
  | space ht hu _ _ ih => rwa [skipSpace_cons_of_space ht, skipSpace_cons_of_space hu]
  | line ht hu hs more _ =>
    rw [skipSpace_cons_of_ne (by simp [ht]), skipSpace_cons_of_ne (by simp [hu])]
    exact .inr ⟨_, _, _, _, rfl, rfl, ht, hu, hs, more⟩
  | carriage ht hr _ hu hs more _ =>
    rw [skipSpace_cons_of_ne (by simp [ht]), skipSpace_cons_of_space hr,
      skipSpace_cons_of_ne (by simp [hu])]
    exact .inr ⟨_, _, _, _, rfl, rfl, ht, hu, hs, more⟩

end Tokens
end HeaderOutline
