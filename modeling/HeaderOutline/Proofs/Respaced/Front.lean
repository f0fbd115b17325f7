import HeaderOutline.Proofs.Respaced.Basic

/-! # Respaced tokens at the front

What is looked at or taken at the front of respaced tokens is the same up to gaps.  Pieces of
them (`Tokens.RespacedPiece`) have texts that count as the same.
-/
namespace HeaderOutline

/-- Whether a kind is one of those that gaps hold. -/
def Kind.IsPassed (k : Kind) : Prop := k.isTrivia = true ∨ k = .blockComment

theorem Kind.IsPassed.cases {k : Kind} (h : k.IsPassed) :
    k = .whitespace ∨ k = .newline ∨ k = .blockComment := by
  rcases h with h | h
  · revert h
    cases k <;> simp [Kind.isTrivia]
  · exact .inr (.inr h)

theorem Kind.IsPassed.of_trivia {k : Kind} (h : k.isTrivia = true) : k.IsPassed := .inl h

namespace Tokens

variable {S : Respacing} {b : Trail} {k : Kind} {t u : Token} {ts us vs ws : List Token}

/-! ## Reading over gaps -/

section

variable {α β : Type} {gap : List Token}

/-- What reads tokens one by one takes a whole gap, and puts it in front of `done` in reverse, if
that is all that it does with every token that gaps hold. -/
theorem read_gap_onto {f : List Token → α → List Token → β}
    (hf : ∀ done p t ts, t.kind.IsPassed → f done p (t :: ts) = f (t :: done) p ts)
    (h : ∀ t ∈ gap, t.kind.IsPassed) (done : List Token) (p : α) (ts : List Token) :
    f done p (gap ++ ts) = f (gap.reverse ++ done) p ts := by
  induction gap generalizing done with
  | nil => rfl
  | cons t gap ih =>
    rw [List.cons_append, hf done p t _ (h t List.mem_cons_self),
      ih fun u hu => h u (List.mem_cons_of_mem t hu), List.reverse_cons, List.append_assoc,
      List.singleton_append]

/-- What reads tokens one by one passes over a whole gap if it passes over every token that gaps
hold. -/
theorem read_gap {f : α → List Token → β}
    (hf : ∀ p t ts, t.kind.IsPassed → f p (t :: ts) = f p ts)
    (h : ∀ t ∈ gap, t.kind.IsPassed) (p : α) (ts : List Token) : f p (gap ++ ts) = f p ts :=
  read_gap_onto (f := fun _ => f) (fun _ => hf) h [] p ts

end

/-! ## Pieces -/

/-- Pieces of respaced tokens. -/
inductive RespacedPiece (S : Respacing) : List Token → List Token → Prop
  | nil : RespacedPiece S [] []
  | token {t u : Token} {ts us : List Token} (h : S.token t u) (more : RespacedPiece S ts us) :
    RespacedPiece S (t :: ts) (u :: us)
  | gap {gap gap' ts us : List Token} (trivia : ∀ t ∈ gap, t.kind.isTrivia = true)
    (passed : ∀ t ∈ gap', t.kind.IsPassed)
    (tight : S.IsStrict → ∀ t ∈ gap', t.kind.isTrivia = true)
    (same : S.same (Token.textOf gap) (Token.textOf gap')) (more : RespacedPiece S ts us) :
    RespacedPiece S (gap ++ ts) (gap' ++ us)

namespace RespacedPiece

theorem append (h : RespacedPiece S ts us) (h' : RespacedPiece S vs ws) :
    RespacedPiece S (ts ++ vs) (us ++ ws) := by
  induction h with
  | nil => exact h'
  | token h _ ih => exact .token h ih
  | gap trivia passed tight same _ ih =>
    rw [List.append_assoc, List.append_assoc]
    exact .gap trivia passed tight same ih

theorem single (h : S.token t u) : RespacedPiece S [t] [u] := .token h .nil

theorem concat (h : RespacedPiece S ts us) (ht : S.token t u) :
    RespacedPiece S (ts ++ [t]) (us ++ [u]) := h.append (single ht)

theorem concat_gap {gap gap' : List Token} (h : RespacedPiece S ts us)
    (hg : S.Gap b k gap gap') : RespacedPiece S (ts ++ gap) (us ++ gap') := by
  have hgap := RespacedPiece.gap hg.trivia hg.passed (fun hs => hg.tight (hs _ _)) hg.same .nil
  rw [List.append_nil, List.append_nil] at hgap
  exact h.append hgap

theorem same_textOf (h : RespacedPiece S ts us) :
    S.same (Token.textOf ts) (Token.textOf us) := by
  induction h with
  | nil => exact S.same_refl []
  | token h _ ih =>
    rw [Token.textOf_cons, Token.textOf_cons]
    exact S.same_append (S.same_of_token h) ih
  | gap _ _ _ same _ ih =>
    rw [Token.textOf_append, Token.textOf_append]
    exact S.same_append same ih

/-- No macro is named by trivia. -/
theorem substituted_of_passed {ds : Definitions} {gap : List Token}
    (h : ∀ t ∈ gap, t.kind.IsPassed) : substituted ds gap = Token.textOf gap := by
  induction gap with
  | nil => rfl
  | cons t gap ih =>
    have ht : (if t.kind == .ident then ds.resolve t.text else t.text) = t.text := by
      rcases (h t List.mem_cons_self).cases with hk | hk | hk <;> simp [hk]
    have hgap := ih fun u hu => h u (List.mem_cons_of_mem t hu)
    rw [Token.textOf_cons, ← hgap, substituted, List.flatMap_cons, ht]
    rfl

theorem substituted_append (ds : Definitions) (ts us : List Token) :
    substituted ds (ts ++ us) = substituted ds ts ++ substituted ds us := List.flatMap_append

theorem same_substituted (ds : Definitions) (h : RespacedPiece S ts us) :
    S.same (substituted ds ts) (substituted ds us) := by
  induction h with
  | nil => exact S.same_refl []
  | @token t u ts us h _ ih =>
    rw [substituted, substituted, List.flatMap_cons, List.flatMap_cons]
    refine S.same_append ?_ ih
    rw [S.kind_of_token h]
    split
    · next hk =>
      rw [S.text_of_token h (by rw [eq_of_beq hk]; rfl)]
      exact S.same_refl _
    · exact S.same_of_token h
  | gap trivia passed _ same _ ih =>
    rw [substituted_append, substituted_append,
      substituted_of_passed fun t ht => .of_trivia (trivia t ht), substituted_of_passed passed]
    exact S.same_append same ih

/-- Gaps do not count where texts are joined. -/
theorem joinFrom_append_passed {gap : List Token} (h : ∀ t ∈ gap, t.kind.IsPassed)
    (afterWord : Bool) (ts : List Token) :
    joinFrom afterWord (gap ++ ts) = joinFrom afterWord ts := by
  induction gap with
  | nil => rfl
  | cons t gap ih =>
    rw [List.cons_append, joinFrom, if_pos]
    · exact ih fun u hu => h u (List.mem_cons_of_mem t hu)
    · rcases (h t List.mem_cons_self).cases with hk | hk | hk <;>
        simp [hk, Kind.isTrivia, Kind.isComment]

theorem joinFrom_eq (h : RespacedPiece S ts us) (afterWord : Bool) :
    joinFrom afterWord us = joinFrom afterWord ts := by
  induction h generalizing afterWord with
  | nil => rfl
  | @token t u ts us h _ ih =>
    rw [joinFrom, joinFrom, S.kind_of_token h]
    simp only [ih]
    split
    · rfl
    · next hc =>
      rw [S.text_of_token h (by
        cases hk : t.kind.isComment
        · rfl
        · simp [hk] at hc)]
  | gap trivia passed _ _ _ ih =>
    rw [joinFrom_append_passed passed,
      joinFrom_append_passed fun t ht => .of_trivia (trivia t ht), ih]

theorem join_eq (h : RespacedPiece S ts us) : join us = join ts := h.joinFrom_eq false

end RespacedPiece

/-! ## The front -/

namespace Respaced

/-- What stands directly in front is the same, unless it belongs to a gap. -/
theorem headKind_beq (h : Respaced S b ts us) (hk : ¬k.IsPassed) :
    (headKind us == k) = (headKind ts == k) := by
  cases h with
  | nil => rfl
  | token _ h =>
    rw [headKind, headKind, List.head?_cons, List.head?_cons, Option.map_some, Option.map_some,
      Option.getD_some, Option.getD_some, S.kind_of_token h]
  | @gap _ gap gap' ts us h =>
    obtain ⟨t, gap, rfl⟩ := List.exists_cons_of_ne_nil h.ne_nil
    obtain ⟨u, gap', rfl⟩ := List.exists_cons_of_ne_nil h.ne_nil'
    have ht : t.kind ≠ k := by
      rintro rfl
      exact hk (.of_trivia (h.trivia t List.mem_cons_self))
    have hu : u.kind ≠ k := by
      rintro rfl
      exact hk (h.passed u List.mem_cons_self)
    exact (beq_false_of_ne hu).trans (beq_false_of_ne ht).symm

/-- Two tokens directly behind each other are so in both lists. -/
theorem headKinds_beq {k' : Kind} (h : Respaced S b ts us) (hk : ¬k.IsPassed)
    (hk' : ¬k'.IsPassed) :
    (headKind us == k && headKind us.tail == k')
      = (headKind ts == k && headKind ts.tail == k') := by
  rw [h.headKind_beq hk]
  cases hb : headKind ts == k with
  | false => rfl
  | true =>
    rw [Bool.true_and, Bool.true_and]
    cases h with
    | nil => rfl
    | token _ _ more => exact more.headKind_beq hk'
    | @gap _ gap gap' ts us h =>
      obtain ⟨t, gap, rfl⟩ := List.exists_cons_of_ne_nil h.ne_nil
      obtain rfl : t.kind = k := eq_of_beq hb
      exact absurd (.of_trivia (h.trivia t List.mem_cons_self)) hk

theorem eat? (h : Respaced S b ts us) (hk : ¬k.IsPassed) :
    Option.Rel (Respaced S (k :: b)) (eat? k ts) (eat? k us) := by
  cases h with
  | nil => exact .none
  | @token _ t u ts us _ h more =>
    by_cases ht : t.kind = k
    · rw [eat?_of_kind ht, eat?_of_kind ((S.kind_of_token h).trans ht)]
      exact .some (ht ▸ more)
    · rw [eat?_of_ne ht, eat?_of_ne (by rwa [S.kind_of_token h])]
      exact .none
  | @gap _ gap gap' ts us h =>
    obtain ⟨t, gap, rfl⟩ := List.exists_cons_of_ne_nil h.ne_nil
    obtain ⟨u, gap', rfl⟩ := List.exists_cons_of_ne_nil h.ne_nil'
    have ht : t.kind ≠ k := by
      rintro rfl
      exact hk (.of_trivia (h.trivia t List.mem_cons_self))
    have hu : u.kind ≠ k := by
      rintro rfl
      exact hk (h.passed u List.mem_cons_self)
    rw [List.cons_append, List.cons_append, eat?_of_ne ht, eat?_of_ne hu]
    exact .none

/-! ## White space -/

theorem lineEnds_cons (t : Token) (ts : List Token) :
    lineEnds (t :: ts) = lineEnds ts + if t.kind == .newline then 1 else 0 := List.countP_cons

theorem lineEnds_eq_zero_of_space {gap : List Token} (h : ∀ t ∈ gap, t.kind.isTrivia = true)
    (hn : lineEnds gap = 0) : ∀ t ∈ gap, t.kind = .whitespace := by
  intro t ht
  rcases (Kind.IsPassed.of_trivia (h t ht)).cases with hk | hk | hk
  · exact hk
  · exact absurd (beq_iff_eq.mpr hk) (List.countP_eq_zero.mp hn t ht)
  · have htrivia := h t ht
    rw [hk] at htrivia
    cases htrivia

theorem skipSpace_append {gap : List Token} (h : ∀ t ∈ gap, t.kind = .whitespace)
    (ts : List Token) : skipSpace (gap ++ ts) = skipSpace ts :=
  List.dropWhile_append_of_pos fun t ht => beq_iff_eq.mpr (h t ht)

theorem skipSpace_of_ne (h : t.kind ≠ .whitespace) : skipSpace (t :: ts) = t :: ts :=
  List.dropWhile_cons_of_neg (by simpa using h)

/-- A gap with line ends shows one behind its white space. -/
theorem headKind_skipSpace {gap : List Token} (h : ∀ t ∈ gap, t.kind.isTrivia = true)
    (hn : lineEnds gap ≠ 0) (ts : List Token) : headKind (skipSpace (gap ++ ts)) = .newline := by
  induction gap with
  | nil => exact absurd rfl hn
  | cons t gap ih =>
    have hgap : ∀ u ∈ gap, u.kind.isTrivia = true := fun u hu => h u (List.mem_cons_of_mem t hu)
    rcases (Kind.IsPassed.of_trivia (h t List.mem_cons_self)).cases with hk | hk | hk
    · have hrest : lineEnds gap ≠ 0 := by
        rw [lineEnds_cons, hk] at hn
        exact hn
      rw [List.cons_append, skipSpace, List.dropWhile_cons_of_pos (by simp [hk])]
      exact ih hgap hrest
    · rw [List.cons_append, skipSpace_of_ne (by simp [hk])]
      exact hk
    · have htrivia := h t List.mem_cons_self
      rw [hk] at htrivia
      cases htrivia

/-- Behind white space stand line ends in both lists, or tokens that are the same. -/
theorem skipSpace_cases (h : Respaced S b ts us) (ht : ¬S.loose b (Tokens.nextKind ts))
    (hf : S.firm b (Tokens.nextKind ts)) :
    (Tokens.headKind (skipSpace ts) = .newline ∧ Tokens.headKind (skipSpace us) = .newline) ∨
    (skipSpace ts = Tokens.skipTrivia ts ∧ skipSpace us = Tokens.skipTrivia us) := by
  induction h with
  | nil => exact .inr ⟨rfl, rfl⟩
  | @token b t u ts us _ h =>
    have hnot : ∀ {v : Token} {vs : List Token}, v.kind.isTrivia = false →
        skipSpace (v :: vs) = Tokens.skipTrivia (v :: vs) := by
      intro v vs hv
      rw [skipTrivia_of_not hv, skipSpace_of_ne (by rintro hk; rw [hk] at hv; cases hv)]
    have hu : u.kind.isTrivia = false := (congrArg _ (S.kind_of_token h)).trans (S.not_trivia h)
    exact .inr ⟨hnot (S.not_trivia h), hnot hu⟩
  | @gap b gap gap' ts us h _ ih =>
    rw [nextKind_append h.trivia] at ht hf
    have htight := h.tight ht
    rw [skipTrivia_append h.trivia, skipTrivia_append htight]
    by_cases hn : lineEnds gap = 0
    · rw [skipSpace_append (lineEnds_eq_zero_of_space h.trivia hn),
        skipSpace_append (lineEnds_eq_zero_of_space htight ((h.firm hf).trans hn))]
      exact ih ht hf
    · exact .inl ⟨headKind_skipSpace h.trivia hn _,
        headKind_skipSpace htight (by rwa [h.firm hf]) _⟩

/-! ## Pieces at the front -/

/-- Trivia in front are a piece. -/
theorem leading (h : Respaced S b ts us) (ht : ¬S.loose b (Tokens.nextKind ts)) :
    RespacedPiece S (ts.takeWhile (·.kind.isTrivia)) (us.takeWhile (·.kind.isTrivia)) := by
  induction h with
  | nil => exact .nil
  | token _ h =>
    rw [List.takeWhile_cons_of_neg (by simp [S.not_trivia h]),
      List.takeWhile_cons_of_neg (by simp [S.kind_of_token h, S.not_trivia h])]
    exact .nil
  | gap h _ ih =>
    rw [nextKind_append h.trivia] at ht
    rw [List.takeWhile_append_of_pos h.trivia, List.takeWhile_append_of_pos (h.tight ht)]
    exact .gap h.trivia (fun t ht => .of_trivia (h.tight ‹_› t ht)) (fun _ => h.tight ht) h.same
      (ih ht)

theorem upTo_append_passed {kinds : List Kind} (hk : ∀ k ∈ kinds, ¬k.IsPassed)
    {gap : List Token} (h : ∀ t ∈ gap, t.kind.IsPassed) (ts : List Token) :
    upTo kinds (gap ++ ts) = (gap ++ (upTo kinds ts).1, (upTo kinds ts).2) := by
  have hpos : ∀ t ∈ gap, (!kinds.contains t.kind) = true := by
    intro t ht
    rw [Bool.not_eq_true', ← Bool.not_eq_true, List.contains_iff_mem]
    exact fun hm => hk _ hm (h t ht)
  exact Prod.ext (List.takeWhile_append_of_pos hpos) (List.dropWhile_append_of_pos hpos)

/-- The tokens up to some kinds, and those from there on. -/
theorem upTo {kinds : List Kind} (hk : ∀ k ∈ kinds, ¬k.IsPassed) (h : Respaced S b ts us) :
    RespacedPiece S (upTo kinds ts).1 (upTo kinds us).1 ∧
      ∃ b', Respaced S b' (Tokens.upTo kinds ts).2 (Tokens.upTo kinds us).2 := by
  induction h with
  | nil => exact ⟨.nil, [], .nil⟩
  | @token b t u ts us fits h more ih =>
    simp only [Tokens.upTo, List.takeWhile_cons, List.dropWhile_cons, S.kind_of_token h] at ih ⊢
    cases kinds.contains t.kind with
    | false => exact ⟨.token h ih.1, ih.2⟩
    | true => exact ⟨.nil, b, .token fits h more⟩
  | gap h more ih =>
    rw [upTo_append_passed hk fun t ht => .of_trivia (h.trivia t ht),
      upTo_append_passed hk h.passed]
    exact ⟨.gap h.trivia h.passed (fun hs => h.tight (hs _ _)) h.same ih.1, ih.2⟩

end Respaced

end Tokens
end HeaderOutline
