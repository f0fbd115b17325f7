import HeaderOutline.Proofs.Swap.Front

/-! # Tokens that end with a semicolon

What looks at the front of a list of tokens comes to an end at a semicolon.  Some parts of
constructs may pass semicolons, inside of brackets; if the last token of the list that is no trivia
is a semicolon (`Tokens.Sealed`), then behind each other token one is ahead again.
-/
namespace HeaderOutline.Tokens

/-- A semicolon is ahead. -/
def Stopped (ts : List Token) : Prop := ∃ t ∈ ts, t.kind = .punct .semicolon

/-- A semicolon is ahead behind each token that is neither one itself nor trivia. -/
def Sealed (ts : List Token) : Prop :=
  ∀ t behind, t :: behind <:+ ts → t.kind.isTrivia = false → t.kind ≠ .punct .semicolon →
    Stopped behind

variable {t : Token} {ts rest : List Token}

theorem Stopped.of_suffix (h : Stopped rest) (hs : rest <:+ ts) : Stopped ts := Ahead.of_suffix h hs

namespace Sealed

theorem suffix (h : Sealed ts) (hs : rest <:+ ts) : Sealed rest :=
  fun t behind ht => h t behind (ht.trans hs)

/-- Nothing of sealed tokens looks beyond them. -/
theorem guarded (h : Sealed ts) (rest : List Token) : Guarded (.punct .semicolon) ts rest :=
  fun t behind hs _ => h t behind hs

/-- A semicolon is ahead while anything is but trivia. -/
theorem stopped_of_cons (h : Sealed (t :: ts)) (ht : t.kind.isTrivia = false) :
    Stopped (t :: ts) := by
  by_cases hs : t.kind = .punct .semicolon
  · exact ⟨t, List.mem_cons_self, hs⟩
  · exact (h t ts List.suffix_rfl ht hs).of_suffix (List.suffix_cons t ts)

theorem stopped_of_skipTrivia (h : Sealed ts) (ht : skipTrivia ts = t :: rest) :
    Stopped ts := by
  have hs := ht ▸ skipTrivia_suffix ts
  exact ((h.suffix hs).stopped_of_cons (isTrivia_of_skipTrivia ht)).of_suffix hs

end Sealed

/-- Tokens of which the last one that is no trivia is a semicolon. -/
theorem sealed_of_append {front trailing : List Token} (hk : t.kind = .punct .semicolon)
    (htrivia : ∀ u ∈ trailing, u.kind.isTrivia = true) : Sealed (front ++ t :: trailing) := by
  intro u behind hu hplain hne
  induction front with
  | nil =>
    rcases List.suffix_cons_iff.mp hu with heq | hu
    · obtain ⟨rfl, -⟩ := List.cons.inj heq
      exact absurd hk hne
    · have hmem := htrivia u (hu.mem List.mem_cons_self)
      cases hplain.symm.trans hmem
  | cons v front ih =>
    rcases List.suffix_cons_iff.mp hu with heq | hu
    · obtain ⟨-, rfl⟩ := List.cons.inj heq
      exact ⟨t, by simp, hk⟩
    · exact ih hu

end HeaderOutline.Tokens
