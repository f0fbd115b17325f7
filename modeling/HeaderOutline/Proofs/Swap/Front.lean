import HeaderOutline.Proofs.Ahead
import Mathlib.Data.List.TakeWhile

/-! # Other tokens behind

A part of a construct that is taken from the front of `p ++ x` and leaves `r ++ x` depends on no
token of `x`, if it does not look beyond what it takes: from `p ++ y` it is taken as well, and
leaves `r ++ y`.  Where it does look beyond, it is enough that behind each token that it passes one
is ahead at which every look ahead ends (`Tokens.Guarded`).
-/
namespace HeaderOutline.Tokens

open List (suffix_append_self_iff)

/-- Behind each token that counts and is passed on the way from `p` to `r`, semicolons aside, a
token of a kind is ahead. -/
def Guarded (k : Kind) (p r : List Token) : Prop :=
  ∀ t behind, t :: behind <:+ p → r <:+ behind → t.kind.isTrivia = false →
    t.kind ≠ .punct .semicolon → Ahead k behind

variable {k : Kind} {t : Token} {p q r m x y ts rest taken done : List Token}

/-! ## Suffixes -/

/-- What holds the tokens behind `r` ends with the same ones. -/
theorem exists_of_suffix (h : r ++ x <:+ m) : ∃ q, m = q ++ x ∧ r <:+ q := by
  obtain ⟨front, rfl⟩ := h
  exact ⟨front ++ r, (List.append_assoc ..).symm, List.suffix_append ..⟩

namespace Guarded

theorem suffix (h : Guarded k p r) (hs : q <:+ p) : Guarded k q r :=
  fun t behind ht => h t behind (ht.trans hs)

theorem tail (h : Guarded k (t :: p) r) : Guarded k p r := h.suffix (List.suffix_cons t p)

theorem behind {i : Kind} (h : Guarded k p r) (hs : t :: q <:+ p) (hr : r <:+ q)
    (ht : t.kind = i) (hi : i ∉ [.whitespace, .newline, .punct .semicolon]) : Ahead k q := by
  simp only [List.mem_cons, List.not_mem_nil, or_false, not_or] at hi
  refine h t q hs hr ?_ (ht ▸ hi.2.2)
  rw [ht]
  revert hi
  cases i <;> simp [Kind.isTrivia]

/-- What is ahead of all that is left is ahead behind each token. -/
theorem of_ahead (h : Ahead k r) : Guarded k p r := fun _ _ _ hr _ _ => h.of_suffix hr

end Guarded

/-! ## Pieces up to a kind -/

/-- What trivia are passed over for is none. -/
theorem isTrivia_of_skipTrivia (h : skipTrivia ts = t :: rest) : t.kind.isTrivia = false := by
  have hstop := List.head?_dropWhile_not (fun t : Token => t.kind.isTrivia) ts
  rw [show ts.dropWhile _ = _ from h] at hstop
  simpa using hstop

theorem dropWhile_swap {f : Token → Bool} (h : (p ++ x).dropWhile f = r ++ x) (hr : r ≠ []) :
    (p ++ y).dropWhile f = r ++ y ∧ (p ++ y).takeWhile f = (p ++ x).takeWhile f := by
  induction p with
  | nil =>
    have hle := (List.dropWhile_suffix (l := x) f).length_le
    rw [show x.dropWhile f = r ++ x from h, List.length_append] at hle
    have hpos := List.length_pos_iff.mpr hr
    omega
  | cons t p ih =>
    rw [List.cons_append] at h ⊢
    by_cases ht : f t = true
    · rw [List.dropWhile_cons_of_pos ht] at h ⊢
      obtain ⟨hdrop, htake⟩ := ih h
      refine ⟨hdrop, ?_⟩
      rw [List.cons_append, List.takeWhile_cons_of_pos ht, List.takeWhile_cons_of_pos ht, htake]
    · rw [List.dropWhile_cons_of_neg ht] at h ⊢
      obtain rfl : t :: p = r := List.append_cancel_right h
      refine ⟨rfl, ?_⟩
      rw [List.cons_append, List.takeWhile_cons_of_neg ht, List.takeWhile_cons_of_neg ht]

theorem upTo_swap {kinds : List Kind} (h : upTo kinds (p ++ x) = (taken, r ++ x)) (hr : r ≠ []) :
    upTo kinds (p ++ y) = (taken, r ++ y) := by
  obtain ⟨htaken, hrest⟩ := Prod.mk.inj h
  obtain ⟨hdrop, htake⟩ := dropWhile_swap (y := y) hrest hr
  exact Prod.ext (htake.trans htaken) hdrop

/-- A clause ends before a token that it needs. -/
theorem clause_ne_nil {text : Text} (h : clause ts = .ok (text, rest)) : rest ≠ [] := by
  unfold clause at h
  dsimp only at h
  split at h
  · cases h
  · next hn =>
    obtain ⟨-, rfl⟩ := Prod.mk.inj (Except.ok.inj h)
    intro hnil
    simp [hnil] at hn

theorem clause_swap {text : Text} (hk : k ∈ lookEnds) (ha : Ahead k p)
    (h : clause (p ++ x) = .ok (text, m ++ x)) (hx : x = [] ∨ m ≠ []) :
    clause (p ++ y) = .ok (text, m ++ y) ∧ m ≠ [] := by
  have htrivia := Ahead.isTrivia_of_lookEnds hk
  have hm : m ≠ [] := by
    rcases hx with rfl | hm
    · simpa using clause_ne_nil h
    · exact hm
  refine ⟨?_, hm⟩
  obtain ⟨t, behind, rfl⟩ := List.exists_cons_of_ne_nil hm
  unfold clause at h ⊢
  rw [ha.skipTrivia_append htrivia] at h ⊢
  generalize hpieces : upTo _ (skipTrivia p ++ x) = pieces at h
  obtain ⟨piece, after⟩ := pieces
  dsimp only at h
  split at h
  · cases h
  · next hn =>
    obtain ⟨rfl, rfl⟩ := Prod.mk.inj (Except.ok.inj h)
    rw [upTo_swap hpieces hm]
    exact if_neg hn

/-! ## Brackets -/

theorem closeBraces_swap {depth : Nat}
    (h : closeBraces done depth (p ++ x) = some (taken, r ++ x)) :
    closeBraces done depth (p ++ y) = some (taken, r ++ y) := by
  induction p generalizing done depth with
  | nil =>
    have hlt := closeBraces_length_lt h
    simp only [List.nil_append, List.length_append] at hlt
    omega
  | cons t p ih =>
    rw [List.cons_append, closeBraces] at h ⊢
    split at h
    · next ho =>
      rw [if_pos ho]
      exact ih h
    · next ho =>
      rw [if_neg ho]
      split at h
      · next hc =>
        rw [if_pos hc]
        split at h
        · next hd =>
          obtain ⟨rfl, hrest⟩ := Prod.mk.inj (Option.some.inj h)
          rw [if_pos hd, List.append_cancel_right hrest]
        · next hd =>
          rw [if_neg hd]
          exact ih h
      · next hc =>
        rw [if_neg hc]
        exact ih h

/-- The last token of a block closes it. -/
theorem closeBraces_last {depth : Nat} (h : closeBraces done depth ts = some (taken, rest)) :
    ∃ t, t.kind = .punct .rBrace ∧ t :: rest <:+ ts := by
  fun_induction closeBraces done depth ts with
  | case1 => cases h
  | case3 done depth t ts _ hc =>
    obtain ⟨-, rfl⟩ := Prod.mk.inj (Option.some.inj h)
    exact ⟨t, beq_iff_eq.mp hc, List.suffix_rfl⟩
  | case2 done depth t ts _ ih | case4 done depth t ts _ _ _ ih | case5 done depth t ts _ _ ih =>
    obtain ⟨u, hu, hs⟩ := ih h
    exact ⟨u, hu, hs.trans (List.suffix_cons ..)⟩

theorem block?_swap (h : block? (p ++ x) = some (taken, r ++ x)) :
    block? (p ++ y) = some (taken, r ++ y) :=
  closeBraces_swap h

theorem closeAngles_swap {depth parens : Nat}
    (h : closeAngles done depth parens (p ++ x) = some (taken, r ++ x)) :
    closeAngles done depth parens (p ++ y) = some (taken, r ++ y) := by
  induction p generalizing done depth parens with
  | nil =>
    have hlt := closeAngles_length_lt h
    simp only [List.nil_append, List.length_append] at hlt
    omega
  | cons t p ih =>
    rw [List.cons_append, closeAngles] at h ⊢
    split at h
    · cases h
    · cases h
    · cases h
    · exact ih h
    · exact ih h
    · exact ih h
    · split at h
      · next hp =>
        rw [if_pos hp]
        split at h
        · next hd =>
          obtain ⟨rfl, hrest⟩ := Prod.mk.inj (Option.some.inj h)
          rw [if_pos hd, List.append_cancel_right hrest]
        · next hd =>
          rw [if_neg hd]
          exact ih h
      · next hp =>
        rw [if_neg hp]
        exact ih h
    · split at h
      · next hp =>
        rw [if_pos hp]
        split at h
        · next hd =>
          obtain ⟨rfl, hrest⟩ := Prod.mk.inj (Option.some.inj h)
          rw [if_pos hd, List.append_cancel_right hrest]
        · next hd =>
          rw [if_neg hd]
          exact ih h
      · next hp =>
        rw [if_neg hp]
        exact ih h
    · exact ih h

theorem angles?_swap (h : angles? (p ++ x) = some (taken, r ++ x)) :
    angles? (p ++ y) = some (taken, r ++ y) :=
  closeAngles_swap h

/-- The last token of a list in angle brackets closes it. -/
theorem closeAngles_last {depth parens : Nat}
    (h : closeAngles done depth parens ts = some (taken, rest)) :
    ∃ t, (t.kind = .punct .gt ∨ t.kind = .punct .gtGt) ∧ t :: rest <:+ ts := by
  fun_induction closeAngles done depth parens ts with
  | case1 => cases h
  | case2 => cases h
  | case3 => cases h
  | case4 => cases h
  | case8 _ _ t ts hk =>
    obtain ⟨-, rfl⟩ := Prod.mk.inj (Option.some.inj h)
    exact ⟨t, .inl hk, List.suffix_rfl⟩
  | case11 _ _ t ts hk =>
    obtain ⟨-, rfl⟩ := Prod.mk.inj (Option.some.inj h)
    exact ⟨t, .inr hk, List.suffix_rfl⟩
  | _ =>
    next ih =>
      obtain ⟨u, hu, hs⟩ := ih h
      exact ⟨u, hu, hs.trans (List.suffix_cons ..)⟩

/-- Behind a block a token is ahead, if that is so behind each. -/
theorem Guarded.block? (hg : Guarded k p r) (h : block? (q ++ x) = some (taken, m ++ x))
    (hq : q <:+ p) (hm : r <:+ m) : Ahead k m := by
  obtain ⟨t, hkind, hs⟩ := closeBraces_last h
  have hlast : t :: m <:+ p :=
    (suffix_append_self_iff.mp (show (t :: m) ++ x <:+ q ++ x from hs)).trans hq
  exact hg.behind hlast hm hkind (by decide)

/-- Behind a list in angle brackets a token is ahead, if that is so behind each. -/
theorem Guarded.angles? (hg : Guarded k p r) (h : angles? (q ++ x) = some (taken, m ++ x))
    (hq : q <:+ p) (hm : r <:+ m) : Ahead k m := by
  obtain ⟨t, hkind, hs⟩ := closeAngles_last h
  have hlast : t :: m <:+ p :=
    (suffix_append_self_iff.mp (show (t :: m) ++ x <:+ q ++ x from hs)).trans hq
  rcases hkind with hkind | hkind
  · exact hg.behind hlast hm hkind (by decide)
  · exact hg.behind hlast hm hkind (by decide)

/-! ## Attributes -/

theorem afterSquares_swap {depth : Nat} (h : afterSquares depth (p ++ x) = r ++ x)
    (hr : r ≠ []) : afterSquares depth (p ++ y) = r ++ y := by
  induction p generalizing depth with
  | nil =>
    have hle := (afterSquares_suffix depth x).length_le
    rw [show afterSquares depth x = r ++ x from h, List.length_append] at hle
    have hpos := List.length_pos_iff.mpr hr
    omega
  | cons t p ih =>
    rw [List.cons_append, afterSquares] at h ⊢
    split at h
    · next ho =>
      rw [if_pos ho]
      exact ih h
    · next ho =>
      rw [if_neg ho]
      split at h
      · next hc =>
        rw [if_pos hc]
        split at h
        · next hd => rw [if_pos hd, List.append_cancel_right h]
        · next hd =>
          rw [if_neg hd]
          exact ih h
      · next hc =>
        rw [if_neg hc]
        exact ih h

/-- The last token of an attribute is a square bracket. -/
theorem afterSquares_last {depth : Nat} (h : afterSquares depth ts = rest) (hr : rest ≠ []) :
    ∃ t, t.kind = .punct .rBracket ∧ t :: rest <:+ ts := by
  fun_induction afterSquares depth ts with
  | case1 => exact absurd h.symm hr
  | case2 depth t ts _ ih | case4 depth t ts _ _ _ ih | case5 depth t ts _ _ ih =>
    obtain ⟨u, hu, hs⟩ := ih h
    exact ⟨u, hu, hs.trans (List.suffix_cons ..)⟩
  | case3 depth t ts _ hc =>
    subst h
    exact ⟨t, beq_iff_eq.mp hc, List.suffix_rfl⟩

theorem afterAttribute?_swap_none (hne : .punct .lBracket ≠ k) (ha : Ahead k p)
    (h : afterAttribute? (p ++ x) = none) : afterAttribute? (p ++ y) = none := by
  unfold afterAttribute? at h ⊢
  rw [ha.headKinds_append hne] at h ⊢
  split at h
  · cases h
  · next hn => exact if_neg hn

theorem afterAttribute?_swap (hne : .punct .lBracket ≠ k) (ha : Ahead k p)
    (h : afterAttribute? (p ++ x) = some (m ++ x)) (hm : m ≠ []) :
    afterAttribute? (p ++ y) = some (m ++ y) ∧
      ∃ t, t.kind = .punct .rBracket ∧ t :: m <:+ p := by
  unfold afterAttribute? at h ⊢
  rw [ha.headKinds_append hne] at h ⊢
  split at h
  · next hp =>
    have hafter := Option.some.inj h
    obtain ⟨t, ht, hs⟩ := afterSquares_last hafter (by simp [hm])
    exact ⟨(if_pos hp).trans (congrArg some (afterSquares_swap hafter hm)), t, ht,
      suffix_append_self_iff.mp (show (t :: m) ++ x <:+ p ++ x from hs)⟩
  · cases h

/-- What stands behind attributes that are closed. -/
theorem skipAttributes_swap (hk : k ∈ lookEnds) (hg : Guarded k p r) (ha : Ahead k p)
    (h : skipAttributes (p ++ x) = m ++ x) (hm : m ≠ []) (hr : r <:+ m) :
    skipAttributes (p ++ y) = m ++ y ∧ Ahead k m := by
  have htrivia := Ahead.isTrivia_of_lookEnds hk
  have hne : (.punct .lBracket : Kind) ≠ k := by
    rintro rfl
    simp [lookEnds] at hk
  induction hn : p.length using Nat.strongRecOn generalizing p with
  | ind n ih =>
    subst hn
    cases hattr : afterAttribute? (p ++ x) with
    | none =>
      rw [skipAttributes_of_none hattr] at h
      obtain rfl := List.append_cancel_right h
      exact ⟨skipAttributes_of_none (afterAttribute?_swap_none hne ha hattr), ha⟩
    | some rest =>
      rw [skipAttributes_of_some hattr] at h
      have hs : m ++ x <:+ rest :=
        (h ▸ skipAttributes_suffix (skipTrivia rest)).trans (skipTrivia_suffix rest)
      obtain ⟨q, rfl, hmq⟩ := exists_of_suffix hs
      have hq : q ≠ [] := by
        rintro rfl
        exact hm (List.suffix_nil.mp hmq)
      obtain ⟨hsame, t, ht, hlast⟩ := afterAttribute?_swap (y := y) hne ha hattr hq
      have hahead := hg.behind hlast (hr.trans hmq) ht (by decide)
      have hqp : q <:+ p := (List.suffix_cons t q).trans hlast
      rw [hahead.skipTrivia_append htrivia] at h
      rw [skipAttributes_of_some hsame, hahead.skipTrivia_append htrivia]
      have hlt : (skipTrivia q).length < p.length :=
        Nat.lt_of_le_of_lt (skipTrivia_suffix q).length_le
          (Nat.lt_of_lt_of_le (Nat.lt_succ_self _) hlast.length_le)
      exact ih _ hlt (hg.suffix ((skipTrivia_suffix q).trans hqp)) (hahead.skipTrivia htrivia) h rfl

end HeaderOutline.Tokens
