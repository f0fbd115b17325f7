import HeaderOutline.Proofs.Ahead.Probe
import HeaderOutline.Proofs.Swap.Declaration

/-! # The probe with other tokens behind

The probe for a function passes specifiers and attributes, and then looks at words of type and name.
It may look beyond a declaration only where an attribute goes on behind it.  If a declaration ends
behind the specifiers and the attributes in front of it, the probe says the same whatever stands
behind the declaration (`Construct.Declaration.isFunction_swap`).  That is so wherever no attribute
holds the end of a statement (`Construct.Declaration.probedAlike_of_plainAttributes`).
-/
namespace HeaderOutline

/-! ## Plain attributes -/

namespace Tokens

/-- No attribute holds a semicolon or a brace, and if the last one is left open, none follows in
it. -/
def PlainAttributes (ts : List Token) : Prop :=
  ∀ taken rest, taken ++ rest <:+ ts → afterAttribute? (taken ++ rest) = some rest →
    ∀ t ∈ taken, t.kind ∉ statementEnds

variable {t : Token} {ts us : List Token}

theorem PlainAttributes.suffix (h : PlainAttributes ts) (hs : us <:+ ts) : PlainAttributes us :=
  fun taken rest ht => h taken rest (ht.trans hs)

theorem plainAttributes_of_forall (h : ∀ t ∈ ts, t.kind ≠ .punct .lBracket) :
    PlainAttributes ts := by
  intro taken rest hs hattr t ht
  obtain ⟨u, us, rfl⟩ := List.exists_cons_of_ne_nil (List.ne_nil_of_mem ht)
  have hu := h u (hs.mem List.mem_cons_self)
  rw [List.cons_append, afterAttribute?_of_kind hu] at hattr
  cases hattr

/-- A bracket that is closed in front of some tokens is closed there whatever follows. -/
theorem afterSquares_append {depth : Nat} (h : afterSquares depth ts ≠ []) (us : List Token) :
    afterSquares depth (ts ++ us) = afterSquares depth ts ++ us := by
  have hsame : afterSquares depth (ts ++ []) = afterSquares depth ts ++ [] := by simp
  exact afterSquares_swap hsame h

theorem afterAttribute?_append {rest : List Token} (h : afterAttribute? ts = some rest)
    (hne : rest ≠ []) (us : List Token) : afterAttribute? (ts ++ us) = some (rest ++ us) := by
  unfold afterAttribute? at h ⊢
  split at h
  · next hk =>
    obtain rfl := Option.some.inj h
    rw [if_pos, afterSquares_append hne]
    rcases ts with _ | ⟨u, _ | ⟨v, ts⟩⟩
    · simp [headKind] at hk
    · simp [headKind] at hk
    · exact hk
  · cases h

/-- A token that is no trivia is not passed over with trivia. -/
theorem cons_suffix_skipTrivia (h : t :: us <:+ ts) (ht : t.kind.isTrivia = false) :
    t :: us <:+ skipTrivia ts := by
  obtain ⟨front, rfl⟩ := h
  unfold skipTrivia
  rw [List.dropWhile_append]
  split
  · have hkept : (t :: us).dropWhile (fun t => t.kind.isTrivia) = t :: us :=
      List.dropWhile_cons_of_neg (by simp [ht])
    exact hkept.symm ▸ List.suffix_rfl
  · exact List.suffix_append _ _

/-- What starts with a token that is not in front of some tokens stands in these. -/
theorem cons_suffix_of_append {front back : List Token} (h : t :: us <:+ front ++ back)
    (ht : t ∉ front) : t :: us <:+ back := by
  induction front with
  | nil => exact h
  | cons u front ih =>
    rw [List.mem_cons, not_or] at ht
    rcases List.suffix_cons_iff.mp h with heq | h
    · exact absurd (List.cons.inj heq).1 ht.1
    · exact ih h ht.2

end Tokens

end HeaderOutline

namespace HeaderOutline.Construct

open List (suffix_append_self_iff)
open Tokens (Ahead PlainAttributes statementEnds exists_of_suffix)

variable {k : Kind} {t : Token} {ts rest taken p q r u m x y : List Token} {ds : Definitions}
  {lead : Lead} {item : Item}

namespace Declaration

theorem skipSpecifiers_suffix (afterExtern : Bool) (ts : List Token) :
    skipSpecifiers afterExtern ts <:+ ts := by
  fun_induction skipSpecifiers afterExtern ts with
  | case1 _ ts rest ha ih =>
    exact (ih.trans (Tokens.afterAttribute?_suffix ha)).trans (Tokens.skipTrivia_suffix ts)
  | case2 => exact List.nil_suffix
  | case3 _ ts _ t rest ht _ ih => exact ih.trans (Tokens.tail_suffix_of_skipTrivia ht)
  | case4 _ ts _ t rest ht _ => exact ht ▸ Tokens.skipTrivia_suffix ts

/-- What stands behind specifiers is no trivia. -/
theorem isTrivia_of_skipSpecifiers {afterExtern : Bool}
    (h : skipSpecifiers afterExtern ts = t :: rest) : t.kind.isTrivia = false := by
  fun_induction skipSpecifiers afterExtern ts with
  | case1 _ _ _ _ ih | case3 _ _ _ _ _ _ _ ih => exact ih h
  | case2 => cases h
  | case4 _ ts _ u us hu _ =>
    obtain ⟨rfl, -⟩ := List.cons.inj h
    exact Tokens.isTrivia_of_skipTrivia hu

/-- Specifiers in front of the end of a statement. -/
theorem skipSpecifiers_swap (hk : k ∈ statementEnds) (ha : Ahead k u) {afterExtern : Bool}
    (h : skipSpecifiers afterExtern (p ++ x) = u ++ x) :
    skipSpecifiers afterExtern (p ++ y) = u ++ y := by
  have htrivia := Ahead.isTrivia_of_mem hk
  have hsquare : (.punct .lBracket : Kind) ≠ k := by
    rintro rfl
    simp [statementEnds] at hk
  induction hn : p.length using Nat.strongRecOn generalizing p afterExtern with
  | ind n ih =>
    subst hn
    have hp : Ahead k p := ha.of_suffix (suffix_append_self_iff.mp (h ▸ skipSpecifiers_suffix _ _))
    have hfront := hp.skipTrivia htrivia
    have hle := Tokens.skipTrivia_length_le p
    rw [skipSpecifiers_eq, hp.skipTrivia_append htrivia] at h ⊢
    cases hattr : Tokens.afterAttribute? (Tokens.skipTrivia p ++ x) with
    | some rest =>
      rw [hattr] at h
      change skipSpecifiers afterExtern rest = u ++ x at h
      obtain ⟨q, rfl, huq⟩ := exists_of_suffix (h ▸ skipSpecifiers_suffix afterExtern rest)
      have hq := (ha.of_suffix huq).ne_nil
      have hlt : q.length < p.length := by
        have hlt := Tokens.afterAttribute?_length_lt hattr
        simp only [List.length_append] at hlt
        omega
      rw [(Tokens.afterAttribute?_swap (y := y) hsquare hfront hattr hq).1]
      exact ih _ hlt h rfl
    | none =>
      obtain ⟨t, rest, ht⟩ := hp.exists_skipTrivia htrivia
      rw [ht] at hfront hle hattr
      rw [ht, hattr] at h
      rw [ht, Tokens.afterAttribute?_swap_none hsquare hfront hattr]
      simp only [List.cons_append] at h ⊢
      split at h
      · next hs =>
        rw [if_pos hs]
        exact ih _ hle h rfl
      · next hs =>
        have hsame : t :: rest = _ := List.append_cancel_right h
        rw [if_neg hs, ← hsame]
        rfl

/-- **The probe for a function** says the same whatever stands behind the end of a statement. -/
theorem isFunction_swap (hk : k ∈ statementEnds) (ha : Ahead k u)
    (h : skipSpecifiers false (p ++ x) = u ++ x) :
    isFunction (p ++ y) = isFunction (p ++ x) := by
  rw [isFunction, skipSpecifiers_swap hk ha h, paramsFollow_append hk ha, isFunction, h,
    paramsFollow_append hk ha]

/-- The last token of a declaration is a semicolon or a brace. -/
theorem exists_last_of_read (h : read ds lead ts = .read item rest) :
    ∃ t, t.kind ∈ statementEnds ∧ t :: rest <:+ ts := by
  have hmem : .punct .semicolon ∈ statementEnds ∧ .punct .rBrace ∈ statementEnds := by decide
  unfold read at h
  split at h
  · unfold Function.read at h
    cases he : Function.extent [] .start ts with
    | broken left =>
      rw [he] at h
      cases h
    | unclosed brace =>
      rw [he] at h
      cases h
    | declared s taken left =>
      rw [he] at h
      dsimp only at h
      split at h
      · cases h
      · obtain ⟨-, rfl⟩ := Outcome.read.inj h
        obtain ⟨t, ht, hs⟩ := Function.extent_last he
        exact ⟨t, ht ▸ hmem.1, hs⟩
    | defined s taken left =>
      have hleft := Function.extent_rest_suffix [] .start ts
      rw [he] at h hleft
      dsimp only at h
      split at h
      · cases h
      · cases hb : Tokens.block? left with
        | none =>
          rw [hb] at h
          cases h
        | some found =>
          obtain ⟨block, after⟩ := found
          rw [hb] at h
          obtain ⟨-, rfl⟩ := Outcome.read.inj h
          obtain ⟨t, ht, hs⟩ := Tokens.closeBraces_last hb
          exact ⟨t, ht ▸ hmem.2, hs.trans hleft⟩
  · unfold Variable.read at h
    cases he : Variable.extent [] .start ts with
    | broken left =>
      rw [he] at h
      cases h
    | closed s taken left =>
      rw [he] at h
      dsimp only at h
      split at h
      · cases h
      · obtain ⟨-, rfl⟩ := Outcome.read.inj h
        obtain ⟨t, ht, hs⟩ := Variable.extent_last he
        refine ⟨t, ?_, hs⟩
        simp only [List.mem_cons, List.not_mem_nil, or_false] at ht
        rcases ht with ht | ht
        · exact ht ▸ hmem.1
        · exact ht ▸ hmem.2

/-- **The end of a statement** is not passed with specifiers and plain attributes. -/
theorem cons_suffix_skipSpecifiers (h : PlainAttributes ts) (hs : t :: rest <:+ ts)
    (ht : t.kind ∈ statementEnds) (afterExtern : Bool) (us : List Token) :
    t :: (rest ++ us) <:+ skipSpecifiers afterExtern (ts ++ us) := by
  have htrivia := Ahead.isTrivia_of_mem ht
  have hne : (.punct .lBracket : Kind) ≠ t.kind := by
    intro hk
    simp [← hk, statementEnds] at ht
  induction hn : ts.length using Nat.strongRecOn generalizing ts afterExtern with
  | ind n ih =>
    subst hn
    have ha : Ahead t.kind ts := ⟨t, hs.mem List.mem_cons_self, rfl⟩
    have hle := Tokens.skipTrivia_length_le ts
    have hplain := h.suffix (Tokens.skipTrivia_suffix ts)
    have hfront := Tokens.cons_suffix_skipTrivia hs htrivia
    rw [skipSpecifiers_eq, ha.skipTrivia_append htrivia]
    generalize Tokens.skipTrivia ts = front at hle hplain hfront ⊢
    have hmem := hfront.mem List.mem_cons_self
    cases hattr : Tokens.afterAttribute? front with
    | some left =>
      have hlt := Tokens.afterAttribute?_length_lt hattr
      obtain ⟨taken, rfl⟩ := Tokens.afterAttribute?_suffix hattr
      have hleft : t :: rest <:+ left := Tokens.cons_suffix_of_append hfront fun hm =>
        hplain taken left List.suffix_rfl hattr t hm ht
      rw [Tokens.afterAttribute?_append hattr (List.ne_nil_of_mem (hleft.mem List.mem_cons_self))]
      exact ih _ (Nat.lt_of_lt_of_le hlt hle) (hplain.suffix (List.suffix_append taken left)) hleft
        afterExtern rfl
    | none =>
      have hsame := Tokens.afterAttribute?_swap_none (p := front) (x := []) (y := us) hne
        ⟨t, hmem, rfl⟩ (by rwa [List.append_nil])
      rw [hsame]
      obtain ⟨u, front, rfl⟩ := List.exists_cons_of_ne_nil (List.ne_nil_of_mem hmem)
      dsimp only [List.cons_append]
      split
      · next hspecifier =>
        rcases List.suffix_cons_iff.mp hfront with heq | hmore
        · -- the end of a statement is no specifier
          obtain ⟨rfl, -⟩ := List.cons.inj heq
          simp only [statementEnds, List.mem_cons, List.not_mem_nil, or_false] at ht
          rcases ht with ht | ht | ht <;> simp [ht, specifiers, typeOpeners] at hspecifier
        · exact ih _ hle (hplain.suffix (List.suffix_cons u front)) hmore _ rfl
      · exact List.suffix_append_self_iff.mpr hfront

/-- Behind plain attributes, other tokens make no difference to the probe. -/
theorem probedAlike_of_plainAttributes (h : PlainAttributes p) (r x y : List Token) :
    ProbedAlike (p ++ r) r x y := by
  intro q ds lead item m hq hread hm
  obtain ⟨t, ht, hlast⟩ := exists_last_of_read hread
  have hmq : t :: m <:+ q := suffix_append_self_iff.mp (show t :: m ++ x <:+ _ from hlast)
  -- the end of the declaration is among the first tokens, and behind the specifiers
  obtain ⟨m, rfl⟩ := hm
  obtain ⟨q, rfl, htq⟩ := exists_of_suffix (show t :: m ++ r <:+ q from hmq)
  have hpast := cons_suffix_skipSpecifiers (h.suffix (suffix_append_self_iff.mp hq)) htq ht false
    (r ++ x)
  rw [← List.append_assoc, ← List.append_assoc, ← List.cons_append] at hpast
  obtain ⟨u, hu, htu⟩ := exists_of_suffix hpast
  exact isFunction_swap ht ⟨t, htu.mem List.mem_cons_self, rfl⟩ hu

end Declaration
end HeaderOutline.Construct
