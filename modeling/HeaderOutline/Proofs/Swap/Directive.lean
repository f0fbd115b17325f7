import HeaderOutline.Proofs.Normal.Params
import HeaderOutline.Proofs.Swap.Front

/-! # Directives with other tokens behind

A directive ends before a line end or a comment, and it looks at nothing beyond that: what is read
from `p ++ x` and leaves `r ++ x` is read from `p ++ y` as well, if there is something left in `r`.
-/
namespace HeaderOutline.Construct.Directive

open List (suffix_append_self_iff)
open Tokens (Ahead exists_of_suffix)

variable {t hash name : Token} {ts rest p q r x y : List Token} {item : Item}

/-! ## Continuations -/

theorem skipSpace_append_of_plain (ht : t ∈ p) (hk : t.kind ≠ .whitespace) (us : List Token) :
    Tokens.skipSpace (p ++ us) = Tokens.skipSpace p ++ us ∧ Tokens.skipSpace p ≠ [] := by
  have ha : Ahead t.kind p := ⟨t, ht, rfl⟩
  have hne : ∀ u : Token, (u.kind == .whitespace) = true → u.kind ≠ t.kind := fun _ hu he =>
    hk (he ▸ beq_iff_eq.mp hu)
  exact ⟨ha.dropWhile_append hne us, (ha.dropWhile hne).ne_nil⟩

theorem takeSpace_append_of_plain (ht : t ∈ p) (hk : t.kind ≠ .whitespace) (us : List Token) :
    (p ++ us).takeWhile (·.kind == .whitespace) = p.takeWhile (·.kind == .whitespace) :=
  Ahead.takeWhile_append (k := t.kind) (fun _ hu he => hk (he ▸ beq_iff_eq.mp hu)) ⟨t, ht, rfl⟩ us

/-- The line end that a backslash takes away is in front of other tokens. -/
theorem afterContinuation?_swap (h : afterContinuation? (p ++ x) = some (q ++ x)) :
    afterContinuation? (p ++ y) = some (q ++ y) ∧
      continuation (p ++ y) = continuation (p ++ x) := by
  obtain ⟨n, hn, hskip⟩ := Tokens.eat?_eq_some_iff.mp h
  have hmem : n ∈ p := by
    have hs : n :: (q ++ x) <:+ p ++ x := hskip ▸ Tokens.skipSpace_suffix (p ++ x)
    rw [← List.cons_append] at hs
    exact (suffix_append_self_iff.mp hs).mem List.mem_cons_self
  have hplain : n.kind ≠ .whitespace := by
    rw [hn]
    decide
  have happ := fun us => (skipSpace_append_of_plain hmem hplain us).1
  rw [happ, ← List.cons_append] at hskip
  have hp : Tokens.skipSpace p = n :: q := List.append_cancel_right hskip
  constructor
  · rw [afterContinuation?, happ, hp, List.cons_append, Tokens.eat?_of_kind hn]
  · simp only [continuation, happ, takeSpace_append_of_plain hmem hplain, hp, List.cons_append,
      List.take_succ_cons, List.take_zero]

/-- No line end is taken away in front of other tokens, one of which is no white space. -/
theorem afterContinuation?_swap_none (ht : t ∈ p) (hk : t.kind ≠ .whitespace)
    (h : afterContinuation? (p ++ x) = none) : afterContinuation? (p ++ y) = none := by
  obtain ⟨happ, hne⟩ := skipSpace_append_of_plain ht hk x
  obtain ⟨u, more, hu⟩ := List.exists_cons_of_ne_nil hne
  rw [afterContinuation?, happ, hu] at h
  rw [afterContinuation?, (skipSpace_append_of_plain ht hk y).1, hu]
  by_cases hn : u.kind = .newline
  · rw [List.cons_append, Tokens.eat?_of_kind hn] at h
    cases h
  · rw [List.cons_append, Tokens.eat?_of_ne hn]

/-! ## Directives of any name -/

theorem endsBefore_ne_space (h : endsBefore t = true) : t.kind ≠ .whitespace := by
  intro hk
  simp [endsBefore, hk] at h

/-- A directive ends before a token that shows it. -/
theorem endsBefore_of_extent {e : Extent} (h : (extent e ts).2 = t :: rest) :
    endsBefore t = true := by
  fun_induction extent e ts with
  | case1 => cases h
  | case2 e u us hu =>
    obtain ⟨rfl, -⟩ := List.cons.inj h
    exact hu
  | case3 _ _ _ _ _ _ _ ih | case4 _ _ _ _ _ _ ih | case5 _ _ _ _ _ ih => exact ih h

theorem extent_swap {e e' : Extent} (h : extent e (p ++ x) = (e', r ++ x)) (hr : r ≠ []) :
    extent e (p ++ y) = (e', r ++ y) := by
  obtain ⟨n, behind, rfl⟩ := List.exists_cons_of_ne_nil hr
  have hn := endsBefore_ne_space (endsBefore_of_extent (congrArg Prod.snd h))
  induction hlen : p.length using Nat.strongRecOn generalizing p e with
  | ind m ih =>
    subst hlen
    have hrp : n :: behind <:+ p :=
      suffix_append_self_iff.mp (congrArg Prod.snd h ▸ extent_suffix e (p ++ x))
    cases p with
    | nil => cases List.suffix_nil.mp hrp
    | cons t p =>
      rw [List.cons_append, extent] at h ⊢
      split at h
      · next he =>
        obtain ⟨rfl, hrest⟩ := Prod.mk.inj h
        have hsame : t :: p = _ := List.append_cancel_right hrest
        rw [if_pos he, ← hsame]
        rfl
      · next he =>
        rw [if_neg he]
        have hmore : ∀ e, extent e (p ++ x) = (e', n :: behind ++ x) → n ∈ p := fun e he =>
          (suffix_append_self_iff.mp (congrArg Prod.snd he ▸ extent_suffix e (p ++ x))).mem
            List.mem_cons_self
        split at h
        · next hb =>
          rw [if_pos hb]
          split at h
          · next after ha =>
            obtain ⟨q, rfl, -⟩ := exists_of_suffix (congrArg Prod.snd h ▸ extent_suffix _ after)
            obtain ⟨hsame, hcont⟩ := afterContinuation?_swap (y := y) ha
            have hlt : q.length < (t :: p).length := by
              have hlt := afterContinuation?_length_lt ha
              simp only [List.length_append, List.length_cons] at hlt ⊢
              omega
            split
            · next hsome =>
              obtain rfl := Option.some.inj (hsame.symm.trans hsome)
              rw [hcont]
              exact ih _ hlt h rfl
            · next hnone => cases hsame.symm.trans hnone
          · next ha =>
            have hsame := afterContinuation?_swap_none (y := y) (hmore _ h) hn ha
            split
            · next hsome => cases hsame.symm.trans hsome
            · exact ih _ (Nat.lt_succ_self _) h rfl
        · next hb =>
          rw [if_neg hb]
          exact ih _ (Nat.lt_succ_self _) h rfl

/-! ## Macro definitions -/

/-- A parameter list ends at the end of the line at the latest. -/
theorem paramList_swap (ha : Ahead .newline p) (us : List Token) :
    paramList (p ++ us) = ((paramList p).1, (paramList p).2.1, (paramList p).2.2 ++ us) := by
  by_cases hopen : Tokens.headKind p = .punct .lParen
  case neg =>
    rw [paramList_of_none ((ha.headKind_append us).trans_ne hopen), paramList_of_none hopen]
  case pos =>
    obtain ⟨n, hn, hline⟩ := ha
    obtain ⟨front, t, tail, rfl, hfront, ht⟩ : ∃ front t tail, p = front ++ t :: tail ∧
        (∀ u ∈ front, endsParams u.kind = false) ∧ endsParams t.kind = true := by
      have hends : endsParams n.kind = true := by
        rw [hline]
        rfl
      obtain ⟨t, ht⟩ := Option.isSome_iff_exists.mp
        ((List.find?_isSome (p := fun u => endsParams u.kind)).mpr ⟨n, hn, hends⟩)
      obtain ⟨hends, front, tail, rfl, hfront⟩ := List.find?_eq_some_iff_append.mp ht
      exact ⟨front, t, tail, rfl, fun u hu => by simpa using hfront u hu, hends⟩
    have hopen' : ∀ us, Tokens.headKind (front ++ t :: tail ++ us) = .punct .lParen := by
      intro us
      rwa [Ahead.headKind_append ⟨n, hn, hline⟩]
    rw [paramList_of_open hopen, paramList_of_open (hopen' us), List.append_assoc,
      List.cons_append]
    have hk : t.kind = .punct .rParen ∨ t.kind = .newline := by simpa [endsParams] using ht
    rcases hk with hk | hk
    · rw [params_of_closed hfront hk, params_of_closed hfront hk]
    · rw [params_of_line hfront hk, params_of_line hfront hk]
      rfl

/-- A value ends before a line end. -/
theorem kind_of_value {v : Value} (h : (value v ts).2 = t :: rest) : t.kind = .newline := by
  fun_induction value v ts with
  | case1 => cases h
  | case2 v u us hu =>
    obtain ⟨rfl, -⟩ := List.cons.inj h
    exact beq_iff_eq.mp (Bool.and_eq_true_iff.mp hu).1
  | case3 _ _ _ _ _ _ _ ih | case4 _ _ _ _ _ _ ih | case5 _ _ _ _ _ ih => exact ih h

theorem value_swap {v v' : Value} (h : value v (p ++ x) = (v', r ++ x)) (hr : r ≠ []) :
    value v (p ++ y) = (v', r ++ y) := by
  obtain ⟨n, behind, rfl⟩ := List.exists_cons_of_ne_nil hr
  have hn : n.kind ≠ .whitespace := by
    rw [kind_of_value (congrArg Prod.snd h)]
    decide
  induction hlen : p.length using Nat.strongRecOn generalizing p v with
  | ind m ih =>
    subst hlen
    have hrp : n :: behind <:+ p :=
      suffix_append_self_iff.mp (congrArg Prod.snd h ▸ value_suffix v (p ++ x))
    cases p with
    | nil => cases List.suffix_nil.mp hrp
    | cons t p =>
      rw [List.cons_append, value] at h ⊢
      split at h
      · next he =>
        obtain ⟨rfl, hrest⟩ := Prod.mk.inj h
        have hsame : t :: p = _ := List.append_cancel_right hrest
        rw [if_pos he, ← hsame]
        rfl
      · next he =>
        rw [if_neg he]
        have hmore : ∀ v, value v (p ++ x) = (v', n :: behind ++ x) → n ∈ p := fun v hv =>
          (suffix_append_self_iff.mp (congrArg Prod.snd hv ▸ value_suffix v (p ++ x))).mem
            List.mem_cons_self
        split at h
        · next hb =>
          rw [if_pos hb]
          split at h
          · next after ha =>
            obtain ⟨q, rfl, -⟩ := exists_of_suffix (congrArg Prod.snd h ▸ value_suffix _ after)
            obtain ⟨hsame, -⟩ := afterContinuation?_swap (y := y) ha
            have hlt : q.length < (t :: p).length := by
              have hlt := afterContinuation?_length_lt ha
              simp only [List.length_append, List.length_cons] at hlt ⊢
              omega
            split
            · next hsome =>
              obtain rfl := Option.some.inj (hsame.symm.trans hsome)
              exact ih _ hlt h rfl
            · next hnone => cases hsame.symm.trans hnone
          · next ha =>
            have hsame := afterContinuation?_swap_none (y := y) (hmore _ h) hn ha
            split
            · next hsome => cases hsame.symm.trans hsome
            · exact ih _ (Nat.lt_succ_self _) h rfl
        · next hb =>
          rw [if_neg hb]
          exact ih _ (Nat.lt_succ_self _) h rfl

theorem readDefinition_swap (h : readDefinition hash name (p ++ x) = .read item (r ++ x))
    (hr : r ≠ []) : readDefinition hash name (p ++ y) = .read item (r ++ y) := by
  obtain ⟨n, behind, rfl⟩ := List.exists_cons_of_ne_nil hr
  have hsuffix := readDefinition_rest_suffix hash name (p ++ x)
  rw [h] at hsuffix
  unfold readDefinition at h ⊢
  dsimp only at h ⊢
  -- the value ends before a line end, so that there is one behind the parameter list
  have hn : n.kind = .newline := kind_of_value (Outcome.read.inj h).2
  have ha : Ahead .newline p := ⟨n, (suffix_append_self_iff.mp hsuffix).mem List.mem_cons_self, hn⟩
  rw [paramList_swap ha] at h ⊢
  dsimp only at h ⊢
  obtain ⟨hitem, hrest⟩ := Outcome.read.inj h
  rw [value_swap (Prod.ext rfl hrest) hr]
  exact congrArg (Outcome.read · _) hitem

/-- What a directive leaves does not start with white space. -/
theorem ne_space_of_read (h : read hash ts = .read item (t :: rest)) : t.kind ≠ .whitespace := by
  have hextent : ∀ {e : Extent} {us}, (extent e us).2 = t :: rest → t.kind ≠ .whitespace :=
    fun he => endsBefore_ne_space (endsBefore_of_extent he)
  unfold read at h
  dsimp only at h
  split at h
  · cases h
  · split at h
    · split at h
      · split at h
        · rw [kind_of_value (Outcome.read.inj h).2]
          decide
        · exact hextent (Outcome.read.inj h).2
      · cases h
    · exact hextent (Outcome.read.inj h).2

/-- Behind `define` a directive takes a token that counts, if there is one. -/
theorem suffix_of_read_define {u : Token} {us : List Token}
    (h : read hash ts = .read item (t :: rest)) (hs : Tokens.skipSpace ts = u :: us)
    (hd : (u.kind == .ident && u.text == "define".toList) = true) : t :: rest <:+ us := by
  unfold read at h
  simp only [hs, hd, if_true] at h
  split at h
  · next name behind hname =>
    have hus : name :: behind <:+ us := hname ▸ Tokens.skipSpace_suffix us
    split at h
    · have hrest := readDefinition_rest_suffix hash name behind
      rw [h] at hrest
      exact hrest.trans ((List.suffix_cons name behind).trans hus)
    · rw [← (Outcome.read.inj h).2]
      exact (extent_suffix ..).trans hus
  · cases h

/-- **A directive that ends before some tokens** is the same whatever stands behind these. -/
theorem read_swap (h : read hash (p ++ x) = .read item (r ++ x)) (hr : r ≠ []) :
    read hash (p ++ y) = .read item (r ++ y) := by
  obtain ⟨n, behind, rfl⟩ := List.exists_cons_of_ne_nil hr
  have hn := ne_space_of_read h
  have hmem : n ∈ p := by
    have hsuffix := read_rest_suffix hash (p ++ x)
    rw [h] at hsuffix
    exact (suffix_append_self_iff.mp hsuffix).mem List.mem_cons_self
  have happ := fun us => (skipSpace_append_of_plain hmem hn us).1
  obtain ⟨t, ts, ht⟩ := List.exists_cons_of_ne_nil (skipSpace_append_of_plain hmem hn x).2
  have hdefine := suffix_of_read_define h (by rw [happ, ht]; rfl)
  unfold read at h ⊢
  simp only [takeSpace_append_of_plain hmem hn, happ, ht, List.cons_append] at h ⊢
  split at h
  · next hd =>
    rw [if_pos hd]
    have hts : n ∈ ts := (suffix_append_self_iff.mp (hdefine hd)).mem List.mem_cons_self
    have happ := fun us => (skipSpace_append_of_plain hts hn us).1
    obtain ⟨name, us, hname⟩ :=
      List.exists_cons_of_ne_nil (skipSpace_append_of_plain hts hn x).2
    simp only [takeSpace_append_of_plain hts hn, happ, hname, List.cons_append] at h ⊢
    split at h
    · next hword =>
      rw [if_pos hword]
      exact readDefinition_swap h hr
    · next hword =>
      rw [if_neg hword]
      obtain ⟨hitem, hrest⟩ := Outcome.read.inj h
      have hsame := extent_swap (p := name :: us) (y := y) (Prod.ext rfl hrest) hr
      rw [List.cons_append] at hsame
      rw [hsame]
      exact congrArg (Outcome.read · _) hitem
  · next hd =>
    rw [if_neg hd]
    obtain ⟨hitem, hrest⟩ := Outcome.read.inj h
    have hsame := extent_swap (p := t :: ts) (y := y) (Prod.ext rfl hrest) hr
    rw [List.cons_append] at hsame
    rw [hsame]
    exact congrArg (Outcome.read · _) hitem

end HeaderOutline.Construct.Directive
