import HeaderOutline.Construct.Alias
import HeaderOutline.Proofs.Ahead.Names
import HeaderOutline.Proofs.Attribute.Head
import HeaderOutline.Proofs.Swap.Front

/-! # Declarations with other tokens behind

A declaration that is read from `p ++ x` and leaves `r ++ x` is read from `p ++ y` as well, if what
it looks at beyond its own tokens is the same there (`Tokens.Guarded`).  A type definition and a
using declaration look at nothing beyond their semicolon.  The probe for a function looks beyond any
bracket of an attribute, so that it is compared by itself (`Declaration.ProbedAlike`).
-/
namespace HeaderOutline.Construct

open List (suffix_append_self_iff)
open Tokens (Ahead Guarded lookEnds exists_of_suffix)

variable {k : Kind} {t keyword last : Token} {ts rest taken done p q r m x y : List Token}
  {ds : Definitions} {lead : Lead} {item : Item}

/-- What is passed in front of the tokens behind a list is in the list. -/
theorem ahead_of_suffix (hs : t :: (r ++ x) <:+ p ++ x) (ht : t.kind = k) : Ahead k p :=
  ⟨t, (suffix_append_self_iff.mp (show (t :: r) ++ x <:+ p ++ x from hs)).mem
    List.mem_cons_self, ht⟩

/-- Nothing is passed of no tokens. -/
theorem not_suffix_self : ¬t :: (r ++ x) <:+ x := by
  intro hs
  have hle := hs.length_le
  simp only [List.length_cons, List.length_append] at hle
  omega

/-! ## Aliases -/

namespace Typedef

theorem holdsDeclarator_append (h : Ahead (.punct .semicolon) ts) (depth : Nat)
    (us : List Token) : holdsDeclarator depth (ts ++ us) = holdsDeclarator depth ts := by
  induction ts generalizing depth with
  | nil => exact absurd rfl h.ne_nil
  | cons t ts ih =>
    rw [List.cons_append, holdsDeclarator, holdsDeclarator]
    split
    · next ht => exact ih (h.tail (by simp [ht])) _
    · next ht =>
      have hbehind := h.tail (by simp [ht])
      rw [hbehind.nextKind_append rfl, ih hbehind]
    · rfl
    · rfl
    · rfl
    · next hs _ _ => exact ih (h.tail hs) _

theorem Progress.read_append (h : Ahead (.punct .semicolon) ts) (s : Progress) (t : Token)
    (us : List Token) : s.read t (ts ++ us) = s.read t ts := by
  unfold read
  rw [holdsDeclarator_append h]

/-- The last token of a definition is its semicolon. -/
theorem extent_last {s s' : Progress} (h : extent done s ts = .closed s' taken last rest) :
    last.kind = .punct .semicolon ∧ last :: rest <:+ ts := by
  fun_induction extent done s ts with
  | case1 => cases h
  | case2 done s t ts hk =>
    obtain ⟨-, -, rfl, rfl⟩ := Extent.closed.inj h
    simp only [Bool.and_eq_true, beq_iff_eq] at hk
    exact ⟨hk.1.1, List.suffix_rfl⟩
  | case3 => cases h
  | case4 done s t ts _ _ ih => exact (ih h).imp_right (·.trans (List.suffix_cons t ts))

theorem extent_swap {s s' : Progress}
    (h : extent done s (p ++ x) = .closed s' taken last (r ++ x)) :
    extent done s (p ++ y) = .closed s' taken last (r ++ y) := by
  induction p generalizing done s with
  | nil => exact absurd (extent_last h).2 not_suffix_self
  | cons t p ih =>
    rw [List.cons_append, extent] at h ⊢
    split at h
    · next hs =>
      obtain ⟨rfl, rfl, rfl, hrest⟩ := Extent.closed.inj h
      rw [if_pos hs, List.append_cancel_right hrest]
    · next hs =>
      rw [if_neg hs]
      split at h
      · cases h
      · next hb =>
        have hahead := ahead_of_suffix (extent_last h).2 (extent_last h).1
        rw [if_neg hb, Progress.read_append hahead]
        rw [Progress.read_append hahead] at h
        exact ih h

theorem read_swap (h : read keyword (p ++ x) = .read item (r ++ x)) :
    read keyword (p ++ y) = .read item (r ++ y) := by
  unfold read at h ⊢
  cases he : extent [keyword] .start (p ++ x) with
  | broken left =>
    rw [he] at h
    cases h
  | closed s taken last left =>
    rw [he] at h
    dsimp only at h
    split at h
    · cases h
    · next hname =>
      obtain ⟨rfl, rfl⟩ := Outcome.read.inj h
      rw [extent_swap he]
      dsimp only
      rw [hname]

end Typedef

namespace Using

theorem directive_last {name full : Text}
    (h : directive done name ts = .closed full taken last rest) :
    last.kind = .punct .semicolon ∧ last :: rest <:+ ts := by
  fun_induction directive done name ts with
  | case1 => cases h
  | case2 done name t ts hk =>
    obtain ⟨-, -, rfl, rfl⟩ := Extent.closed.inj h
    exact ⟨hk, List.suffix_rfl⟩
  | case3 => cases h
  | case4 => cases h
  | case5 done name t ts _ _ _ ih => exact (ih h).imp_right (·.trans (List.suffix_cons t ts))

theorem declaration_last {s : Progress} {name : Text}
    (h : declaration done s ts = .closed name taken last rest) :
    last.kind = .punct .semicolon ∧ last :: rest <:+ ts := by
  fun_induction declaration done s ts with
  | case1 => cases h
  | case2 done s t ts hk =>
    obtain ⟨-, -, rfl, rfl⟩ := Extent.closed.inj h
    simp only [Bool.and_eq_true, beq_iff_eq] at hk
    exact ⟨hk.1, List.suffix_rfl⟩
  | case3 => cases h
  | case4 done s t ts _ _ ih => exact (ih h).imp_right (·.trans (List.suffix_cons t ts))

/-- The last token of a declaration is its semicolon. -/
theorem extent_last {name : Text} (h : extent keyword ts = .closed name taken last rest) :
    last.kind = .punct .semicolon ∧ last :: rest <:+ ts := by
  unfold extent at h
  dsimp only at h
  split at h
  · next t us ht =>
    have hs := ht ▸ Tokens.skipTrivia_suffix ts
    split at h
    · exact (directive_last h).imp_right (·.trans ((List.suffix_cons t us).trans hs))
    · exact (declaration_last h).imp_right (·.trans hs)
  · cases h

theorem directive_swap {name full : Text}
    (h : directive done name (p ++ x) = .closed full taken last (r ++ x)) :
    directive done name (p ++ y) = .closed full taken last (r ++ y) := by
  induction p generalizing done name with
  | nil => exact absurd (directive_last h).2 not_suffix_self
  | cons t p ih =>
    rw [List.cons_append, directive] at h ⊢
    split at h
    · obtain ⟨rfl, rfl, rfl, hrest⟩ := Extent.closed.inj h
      rw [List.append_cancel_right hrest]
    · cases h
    · cases h
    · exact ih h

theorem declaration_swap {s : Progress} {name : Text}
    (h : declaration done s (p ++ x) = .closed name taken last (r ++ x)) :
    declaration done s (p ++ y) = .closed name taken last (r ++ y) := by
  induction p generalizing done s with
  | nil => exact absurd (declaration_last h).2 not_suffix_self
  | cons t p ih =>
    rw [List.cons_append, declaration] at h ⊢
    split at h
    · next hs =>
      obtain ⟨rfl, rfl, rfl, hrest⟩ := Extent.closed.inj h
      rw [if_pos hs, List.append_cancel_right hrest]
    · next hs =>
      rw [if_neg hs]
      split at h
      · cases h
      · next hb =>
        rw [if_neg hb]
        exact ih h

theorem extent_swap {name : Text} (h : extent keyword (p ++ x) = .closed name taken last (r ++ x)) :
    extent keyword (p ++ y) = .closed name taken last (r ++ y) := by
  have hahead := ahead_of_suffix (extent_last h).2 (extent_last h).1
  obtain ⟨t, behind, ht⟩ := hahead.exists_skipTrivia rfl
  unfold extent at h ⊢
  simp only [hahead.takeTrivia_append rfl, hahead.skipTrivia_append rfl, ht,
    List.cons_append] at h ⊢
  split at h
  · next hn =>
    rw [if_pos hn]
    exact directive_swap h
  · next hn =>
    rw [if_neg hn]
    exact declaration_swap (p := t :: behind) h

theorem read_swap (h : read lead keyword (p ++ x) = .read item (r ++ x)) :
    read lead keyword (p ++ y) = .read item (r ++ y) := by
  unfold read at h ⊢
  cases he : extent keyword (p ++ x) with
  | broken left =>
    rw [he] at h
    cases h
  | closed name taken last left =>
    rw [he] at h
    dsimp only at h
    split at h
    · cases h
    · next hn =>
      obtain ⟨rfl, rfl⟩ := Outcome.read.inj h
      rw [extent_swap he]
      exact if_neg hn

end Using

/-! ## Variables -/

namespace Variable

/-- The last token of a variable is a semicolon or a brace. -/
theorem extent_last {s s' : Progress} (h : extent done s ts = .closed s' taken rest) :
    ∃ t, t.kind ∈ [.punct .semicolon, .punct .rBrace] ∧ t :: rest <:+ ts := by
  fun_induction extent done s ts with
  | case1 => cases h
  | case2 => cases h
  | case3 done s t ts _ he =>
    obtain ⟨-, -, rfl⟩ := Extent.closed.inj h
    refine ⟨t, ?_, List.suffix_rfl⟩
    simp only [Progress.endsWith, Bool.or_eq_true, Bool.and_eq_true, beq_iff_eq] at he
    rcases he with he | he
    · simp [he.2]
    · simp [he.1.2]
  | case4 done s t ts _ _ ih =>
    obtain ⟨u, hu, hs⟩ := ih h
    exact ⟨u, hu, hs.trans (List.suffix_cons t ts)⟩

/-- Only behind a brace that closes the next token matters. -/
theorem Progress.endsWith_append (hk : k ∈ lookEnds) (s : Progress)
    (h : t.kind = .punct .rBrace → Ahead k ts) (us : List Token) :
    s.endsWith t.kind (ts ++ us) = s.endsWith t.kind ts := by
  by_cases ht : t.kind = .punct .rBrace
  · simp only [endsWith, continuesAfterBlock_append hk (h ht)]
  · simp only [endsWith, beq_false_of_ne ht, Bool.and_false, Bool.false_and, Bool.or_false]

theorem extent_swap (hk : k ∈ lookEnds) {s s' : Progress} (hg : Guarded k p r)
    (h : extent done s (p ++ x) = .closed s' taken (r ++ x)) :
    extent done s (p ++ y) = .closed s' taken (r ++ y) := by
  induction p generalizing done s with
  | nil =>
    obtain ⟨t, -, hs⟩ := extent_last h
    exact absurd hs not_suffix_self
  | cons t p ih =>
    have hrest : r <:+ p := by
      have hs := extent_rest_suffix done s (t :: p ++ x)
      rw [h] at hs
      obtain ⟨u, -, hu⟩ := extent_last h
      have hur : u :: r <:+ t :: p := suffix_append_self_iff.mp (show (u :: r) ++ x <:+ _ from hu)
      exact (List.suffix_cons_iff.mp hur).elim
        (fun heq => (List.cons.inj heq).2 ▸ List.suffix_rfl) (List.suffix_cons u r).trans
    have hends : ∀ us, s.endsWith t.kind (p ++ us) = s.endsWith t.kind p :=
      Progress.endsWith_append hk s fun ht =>
        hg.behind List.suffix_rfl hrest ht (by decide)
    rw [List.cons_append, extent, hends] at h ⊢
    split at h
    · cases h
    · next hn =>
      rw [if_neg hn]
      split at h
      · next he =>
        obtain ⟨rfl, rfl, hrest⟩ := Extent.closed.inj h
        rw [if_pos he, List.append_cancel_right hrest]
      · next he =>
        rw [if_neg he]
        exact ih hg.tail h

theorem read_swap (hk : k ∈ lookEnds) (hg : Guarded k p r)
    (h : read ds lead (p ++ x) = .read item (r ++ x)) :
    read ds lead (p ++ y) = .read item (r ++ y) := by
  unfold read at h ⊢
  cases he : extent [] .start (p ++ x) with
  | broken left =>
    rw [he] at h
    cases h
  | closed s taken left =>
    rw [he] at h
    dsimp only at h
    split at h
    · cases h
    · next hname =>
      obtain ⟨rfl, rfl⟩ := Outcome.read.inj h
      rw [extent_swap hk hg he]
      dsimp only
      rw [hname]

end Variable

/-! ## Functions -/

namespace Function

/-- The symbol of an operator that ends before other tokens. -/
theorem operatorSymbol_swap (hk : k ∈ lookEnds) (ha : Ahead k p)
    (h : operatorSymbol (p ++ x) = (taken, m ++ x)) (hm : m ≠ []) :
    operatorSymbol (p ++ y) = (taken, m ++ y) := by
  have hne : (.punct .lParen : Kind) ≠ k := by
    rintro rfl
    simp [lookEnds] at hk
  unfold operatorSymbol at h ⊢
  rw [ha.headKinds_append hne] at h ⊢
  split at h
  · next hcall =>
    rw [if_pos hcall]
    rcases p with _ | ⟨o, _ | ⟨c, behind⟩⟩
    · exact absurd rfl ha.ne_nil
    · simp [Tokens.headKind] at hcall
    · obtain ⟨rfl, hrest⟩ := Prod.mk.inj h
      rw [← List.append_cancel_right hrest]
      rfl
  · next hcall =>
    rw [if_neg hcall]
    exact Tokens.upTo_swap h hm

theorem operatorTokens_swap (hk : k ∈ lookEnds) (ha : Ahead k p) {op : Token}
    (h : (operatorTokens op (p ++ x)).2 = q ++ x) (hq : q ≠ []) :
    operatorTokens op (p ++ y) = ((operatorTokens op (p ++ x)).1, q ++ y) := by
  have htrivia := Ahead.isTrivia_of_lookEnds hk
  simp only [operatorTokens, ha.takeSpace_append htrivia, ha.skipSpace_append htrivia] at h ⊢
  rw [operatorSymbol_swap hk (ha.skipSpace htrivia) (Prod.ext rfl h) hq]

/-- The last token of a function without a body is its semicolon. -/
theorem extent_last {s s' : Progress} (h : extent done s ts = .declared s' taken rest) :
    ∃ t, t.kind = .punct .semicolon ∧ t :: rest <:+ ts := by
  fun_induction extent done s ts with
  | case1 => cases h
  | case2 => cases h
  | case3 done s t ts _ hk =>
    obtain ⟨-, -, rfl⟩ := Extent.declared.inj h
    exact ⟨t, beq_iff_eq.mp (Bool.and_eq_true_iff.mp hk).2, List.suffix_rfl⟩
  | case4 => cases h
  | case5 done s t ts _ _ _ _ block rest hblock ih =>
    obtain ⟨u, hu, hs⟩ := ih h
    exact ⟨u, hu, hs.trans (Tokens.block?_suffix hblock)⟩
  | case6 => cases h
  | case7 done s t ts _ _ _ _ ih =>
    obtain ⟨u, hu, hs⟩ := ih h
    exact ⟨u, hu, (hs.trans (operatorTokens_suffix t ts)).trans (List.suffix_cons t ts)⟩
  | case8 done s t ts _ _ _ _ ih =>
    obtain ⟨u, hu, hs⟩ := ih h
    exact ⟨u, hu, hs.trans (List.suffix_cons t ts)⟩

/-- An end of a head that leaves other tokens. -/
def Extent.leaving (rest : List Token) : Extent → Extent
  | .declared s taken _ => .declared s taken rest
  | .defined s taken _ => .defined s taken rest
  | .broken _ => .broken rest
  | .unclosed brace => .unclosed brace

/-- A head ends within some tokens: a brace that comes next is one of them. -/
def Extent.Within (m x : List Token) : Extent → Prop
  | .declared s _ rest => s.name ≠ none ∧ rest = m ++ x
  | .defined s _ rest => s.name ≠ none ∧ rest = m ++ x ∧ m ≠ []
  | .broken _ | .unclosed _ => False

theorem Extent.Within.rest_eq {e : Extent} (h : e.Within m x) : e.rest = m ++ x := by
  cases e with
  | declared => exact h.2
  | defined => exact h.2.1
  | broken => exact h.elim
  | unclosed => exact h.elim

/-- No head ends within no tokens. -/
theorem not_within_nil {s : Progress} : ¬(extent done s x).Within m x := by
  intro h
  have hsuffix := extent_rest_suffix done s x
  rw [h.rest_eq] at hsuffix
  obtain rfl : m = [] :=
    List.suffix_nil.mp (suffix_append_self_iff.mp (show m ++ x <:+ [] ++ x from hsuffix))
  cases he : extent done s x with
  | declared s' taken rest =>
    rw [he] at h
    obtain ⟨t, -, ht⟩ := extent_last he
    rw [h.2] at ht
    exact not_suffix_self ht
  | defined s' taken rest =>
    rw [he] at h
    exact h.2.2 rfl
  | broken =>
    rw [he] at h
    exact h
  | unclosed =>
    rw [he] at h
    exact h

/-- A head that ends within some tokens is read from these and what they end with. -/
theorem exists_of_within {s : Progress} (h : (extent done s ts).Within m x) :
    ∃ q, ts = q ++ x ∧ m <:+ q :=
  exists_of_suffix (h.rest_eq ▸ extent_rest_suffix done s ts)

/-- The block of a member initializer, behind which a head goes on. -/
theorem exists_block_swap {s : Progress} (hb : Tokens.block? (p ++ x) = some (taken, ts))
    (h : (extent done s ts).Within m x) :
    ∃ q, ts = q ++ x ∧ q <:+ p ∧ q.length < p.length ∧
      ∀ y, Tokens.block? (p ++ y) = some (taken, q ++ y) := by
  obtain ⟨q, rfl, -⟩ := exists_of_within h
  refine ⟨q, rfl, suffix_append_self_iff.mp (Tokens.block?_suffix hb), ?_, fun y =>
    Tokens.block?_swap hb⟩
  have hlt := Tokens.block?_length_lt hb
  simp only [List.length_append] at hlt
  omega

/-- The symbol of an operator, behind which a head goes on. -/
theorem exists_operator_swap {s : Progress} {op : Token}
    (h : (extent done s (operatorTokens op (p ++ x)).2).Within m x) :
    ∃ q, (operatorTokens op (p ++ x)).2 = q ++ x ∧ m <:+ q ∧ q <:+ p ∧ ∀ {k y},
      k ∈ lookEnds → Ahead k p →
        operatorTokens op (p ++ y) = ((operatorTokens op (p ++ x)).1, q ++ y) := by
  obtain ⟨q, hq, hmq⟩ := exists_of_within h
  have hne : q ≠ [] := by
    rintro rfl
    rw [hq] at h
    exact not_within_nil h
  exact ⟨q, hq, hmq, suffix_append_self_iff.mp (hq ▸ operatorTokens_suffix op (p ++ x)),
    fun hk ha => operatorTokens_swap hk ha hq hne⟩

theorem extent_swap (hk : k ∈ lookEnds) {s : Progress} {e : Extent} (hg : Guarded k p r)
    (he : extent done s (p ++ x) = e) (h : e.Within m x) (hr : r <:+ m) :
    extent done s (p ++ y) = e.leaving (m ++ y) := by
  induction hn : p.length using Nat.strongRecOn generalizing done s p with
  | ind n ih =>
    subst hn
    cases p with
    | nil => exact absurd (he ▸ h) not_within_nil
    | cons t p =>
      rw [List.cons_append, extent] at he ⊢
      split at he
      · subst he
        exact h.elim
      next hrefuses =>
      rw [if_neg hrefuses]
      split at he
      · next hs =>
        subst he
        rw [if_pos hs, List.append_cancel_right h.2]
        rfl
      next hs =>
      rw [if_neg hs]
      split at he
      · next hb =>
        rw [if_pos hb]
        split at he
        · next hi =>
          rw [if_pos hi]
          split at he
          · subst he
            exact h.elim
          · next block rest hblock =>
            obtain ⟨q, rfl, hq, hlt, hsame⟩ := exists_block_swap (p := t :: p) hblock (he ▸ h)
            rw [show Tokens.block? (t :: (p ++ y)) = _ from hsame y]
            exact ih _ hlt (hg.suffix hq) he rfl
        · next hi =>
          subst he
          have hsame : t :: p = _ := List.append_cancel_right h.2.1
          rw [if_neg hi, ← hsame]
          rfl
      next hb =>
      rw [if_neg hb]
      split at he
      · next ho =>
        rw [if_pos ho]
        have hop : t.kind = .keyword .operatorKw := by
          simpa using (Bool.and_eq_true_iff.mp ho).2
        obtain ⟨q, hq, hmq, hqp, hsame⟩ := exists_operator_swap (he ▸ h)
        have hahead := hg.behind List.suffix_rfl ((hr.trans hmq).trans hqp) hop (by decide)
        rw [hq] at he
        rw [hsame hk hahead]
        exact ih _ (Nat.lt_succ_of_le hqp.length_le) (hg.tail.suffix hqp) he rfl
      · next ho =>
        rw [if_neg ho]
        obtain ⟨q, hq, hmq⟩ := exists_of_within (he ▸ h)
        have hmp : m <:+ p := List.append_cancel_right hq ▸ hmq
        have hread : ∀ us, s.read t (p ++ us) = s.read t p :=
          Progress.read_append hk s fun ht => by
            rcases ht with ht | ht
            · exact hg.behind List.suffix_rfl (hr.trans hmp) ht (by decide)
            · exact hg.behind List.suffix_rfl (hr.trans hmp) ht (by decide)
        rw [hread] at he ⊢
        exact ih _ (Nat.lt_succ_self _) hg.tail he rfl

theorem read_swap (hk : k ∈ lookEnds) (hg : Guarded k p r)
    (h : read ds lead (p ++ x) = .read item (r ++ x)) :
    read ds lead (p ++ y) = .read item (r ++ y) := by
  unfold read at h ⊢
  cases he : extent [] .start (p ++ x) with
  | broken left =>
    rw [he] at h
    cases h
  | unclosed brace =>
    rw [he] at h
    cases h
  | declared s taken left =>
    rw [he] at h
    dsimp only at h
    split at h
    · cases h
    · next hname =>
      obtain ⟨rfl, rfl⟩ := Outcome.read.inj h
      rw [extent_swap hk hg he ⟨by simp [hname], rfl⟩ List.suffix_rfl]
      dsimp only [Extent.leaving]
      rw [hname]
  | defined s taken left =>
    rw [he] at h
    dsimp only at h
    split at h
    · cases h
    · next hname =>
      cases hb : Tokens.block? left with
      | none =>
        rw [hb] at h
        cases h
      | some found =>
        obtain ⟨block, after⟩ := found
        rw [hb] at h
        obtain ⟨rfl, rfl⟩ := Outcome.read.inj h
        obtain ⟨m, rfl, hrm⟩ := exists_of_suffix (Tokens.block?_suffix hb)
        have hne : m ≠ [] := by
          rintro rfl
          have hlt := Tokens.block?_length_lt hb
          simp only [List.nil_append, List.length_append] at hlt
          omega
        rw [extent_swap hk hg he ⟨by simp [hname], rfl, hne⟩ hrm]
        dsimp only [Extent.leaving]
        rw [hname, Tokens.block?_swap hb]

end Function

/-! ## Functions and variables -/

namespace Declaration

/-- The probe for a function says the same, wherever a declaration is read in front of some
tokens. -/
def ProbedAlike (p r x y : List Token) : Prop :=
  ∀ q ds lead item m, q <:+ p → read ds lead (q ++ x) = .read item (m ++ x) → r <:+ m →
    isFunction (q ++ y) = isFunction (q ++ x)

namespace ProbedAlike

theorem suffix (h : ProbedAlike p r x y) (hs : q <:+ p) : ProbedAlike q r x y :=
  fun q' ds lead item m hq => h q' ds lead item m (hq.trans hs)

theorem leave (h : ProbedAlike p r x y) (hs : r <:+ m) : ProbedAlike p m x y :=
  fun q ds lead item m' hq hread hm => h q ds lead item m' hq hread (hs.trans hm)

end ProbedAlike

theorem read_swap (hk : k ∈ lookEnds) (hg : Guarded k p r) (hp : ProbedAlike p r x y)
    (h : read ds lead (p ++ x) = .read item (r ++ x)) :
    read ds lead (p ++ y) = .read item (r ++ y) := by
  have hsame := hp p ds lead item r List.suffix_rfl h List.suffix_rfl
  unfold read at h ⊢
  rw [hsame]
  split at h
  · next hf =>
    rw [if_pos hf]
    exact Function.read_swap hk hg h
  · next hf =>
    rw [if_neg hf]
    exact Variable.read_swap hk hg h

end Declaration
end HeaderOutline.Construct
