import HeaderOutline.Construct.Reading
import HeaderOutline.Proofs.Cover
import HeaderOutline.Proofs.Swap.Directive
import HeaderOutline.Proofs.Swap.Head

/-! # Constructs with other tokens behind

What is read from `p ++ x` and leaves `r ++ x` is read from `p ++ y` as well, if what is looked at
beyond the construct is the same there (`Construct.read_swap`): behind each token that it takes,
semicolons aside, one is ahead at which every look ahead ends, and the probe for a function says the
same.
-/
namespace HeaderOutline.Construct

open List (suffix_append_self_iff)
open Tokens (Ahead Guarded lookEnds)

variable {k : Kind} {t : Token} {p r x y : List Token} {ds : Definitions} {merge : Bool}
  {item : Item}

theorem readWord_swap (hk : k ∈ lookEnds) (hg : Guarded k (t :: p) r) (ha : Ahead k p)
    (hp : Declaration.ProbedAlike (t :: p) r x y) (hx : x = [] ∨ r ≠ [])
    (hr : readWord ds t (p ++ x) = .read item (r ++ x)) :
    readWord ds t (p ++ y) = .read item (r ++ y) := by
  unfold readWord at hr ⊢
  by_cases hd : ds.contains t.text = true
  · rw [if_pos hd, exportedHead?_append hk ha] at hr ⊢
    cases he : exportedHead? p with
    | none =>
      rw [he] at hr
      exact Declaration.read_swap (p := t :: p) hk hg hp hr
    | some found =>
      obtain ⟨u, behind⟩ := found
      have hbehind := ahead_exportedHead? hk ha he
      have hs : u :: behind <:+ t :: p :=
        (cons_suffix_of_exportedHead? he).trans (List.suffix_cons t p)
      rw [he] at hr
      dsimp only [Option.map_some, Prod.map_apply, id] at hr ⊢
      split at hr
      · next hn =>
        rw [if_pos hn]
        exact Enum.read_swap hk (hg.suffix hs) hbehind (hp.suffix hs) hx hr
      · next hn =>
        rw [if_neg hn]
        exact Class.read_swap hk (hg.suffix hs) hbehind (hp.suffix hs) hx hr
  · rw [if_neg hd] at hr ⊢
    exact Declaration.read_swap (p := t :: p) hk hg hp hr

theorem read_of_semicolon (ds : Definitions) (merge : Bool) (rest : List Token)
    (hk : t.kind = .punct .semicolon) : read ds merge t rest = .read .nothing rest := by
  unfold read
  simp only [hk]

/-- **What is read is read as well with other tokens behind.** -/
theorem read_swap (hk : k ∈ lookEnds) (ht : t.kind.isTrivia = false)
    (hg : Guarded k (t :: p) r) (hp : Declaration.ProbedAlike (t :: p) r x y)
    (hx : x = [] ∨ r ≠ []) (hh : t.kind = .punct .hash → r ≠ [])
    (hr : read ds merge t (p ++ x) = .read item (r ++ x)) :
    read ds merge t (p ++ y) = .read item (r ++ y) := by
  by_cases hsemicolon : t.kind = .punct .semicolon
  · rw [read_of_semicolon ds merge _ hsemicolon] at hr ⊢
    obtain ⟨rfl, hrest⟩ := Outcome.read.inj hr
    rw [List.append_cancel_right hrest]
  · have hrp : r <:+ p := by
      have hs := read_rest_suffix ds merge t (p ++ x)
      rw [hr] at hs
      exact suffix_append_self_iff.mp hs
    have ha : Ahead k p := hg t p List.suffix_rfl hrp ht hsemicolon
    have htrivia := Ahead.isTrivia_of_lookEnds hk
    unfold read at hr ⊢
    generalize hkind : t.kind = kind at hr ⊢
    split at hr
    · exact Directive.read_swap hr (hh hkind)
    · exact Comment.read_swap hk ha hr
    · exact Comment.read_swap hk ha hr
    · exact Comment.read_swap hk ha hr
    · exact Template.read_swap hk hg ha hp hx hr
    · exact Namespace.read_swap hk ha (fun h => by rw [hkind] at h; cases h) hr
    · rw [ha.nextKind_append htrivia] at hr ⊢
      split at hr
      · next hn =>
        rw [if_pos hn]
        exact Namespace.read_swap hk ha (fun _ => beq_iff_eq.mp hn) hr
      · next hn =>
        rw [if_neg hn]
        exact Declaration.read_swap (p := t :: p) hk hg hp hr
    · exact Class.read_swap hk hg ha hp hx hr
    · exact Class.read_swap hk hg ha hp hx hr
    · exact Class.read_swap hk hg ha hp hx hr
    · exact Enum.read_swap hk hg ha hp hx hr
    · exact Typedef.read_swap hr
    · exact Using.read_swap hr
    · exact readAccess_swap hk ha hr
    · exact readAccess_swap hk ha hr
    · exact readAccess_swap hk ha hr
    · exact readClose_swap ha hr
    · exact absurd hkind hsemicolon
    · rw [Namespace.afterLinkage?_append hk ha] at hr ⊢
      cases hm : Namespace.afterLinkage? p with
      | some members =>
        rw [hm] at hr
        obtain ⟨rfl, hrest⟩ := Outcome.read.inj hr
        rw [← List.append_cancel_right hrest]
        rfl
      | none =>
        rw [hm] at hr
        exact Declaration.read_swap (p := t :: p) hk hg hp hr
    · exact readWord_swap hk hg ha hp hx hr
    · exact Declaration.read_swap (p := t :: p) hk hg hp hr

end HeaderOutline.Construct
