import HeaderOutline.Proofs.Policy
import HeaderOutline.Proofs.Swap.Construct
import HeaderOutline.Proofs.Swap.Probe

/-! # Readings with other tokens behind a hash sign

No construct looks beyond the hash sign of a directive behind it.  So a clean reading comes to that
directive in the same way whatever stands behind its hash sign, and of two headers that are the same
up to there, and in which the directive is read alike, one is read as the other
(`Building.Reaches.run_swap`).
-/
namespace HeaderOutline.Building

open Construct (Declaration.ProbedAlike)
open Tokens (Ahead Guarded)

variable {policy : Recovery.Policy} {merge : Bool} {size size' : Nat} {b b' b₁ done : Building}
  {hash : Token} {p x y z ts us : List Token}

/-- Which macros an item defines does not depend on what has been built. -/
theorem definitions_add_congr (h : b'.definitions = b.definitions) (item : Item) :
    (b'.add size' item).definitions = (b.add size item).definitions := by
  cases item with
  | close brace =>
    simp only [add]
    split <;> split <;> exact h
  | definition m d => exact congrArg (·.define m) h
  | _ => exact h

/-- **One pass in front of a hash sign** is the same whatever stands behind that. -/
theorem exists_pass_swap {t : Token} {behind rest : List Token} {item : Item}
    (front : Tokens.skipTrivia (p ++ x) = t :: behind)
    (ho : Construct.read b.definitions merge t behind = .read item rest)
    (hleft : [hash] ++ x <:+ rest) (hh : hash.kind = .punct .hash)
    (hp : ∀ y, Declaration.ProbedAlike p [hash] x y) :
    ∃ r, rest = r ++ x ∧ r <:+ p ∧ ∀ {policy : Recovery.Policy} {b' : Building} {size' : Nat} y,
      b'.definitions = b.definitions → b'.run policy merge size' (p ++ y)
        = (b'.add size' item).run policy merge size' (r ++ y) := by
  have hplain : (.punct .hash : Kind).isTrivia = false := rfl
  -- what is read, and what it leaves, ends with the tokens from the hash sign on
  have hrest : rest <:+ behind := by
    have hs := Construct.read_rest_suffix b.definitions merge t behind
    rwa [ho] at hs
  obtain ⟨r, rfl, hr⟩ := Tokens.exists_of_suffix hleft
  obtain ⟨q, rfl, hq⟩ := Tokens.exists_of_suffix hrest
  have hfront : t :: q ++ x <:+ p ++ x := by
    have hs := Tokens.skipTrivia_suffix (p ++ x)
    rwa [front] at hs
  have hs : t :: q <:+ p := List.suffix_append_self_iff.mp hfront
  have ha : Ahead (.punct .hash) r := ⟨hash, hr.mem List.mem_cons_self, hh⟩
  have hall : r <:+ p := hq.trans ((List.suffix_cons t q).trans hs)
  have hskip := (ha.of_suffix hall).skipTrivia_append hplain
  have htq : Tokens.skipTrivia p = t :: q := by
    rw [hskip] at front
    exact List.append_cancel_right front
  refine ⟨r, rfl, hall, fun {policy b' size'} y hb => ?_⟩
  have ht := Tokens.isTrivia_of_skipTrivia front
  have hread := Construct.read_swap Tokens.hash_mem_lookEnds ht (Guarded.of_ahead ha)
    (((hp y).suffix hs).leave hr) (.inr ha.ne_nil) (fun _ => ha.ne_nil) ho
  have hnext : Tokens.skipTrivia (p ++ y) = t :: (q ++ y) := by rw [hskip y, htq]; rfl
  rw [run_of_cons hnext, hb, hread]
  rfl

/-- **A clean reading comes to a hash sign** whatever stands behind that. -/
theorem Reaches.exists_swap (hr : b.Reaches policy merge size ts b₁ us) (hts : ts = p ++ x)
    (hus : Tokens.skipTrivia us = hash :: x) (hh : hash.kind = .punct .hash)
    (hrun : b.run policy merge size ts = .ok done) (hd : done.outline.diagnostics = #[])
    (hp : ∀ y, Declaration.ProbedAlike p [hash] x y) (hb : b'.definitions = b.definitions) :
    ∃ b₂ : Building, ∀ y,
      b'.run policy merge size' (p ++ y) = b₂.run policy merge size' (hash :: y) := by
  induction hr generalizing b' p with
  | refl b ts =>
    subst hts
    have hplain : (.punct .hash : Kind).isTrivia = false := rfl
    have hsuffix : [hash] ++ x <:+ p ++ x := by
      have hs := Tokens.skipTrivia_suffix (p ++ x)
      rwa [hus] at hs
    have ha : Ahead (.punct .hash) p :=
      ⟨hash, (List.suffix_append_self_iff.mp hsuffix).mem List.mem_cons_self, hh⟩
    have hfront : Tokens.skipTrivia p = [hash] := by
      rw [ha.skipTrivia_append hplain] at hus
      exact List.append_cancel_right hus
    refine ⟨b', fun y => ?_⟩
    rw [← run_skipTrivia, ha.skipTrivia_append hplain, hfront]
    rfl
  | @pass b b₁ b₂ ts behind us t front added more ih =>
    subst hts
    obtain ⟨item, rest, ho, hmore⟩ := exists_read_of_run front hrun hd
    have hreached := more.suffix
    rw [ho] at ih added hreached
    obtain rfl := Except.ok.inj added
    have hleft : [hash] ++ x <:+ rest := by
      have hs := (Tokens.skipTrivia_suffix us).trans hreached
      rwa [hus] at hs
    obtain ⟨r, rfl, hall, hpass⟩ := exists_pass_swap front ho hleft hh hp
    obtain ⟨b₃, hb₃⟩ := ih rfl hus hmore (fun y => (hp y).suffix hall)
      (definitions_add_congr hb item)
    exact ⟨b₃, fun y => (hpass y hb).trans (hb₃ y)⟩

/-- **Behind the hash sign** it only matters how the directive is read. -/
theorem Reaches.run_swap (hr : b.Reaches policy merge size (p ++ x) b₁ us)
    (hus : Tokens.skipTrivia us = hash :: x) (hh : hash.kind = .punct .hash)
    (hrun : b.run policy merge size (p ++ x) = .ok done) (hd : done.outline.diagnostics = #[])
    (hp : ∀ y, Declaration.ProbedAlike p [hash] x y) (hb : b'.definitions = b.definitions)
    (hread : Construct.Directive.read hash y = Construct.Directive.read hash z) :
    b'.run policy merge size' (p ++ y) = b'.run policy merge size' (p ++ z) := by
  obtain ⟨b₂, hb₂⟩ : ∃ b₂ : Building, ∀ y, b'.run policy merge size' (p ++ y)
      = b₂.run policy merge size' (hash :: y) := hr.exists_swap rfl hus hh hrun hd hp hb
  have hnext : ∀ y, Tokens.skipTrivia (hash :: y) = hash :: y := fun y =>
    Tokens.skipTrivia_of_not (by rw [hh]; rfl)
  have hsame : ∀ y, Construct.read b₂.definitions merge hash y
      = Construct.Directive.read hash y := by
    intro y
    unfold Construct.read
    simp only [hh]
  rw [hb₂, hb₂, run_of_cons (hnext y), run_of_cons (hnext z), hsame, hsame, hread]

end HeaderOutline.Building
