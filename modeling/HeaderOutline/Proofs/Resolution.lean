import HeaderOutline.Definitions
import Mathlib.Data.List.Perm.Subperm

/-! # What a macro resolves to

A chain of macros is followed up to a name that has come up before.  The names on the way are
different ones and all of them are defined, so there are no more of them than there are macros:
the bound on the number of steps is never met, and any larger bound gives the same
(`Definitions.resolve_eq_follow`).

Hence a macro makes no difference to the chains that do not come through it: two tables that agree
on some names, in whose definitions no other names come up, resolve those names alike
(`Definitions.Agree.resolve_eq`).
-/
namespace HeaderOutline.Definitions

variable {ds ds' : Definitions} {name : Text} {seen : List Text}

/-- A name is defined if it is the name of one of the definitions. -/
theorem mem_names_of_contains (h : ds.contains name = true) :
    name ∈ ds.entries.map Definition.name := by
  obtain ⟨d, hd⟩ := Option.isSome_iff_exists.mp h
  have hname := List.find?_some hd
  exact List.mem_map.mpr ⟨d, List.mem_of_find?_eq_some hd, eq_of_beq hname⟩

/-- Different names that are all defined are at most as many as there are definitions. -/
theorem length_le_size (hn : seen.Nodup) (hs : ∀ x ∈ seen, ds.contains x = true) :
    seen.length ≤ ds.size := by
  have hsub : seen ⊆ ds.entries.map Definition.name := fun x hx => mem_names_of_contains (hs x hx)
  have hle := (hn.subperm hsub).length_le
  rwa [List.length_map] at hle

/-- As long as more steps may still be made than there are names left, their number makes no
difference. -/
theorem follow_eq_follow {n m : Nat} (hn : seen.Nodup) (hs : ∀ x ∈ seen, ds.contains x = true)
    (hle : ds.size < n + seen.length) (hle' : ds.size < m + seen.length) :
    ds.follow n seen name = ds.follow m seen name := by
  have hsize := length_le_size hn hs
  induction n generalizing m seen name with
  | zero => omega
  | succ n ih =>
    obtain ⟨m, rfl⟩ : ∃ k, m = k + 1 := ⟨m - 1, by omega⟩
    unfold follow
    by_cases hseen : seen.contains name = true
    · rw [if_pos hseen, if_pos hseen]
    · rw [if_neg hseen, if_neg hseen]
      cases hd : ds.get? name with
      | none => rfl
      | some d =>
        -- the name is a new one, so that one name less is left
        have hnew : (name :: seen).Nodup := List.nodup_cons.mpr ⟨by simpa using hseen, hn⟩
        have hdefined : ∀ x ∈ name :: seen, ds.contains x = true := by
          intro x hx
          rcases List.mem_cons.mp hx with rfl | hx
          · rw [contains, hd]
            rfl
          · exact hs x hx
        have hlength : (name :: seen).length = seen.length + 1 := rfl
        have hmore : ds.follow n (name :: seen) d.value = ds.follow m (name :: seen) d.value :=
          ih hnew hdefined (by omega) (by omega) (length_le_size hnew hdefined)
        simp only [hmore]

/-- **A name resolves alike** with any larger bound on the number of steps. -/
theorem resolve_eq_follow {n : Nat} (h : ds.size < n) (name : Text) :
    ds.resolve name = ds.follow n [] name :=
  follow_eq_follow List.nodup_nil (by simp) (Nat.lt_succ_self _) h

/-- Two tables agree on the names that are not foreign, and none of these stands for a foreign
one. -/
structure Agree (foreign : Text → Prop) (ds ds' : Definitions) : Prop where
  get? : ∀ name, ¬foreign name → ds.get? name = ds'.get? name
  value : ∀ name d, ¬foreign name → ds.get? name = some d → ¬foreign d.value

namespace Agree

variable {foreign : Text → Prop}

theorem contains_eq (h : Agree foreign ds ds') (hn : ¬foreign name) :
    ds.contains name = ds'.contains name :=
  congrArg Option.isSome (h.get? name hn)

/-- Tables that agree are followed alike. -/
theorem follow_eq (h : Agree foreign ds ds') (n : Nat) (seen : List Text) (hn : ¬foreign name) :
    ds.follow n seen name = ds'.follow n seen name := by
  induction n generalizing seen name with
  | zero => rfl
  | succ n ih =>
    unfold follow
    rw [← h.get? name hn]
    cases hd : ds.get? name with
    | none => rfl
    | some d =>
      have hvalue := h.value name d hn hd
      simp only [h.contains_eq hvalue, ih (name :: seen) hvalue]

/-- **Tables that agree resolve names alike**, whatever other macros there are. -/
theorem resolve_eq (h : Agree foreign ds ds') (hn : ¬foreign name) :
    ds.resolve name = ds'.resolve name := by
  have hlt : ds.size < max ds.size ds'.size + 1 := by omega
  have hlt' : ds'.size < max ds.size ds'.size + 1 := by omega
  rw [resolve_eq_follow hlt, resolve_eq_follow hlt', h.follow_eq _ [] hn]

/-- Tables that agree go on doing so with one more macro, unless that stands for something
foreign. -/
theorem define (h : Agree foreign ds ds') {d : Definition} (hvalue : ¬foreign d.value) :
    Agree foreign (ds.define d) (ds'.define d) := by
  constructor
  · intro name hn
    rw [get?_define, get?_define, h.get? name hn]
  · intro name e hn he
    rw [get?_define] at he
    split at he
    · obtain rfl := Option.some.inj he
      exact hvalue
    · exact h.value name e hn he

/-- A foreign macro makes no difference. -/
theorem define_foreign (h : Agree foreign ds ds') {d : Definition} (hname : foreign d.name) :
    Agree foreign (ds.define d) ds' := by
  have hget : ∀ name, ¬foreign name → (ds.define d).get? name = ds.get? name := by
    intro name hn
    rw [get?_define, if_neg]
    rintro rfl
    exact hn hname
  constructor
  · intro name hn
    rw [hget name hn, h.get? name hn]
  · intro name e hn he
    rw [hget name hn] at he
    exact h.value name e hn he

theorem empty (foreign : Text → Prop) : Agree foreign .empty .empty :=
  ⟨fun _ _ => rfl, fun _ _ _ h => by cases h⟩

end Agree
end HeaderOutline.Definitions
