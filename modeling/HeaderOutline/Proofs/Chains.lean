import HeaderOutline.Proofs.Resolution
import Mathlib.Logic.Relation

/-! # Chains of macros

A macro without parameters stands for its value (`Definitions.StandsFor`), and where that is the
name of a macro in turn, a chain is followed on.  Whether it ends is not clear at once, since the
definitions may form any graph.  So the following of a chain is described without a bound on its
steps (`Definitions.Settles`), and the bound that `Definitions.resolve` has is shown to be met by
no chain (`Definitions.settles_follow`).

A chain that does not end at a name without a value comes back to a name that it has come
through; from there on it goes round in a cycle (`Definitions.Walk.cycle`).  Therefore a name
that something has resolved to resolves to itself (`Definitions.resolve_ends_chain`).
-/
namespace HeaderOutline.Definitions

open Relation (ReflTransGen TransGen)

/-- A name of a macro without parameters stands for the value of the macro. -/
def StandsFor (ds : Definitions) (name value : Text) : Prop :=
  ∃ d, ds.get? name = some d ∧ d.isFunctionLike = false ∧ d.value = value

/-- A name that stands for nothing else: it is not defined, or its macro takes parameters. -/
def IsFinal (ds : Definitions) (name : Text) : Prop :=
  ∀ d, ds.get? name = some d → d.isFunctionLike = true

/-- Following a chain from a name on, behind the names seen so far, ends with a result.  There is
one rule for each way to go on, and no bound on the number of steps. -/
inductive Settles (ds : Definitions) : (seen : List Text) → (name result : Text) → Prop
  | again {seen : List Text} {name : Text} (old : name ∈ seen) : Settles ds seen name name
  | final {seen : List Text} {name : Text} (new : name ∉ seen) (stop : ds.IsFinal name) :
    Settles ds seen name name
  | value {seen : List Text} {name value : Text} (new : name ∉ seen)
    (step : ds.StandsFor name value) (stop : ds.contains value = false) :
    Settles ds seen name value
  | chain {seen : List Text} {name value result : Text} (new : name ∉ seen)
    (step : ds.StandsFor name value) (go : ds.contains value = true)
    (more : Settles ds (name :: seen) value result) : Settles ds seen name result

variable {ds : Definitions} {a b name value result : Text} {seen : List Text}

/-! ## One step -/

theorem StandsFor.contains (h : ds.StandsFor name value) : ds.contains name = true := by
  obtain ⟨d, hd, -⟩ := h
  rw [Definitions.contains, hd]
  rfl

theorem StandsFor.not_isFinal (h : ds.StandsFor name value) : ¬ds.IsFinal name := by
  obtain ⟨d, hd, hf, -⟩ := h
  intro hfinal
  cases hf.symm.trans (hfinal d hd)

theorem StandsFor.unique (h : ds.StandsFor name a) (h' : ds.StandsFor name b) : a = b := by
  obtain ⟨d, hd, -, rfl⟩ := h
  obtain ⟨d', hd', -, rfl⟩ := h'
  rw [Option.some.inj (hd.symm.trans hd')]

theorem isFinal_of_not_contains (h : ds.contains name = false) : ds.IsFinal name := by
  intro d hd
  rw [contains, hd] at h
  cases h

theorem isFinal_or_standsFor (ds : Definitions) (name : Text) :
    ds.IsFinal name ∨ ∃ value, ds.StandsFor name value := by
  cases hd : ds.get? name with
  | none => exact .inl fun d h => by cases hd.symm.trans h
  | some d =>
    cases hf : d.isFunctionLike with
    | true =>
      left
      intro e he
      obtain rfl := Option.some.inj (hd.symm.trans he)
      exact hf
    | false => exact .inr ⟨d.value, d, hd, hf, rfl⟩

/-! ## The bound on the number of steps -/

theorem follow_of_mem (n : Nat) (h : name ∈ seen) : ds.follow n seen name = name := by
  cases n with
  | zero => rfl
  | succ n => rw [follow, if_pos (List.contains_iff_mem.mpr h)]

theorem follow_of_isFinal (n : Nat) (seen : List Text) (h : ds.IsFinal name) :
    ds.follow n seen name = name := by
  cases n with
  | zero => rfl
  | succ n =>
    unfold follow
    split
    · rfl
    · split
      · rfl
      · next d hd => rw [if_pos (h d hd)]

theorem follow_of_standsFor (n : Nat) (hn : name ∉ seen) (h : ds.StandsFor name value) :
    ds.follow (n + 1) seen name =
      if ds.contains value then ds.follow n (name :: seen) value else value := by
  obtain ⟨d, hd, hf, rfl⟩ := h
  rw [follow, if_neg fun hc => hn (List.contains_iff_mem.mp hc), hd]
  simp only [hf, Bool.false_eq_true, if_false]

/-- **A chain ends** before its steps are used up, if more of them are left than there are names
that have not come up. -/
theorem settles_follow {n : Nat} (hn : seen.Nodup) (hs : ∀ x ∈ seen, ds.contains x = true)
    (hle : ds.size < n + seen.length) (name : Text) :
    ds.Settles seen name (ds.follow n seen name) := by
  induction n generalizing seen name with
  | zero =>
    have hsize := length_le_size hn hs
    omega
  | succ n ih =>
    by_cases hold : name ∈ seen
    · rw [follow_of_mem _ hold]
      exact .again hold
    · rcases isFinal_or_standsFor ds name with hfinal | ⟨value, hstep⟩
      · rw [follow_of_isFinal _ _ hfinal]
        exact .final hold hfinal
      · rw [follow_of_standsFor _ hold hstep]
        cases hc : ds.contains value with
        | false => exact .value hold hstep hc
        | true =>
          refine .chain hold hstep hc (ih (List.nodup_cons.mpr ⟨hold, hn⟩) ?_ ?_ value)
          · intro x hx
            rcases List.mem_cons.mp hx with rfl | hx
            · exact hstep.contains
            · exact hs x hx
          · rw [List.length_cons]
            omega

theorem settles_resolve (ds : Definitions) (name : Text) :
    ds.Settles [] name (ds.resolve name) :=
  settles_follow List.nodup_nil (fun _ h => absurd h List.not_mem_nil) (Nat.lt_succ_self _) name

/-- A chain ends in one way. -/
theorem Settles.unique (h : ds.Settles seen name a) (h' : ds.Settles seen name b) : a = b := by
  induction h with
  | again old =>
    cases h' with
    | again | final => rfl
    | value new | chain new => exact absurd old new
  | final new stop =>
    cases h' with
    | again | final => rfl
    | value _ step | chain _ step => exact absurd stop step.not_isFinal
  | value new step stop =>
    cases h' with
    | again old => exact absurd old new
    | final _ hfinal => exact absurd hfinal step.not_isFinal
    | value _ step' => exact step.unique step'
    | chain _ step' go =>
      obtain rfl := step.unique step'
      cases stop.symm.trans go
  | chain new step go _ ih =>
    cases h' with
    | again old => exact absurd old new
    | final _ hfinal => exact absurd hfinal step.not_isFinal
    | value _ step' stop =>
      obtain rfl := step.unique step'
      cases stop.symm.trans go
    | chain _ step' _ more =>
      obtain rfl := step.unique step'
      exact ih more

/-! ## Walks -/

/-- A chain leads from a name, through some names of which the last comes first, to a macro. -/
inductive Walk (ds : Definitions) (a : Text) : (seen : List Text) → (b : Text) → Prop
  | start : Walk ds a [] a
  | step {seen : List Text} {b c : Text} (walk : Walk ds a seen b) (step : ds.StandsFor b c)
    (go : ds.contains c = true) : Walk ds a (b :: seen) c

namespace Walk

theorem reaches (h : ds.Walk a seen b) : ReflTransGen ds.StandsFor a b := by
  induction h with
  | start => exact .refl
  | step _ step _ ih => exact ih.tail step

/-- Where a walk comes to, the chain goes on as from the start. -/
theorem settles (h : ds.Walk a seen b) (hn : seen.Nodup) (hr : ds.Settles seen b result) :
    ds.Settles [] a result := by
  induction h with
  | start => exact hr
  | step _ step go ih =>
    obtain ⟨hnew, hn⟩ := List.nodup_cons.mp hn
    exact ih hn (.chain hnew step go hr)

/-- A walk can be started at any name that it comes through. -/
theorem exists_from (h : ds.Walk a seen b) {x : Text} (hx : x ∈ seen) :
    ∃ later, (later ++ [x]).Sublist seen ∧ ds.Walk x (later ++ [x]) b := by
  induction h with
  | start => cases hx
  | @step seen b c _ step go ih =>
    by_cases hb : x = b
    · subst hb
      exact ⟨[], by simp, .step .start step go⟩
    · obtain ⟨later, hsub, hwalk⟩ := ih ((List.mem_cons.mp hx).resolve_left hb)
      exact ⟨b :: later, hsub.cons_cons b, .step hwalk step go⟩

theorem transGen (h : ds.Walk a seen b) (hs : seen ≠ []) : TransGen ds.StandsFor a b := by
  cases h with
  | start => exact absurd rfl hs
  | step walk step => exact .tail' walk.reaches step

/-- **A walk that comes back** to a name goes round in a cycle, on which the name settles to
itself. -/
theorem cycle (h : ds.Walk a seen b) (hn : seen.Nodup) (hb : b ∈ seen) :
    TransGen ds.StandsFor b b ∧ ds.Settles [] b b := by
  obtain ⟨later, hsub, hwalk⟩ := h.exists_from hb
  exact ⟨hwalk.transGen (by simp), hwalk.settles (hn.sublist hsub) (.again (by simp))⟩

end Walk

/-- **How a chain ends**: at a name that stands for nothing else, or at one that lies on a cycle;
in both cases the name settles to itself. -/
theorem Settles.spec (h : ds.Settles seen name result) (hw : ds.Walk a seen name)
    (hn : seen.Nodup) :
    ReflTransGen ds.StandsFor a result ∧
      (ds.IsFinal result ∨ TransGen ds.StandsFor result result) ∧ ds.Settles [] result result := by
  induction h with
  | again old =>
    obtain ⟨hcycle, hself⟩ := hw.cycle hn old
    exact ⟨hw.reaches, .inr hcycle, hself⟩
  | final _ stop => exact ⟨hw.reaches, .inl stop, .final List.not_mem_nil stop⟩
  | value _ step stop =>
    have hfinal := isFinal_of_not_contains stop
    exact ⟨hw.reaches.tail step, .inl hfinal, .final List.not_mem_nil hfinal⟩
  | chain new step go _ ih => exact ih (hw.step step go) (List.nodup_cons.mpr ⟨new, hn⟩)

/-- **What a name resolves to.**  However macros are defined, following the chain of a name ends,
with one result.  That is reached from the name by putting values for names of macros without
parameters; it either is no such name or lies on a cycle of them; and it resolves to itself. -/
theorem resolve_ends_chain (ds : Definitions) (name : Text) :
    (∀ result, ds.Settles [] name result ↔ result = ds.resolve name) ∧
      ReflTransGen ds.StandsFor name (ds.resolve name) ∧
      (ds.IsFinal (ds.resolve name) ∨
        TransGen ds.StandsFor (ds.resolve name) (ds.resolve name)) ∧
      ds.resolve (ds.resolve name) = ds.resolve name := by
  have hsettles := settles_resolve ds name
  obtain ⟨hreach, hend, hself⟩ := hsettles.spec .start List.nodup_nil
  refine ⟨fun result => ⟨fun h => h.unique hsettles, ?_⟩, hreach, hend, ?_⟩
  · rintro rfl
    exact hsettles
  · exact (settles_resolve ds _).unique hself

/-- A cycle that a chain comes into from outside ends the chain where it is entered. -/
example : (Definitions.mk [.object ['a'] ['b'], .object ['b'] ['c'], .object ['c'] ['b']]).resolve
    ['a'] = ['b'] := by decide

end HeaderOutline.Definitions
