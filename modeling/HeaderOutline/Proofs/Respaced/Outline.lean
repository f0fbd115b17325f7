import HeaderOutline.Proofs.Links
import HeaderOutline.Proofs.Respaced.Reading

/-! # Outlines of respaced tokens

The outlines of respaced tokens have the same entities in the same order.  Where a gap gets
comments, one of them may have entities for these in between; so the numbers that its other
entities have there are kept in a list, the numbering.
-/
namespace HeaderOutline

/-- The numbers that the entities of an outline have in another one, in order. -/
abbrev Numbering := List EntityId

variable {S : Respacing} {m : Numbering}

/-! ## Entities -/

/-- Entities that are the same but for their places, up to texts that count as the same. -/
structure Entity.RespacedBare (S : Respacing) (e e' : Entity) : Prop where
  kind : e'.kind = e.kind
  name : S.name e.name e'.name
  name_eq : e.kind ≠ .directive → e'.name = e.name
  isEmpty : e'.name.isEmpty = e.name.isEmpty
  signature : S.same e.signature e'.signature
  access : e'.access = e.access
  flags : e'.flags = e.flags
  template : S.template e.template e'.template
  body : Option.Rel (fun x y : Body => S.same x.text y.text) e.body e'.body
  comment : Option.Rel S.doc e.comment e'.comment

/-- Entities that also have the same place among the others. -/
structure Entity.Respaced (S : Respacing) (m : Numbering) (e e' : Entity) : Prop
    extends Entity.RespacedBare S e e' where
  fullName : S.name e.fullName e'.fullName
  isEmptyFull : e'.fullName.isEmpty = e.fullName.isEmpty
  parent : Option.Rel (fun i j => m[i]? = some j) e.parent e'.parent

theorem Entity.Respaced.mono {e e' : Entity} (h : Entity.Respaced S m e e') (more : Numbering) :
    Entity.Respaced S (m ++ more) e e' where
  toRespacedBare := h.toRespacedBare
  fullName := h.fullName
  isEmptyFull := h.isEmptyFull
  parent := by
    have hp := h.parent
    generalize e.parent = p, e'.parent = p' at hp ⊢
    cases hp with
    | none => exact .none
    | some hij => exact .some (List.getElem?_append_left (List.getElem?_eq_some_iff.mp hij).1 ▸ hij)

/-- If every entity keeps its number, so does the parent. -/
theorem Entity.Respaced.parent_eq {e e' : Entity} {n : Nat}
    (h : Entity.Respaced S (List.range n) e e') : e'.parent = e.parent := by
  have hp := h.parent
  generalize e.parent = p, e'.parent = p' at hp ⊢
  cases hp with
  | none => rfl
  | some hij =>
    obtain ⟨hi, rfl⟩ := List.getElem?_eq_some_iff.mp hij
    rw [List.getElem_range]

/-- Children do not count: they are told by their parents. -/
theorem Entity.Respaced.withChildren {e e' : Entity} (h : Entity.Respaced S m e e')
    (cs cs' : Array EntityId) :
    Entity.Respaced S m { e with children := cs } { e' with children := cs' } :=
  ⟨⟨h.kind, h.name, h.name_eq, h.isEmpty, h.signature, h.access, h.flags, h.template, h.body,
    h.comment⟩, h.fullName, h.isEmptyFull, h.parent⟩

theorem qualify_respaced {s s' n n' : Text} (hs : S.name s s') (hse : s'.isEmpty = s.isEmpty)
    (hn : S.name n n') (hne : n'.isEmpty = n.isEmpty) :
    S.name (qualify s n) (qualify s' n') ∧ (qualify s' n').isEmpty = (qualify s n).isEmpty := by
  unfold qualify
  rw [hse, hne]
  split
  · exact ⟨hs, hse⟩
  · split
    · exact ⟨hn, hne⟩
    · refine ⟨S.name_append (S.name_append hs (S.name_refl _)) hn, ?_⟩
      have hcolons : ∀ t u : Text, (t ++ Text.colons ++ u).isEmpty = false := fun t u => by
        simp [Text.colons, List.isEmpty_eq_false_iff]
      rw [hcolons, hcolons]

/-! ## Outlines -/

/-- Outlines with the same entities but for comments, and the same complaints. -/
structure Outline.Respaced (S : Respacing) (m : Numbering) (o o' : Outline) : Prop where
  length : m.length = o.entities.size
  sorted : m.Pairwise (· < ·)
  root : m[Outline.root]? = some Outline.root
  header : ∃ r, o.get? Outline.root = some r ∧ r.kind = .root
  entity : ∀ i j, m[i]? = some j → ∃ e e', o.get? i = some e ∧ o'.get? j = some e' ∧
    Entity.Respaced S m e e'
  other : ∀ j e', o'.get? j = some e' → j ∈ m ∨ e'.kind = .comment ∧ ¬S.IsStrict
  codes : o'.diagnostics.toList.map (·.code) = o.diagnostics.toList.map (·.code)

namespace Outline.Respaced

variable {o o' : Outline} {i j : EntityId} {e e' : Entity}

theorem lt_size (h : Outline.Respaced S m o o') (hj : m[i]? = some j) :
    i < o.entities.size ∧ j < o'.entities.size := by
  obtain ⟨e, e', he, he', -⟩ := h.entity i j hj
  exact ⟨lt_size_of_get? he, lt_size_of_get? he'⟩

theorem lt_of_mem (h : Outline.Respaced S m o o') (hj : j ∈ m) : j < o'.entities.size := by
  obtain ⟨i, hi⟩ := List.getElem?_of_mem hj
  exact (h.lt_size hi).2

theorem hostOf (h : Outline.Respaced S m o o') (hj : m[i]? = some j) :
    o.hostOf i = i ∧ o'.hostOf j = j := by
  obtain ⟨hi, hj⟩ := h.lt_size hj
  exact ⟨if_pos hi, if_pos hj⟩

/-- An entity stays the same if others are attached. -/
theorem entity_attach (h : Outline.Respaced S m o o') (more : Numbering) {p p' : EntityId}
    {d d' : Entity} (hij : m[i]? = some j) :
    ∃ e e', (o.attach p d).get? i = some e ∧ (o'.attach p' d').get? j = some e' ∧
      Entity.Respaced S (m ++ more) e e' := by
  obtain ⟨e, e', he, he', hsame⟩ := h.entity i j hij
  obtain ⟨hi, hj⟩ := h.lt_size hij
  refine ⟨_, _, by rw [get?_attach_of_lt hi, he, Option.map_some],
    by rw [get?_attach_of_lt hj, he', Option.map_some], ?_⟩
  have hmono := hsame.mono more
  split <;> split
  · exact hmono.withChildren _ _
  · exact hmono.withChildren _ _
  · exact hmono.withChildren _ _
  · exact hmono

/-- The same entity is attached to both. -/
theorem attach (h : Outline.Respaced S m o o') (hij : m[i]? = some j)
    (he : Entity.RespacedBare S e e') :
    Outline.Respaced S (m ++ [o'.entities.size]) (o.attach i e) (o'.attach j e') where
  length := by rw [List.length_append, h.length, size_entities_attach, List.length_singleton]
  sorted := by
    refine List.pairwise_append.mpr ⟨h.sorted, List.pairwise_singleton _ _, ?_⟩
    intro k hk n hn
    rw [List.mem_singleton.mp hn]
    exact h.lt_of_mem hk
  root := List.getElem?_append_left (List.getElem?_eq_some_iff.mp h.root).1 ▸ h.root
  header := by
    obtain ⟨r, hr, hk⟩ := h.header
    refine ⟨_, by rw [get?_attach_of_lt (h.lt_size h.root).1, hr, Option.map_some], ?_⟩
    split <;> exact hk
  entity k n hkn := by
    by_cases hk : k < m.length
    · rw [List.getElem?_append_left hk] at hkn
      obtain ⟨q, q', hq, hq', hsame⟩ := h.entity k n hkn
      exact h.entity_attach _ hkn
    · obtain ⟨rfl, rfl⟩ : k = o.entities.size ∧ n = o'.entities.size := by
        have hlt := (List.getElem?_eq_some_iff.mp hkn).1
        rw [List.length_append, List.length_singleton] at hlt
        have hlast : k = m.length :=
          Nat.le_antisymm (Nat.le_of_lt_succ hlt) (Nat.le_of_not_lt hk)
        subst hlast
        rw [List.getElem?_concat_length] at hkn
        exact ⟨h.length, (Option.some.inj hkn).symm⟩
      obtain ⟨hi, hj⟩ := h.hostOf hij
      obtain ⟨p, p', hp, hp', hpp⟩ := h.entity i j hij
      have hfull := qualify_respaced hpp.fullName hpp.isEmptyFull he.name he.isEmpty
      refine ⟨_, _, get?_attach_size o i e, get?_attach_size o' j e', ?_⟩
      rw [hi, hj, hp, hp']
      exact ⟨⟨he.kind, he.name, he.name_eq, he.isEmpty, he.signature, he.access, he.flags,
        he.template, he.body, he.comment⟩, hfull.1, hfull.2,
        .some (List.getElem?_append_left (List.getElem?_eq_some_iff.mp hij).1 ▸ hij)⟩
  other n q hq := by
    by_cases hn : n = o'.entities.size
    · exact .inl (hn ▸ List.mem_append_right m (List.mem_singleton_self _))
    · have hlt := lt_size_of_get? hq
      rw [size_entities_attach] at hlt
      rw [get?_attach_of_lt (Nat.lt_of_le_of_ne (Nat.le_of_lt_succ hlt) hn)] at hq
      obtain ⟨q', hq', rfl⟩ := Option.map_eq_some_iff.mp hq
      refine (h.other n q' hq').imp (List.mem_append_left _) fun hc => ⟨?_, hc.2⟩
      split
      · exact hc.1
      · exact hc.1
  codes := h.codes

/-- A comment of its own is attached to the second one. -/
theorem attach_comment (h : Outline.Respaced S m o o') (hs : ¬S.IsStrict)
    (hk : e'.kind = .comment) (p : EntityId) : Outline.Respaced S m o (o'.attach p e') where
  length := h.length
  sorted := h.sorted
  root := h.root
  header := h.header
  entity k n hkn := by
    obtain ⟨q, q', hq, hq', hsame⟩ := h.entity k n hkn
    refine ⟨q, _, hq, by rw [get?_attach_of_lt (h.lt_size hkn).2, hq', Option.map_some], ?_⟩
    split
    · exact hsame.withChildren _ _
    · exact hsame
  other n q hq := by
    by_cases hn : n = o'.entities.size
    · subst hn
      rw [get?_attach_size] at hq
      obtain rfl := Option.some.inj hq
      exact .inr ⟨hk, hs⟩
    · have hlt := lt_size_of_get? hq
      rw [size_entities_attach] at hlt
      rw [get?_attach_of_lt (Nat.lt_of_le_of_ne (Nat.le_of_lt_succ hlt) hn)] at hq
      obtain ⟨q', hq', rfl⟩ := Option.map_eq_some_iff.mp hq
      refine (h.other n q' hq').imp_right fun hc => ⟨?_, hc.2⟩
      split
      · exact hc.1
      · exact hc.1
  codes := h.codes

theorem report (h : Outline.Respaced S m o o') {d d' : Diagnostic} (hd : d'.code = d.code) :
    Outline.Respaced S m (o.report d) (o'.report d') :=
  { h with codes := by simp [Outline.report, h.codes, hd] }

/-- Where no gap gets comments, all entities keep their numbers. -/
theorem eq_range (h : Outline.Respaced S m o o') (hs : S.IsStrict) :
    m = List.range o'.entities.size := by
  have hmem : ∀ j, j ∈ m ↔ j ∈ List.range o'.entities.size := by
    intro j
    rw [List.mem_range]
    refine ⟨h.lt_of_mem, fun hj => ?_⟩
    exact (h.other j _ (Array.getElem?_eq_getElem hj)).resolve_right fun hc => hc.2 hs
  have hperm : m.Perm (List.range o'.entities.size) :=
    (List.perm_ext_iff_of_nodup (h.sorted.imp Nat.ne_of_lt) List.nodup_range).mpr hmem
  refine hperm.eq_of_pairwise (fun a b _ _ hab hba => ?_) h.sorted List.pairwise_lt_range
  exact absurd (Nat.lt_trans hab hba) (Nat.lt_irrefl a)

/-- Where no gap gets comments, the entities are the same one by one. -/
theorem forall₂ (h : Outline.Respaced S m o o') (hs : S.IsStrict) :
    List.Forall₂ (fun e e' => Entity.Respaced S m e e' ∧ e'.parent = e.parent)
      o.entities.toList o'.entities.toList := by
  obtain rfl := h.eq_range hs
  have hsize : o'.entities.size = o.entities.size := by rw [← h.length, List.length_range]
  refine List.forall₂_iff_get.mpr ⟨by simp [hsize], fun i hi hi' => ?_⟩
  rw [Array.length_toList] at hi'
  obtain ⟨e, e', he, he', hsame⟩ := h.entity i i (List.getElem?_range hi')
  obtain ⟨_, rfl⟩ := Array.getElem?_eq_some_iff.mp he
  obtain ⟨_, rfl⟩ := Array.getElem?_eq_some_iff.mp he'
  exact ⟨hsame, hsame.parent_eq⟩

end Outline.Respaced

end HeaderOutline
