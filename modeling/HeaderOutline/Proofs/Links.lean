import HeaderOutline.Outline.Lookup
import HeaderOutline.Proofs.Order

/-! # The links of an outline

Entities are only ever attached, so that every one but the root has a parent of a smaller
number, is among the children of that parent, and has its name qualified by that of the
parent (`Outline.Parented`).  So the full name is the path that leads to the entity
(`Outline.Parented.fullPath_eq`).

An entity that brings children along does not become their parent.  If the children of an
entity are only those that have it for a parent, the links make up a tree
(`Outline.Treelike`).  As long as no entity brings children along, they do, and the children
of an entity stand in the order of their numbers (`Outline.Linked`).
-/
namespace HeaderOutline

namespace Outline

variable {o : Outline} {i j p : EntityId} {e : Entity}

/-! ## What attaching changes -/

theorem lt_size_of_get? (h : o.get? i = some e) : i < o.entities.size :=
  (Array.getElem?_eq_some_iff.mp h).1

theorem exists_get? (h : i < o.entities.size) : ∃ e, o.get? i = some e :=
  ⟨_, Array.getElem?_eq_getElem h⟩

theorem hostOf_lt (h : 0 < o.entities.size) (parent : EntityId) :
    o.hostOf parent < o.entities.size := by
  unfold hostOf
  split
  · next hlt => exact hlt
  · exact h

/-- An entity that is there stays as it is, but for one child more of the one entity to
which the new one is attached. -/
theorem get?_attach_of_lt (h : i < o.entities.size) (parent : EntityId) (e : Entity) :
    (o.attach parent e).get? i = (o.get? i).map fun q =>
      if o.hostOf parent = i then { q with children := q.children.push o.entities.size }
      else q := by
  rw [get?, attach, Array.getElem?_push, if_neg (by rw [Array.size_modify]; exact Nat.ne_of_lt h),
    Array.getElem?_modify, ← get?]
  split
  · rfl
  · simp

/-- What an entity that is there has in common with itself when another one has been added. -/
theorem exists_get?_attach (parent : EntityId) (new : Entity) (he : o.get? i = some e) :
    ∃ e', (o.attach parent new).get? i = some e' ∧ e'.kind = e.kind ∧ e'.name = e.name ∧
      e'.fullName = e.fullName ∧ e'.parent = e.parent ∧ e'.access = e.access := by
  rw [get?_attach_of_lt (lt_size_of_get? he), he]
  refine ⟨_, rfl, ?_⟩
  split
  · exact ⟨rfl, rfl, rfl, rfl, rfl⟩
  · exact ⟨rfl, rfl, rfl, rfl, rfl⟩

theorem parent?_attach_of_lt (h : i < o.entities.size) (parent : EntityId) (e : Entity) :
    (o.attach parent e).parent? i = o.parent? i := by
  rw [parent?, parent?, get?_attach_of_lt h, Option.bind_map]
  refine Option.bind_congr fun q _ => ?_
  show (if _ then _ else _ : Entity).parent = q.parent
  split <;> rfl

theorem parent?_attach_size (o : Outline) (parent : EntityId) (e : Entity) :
    (o.attach parent e).parent? o.entities.size = some (o.hostOf parent) := by
  rw [parent?, get?_attach_size]
  rfl

theorem children_attach_of_lt (parent : EntityId) (e : Entity) (h : p < o.entities.size) :
    (o.attach parent e).children p =
      o.children p ++ if o.hostOf parent = p then [o.entities.size] else [] := by
  obtain ⟨q, hq⟩ := exists_get? h
  rw [children, children, get?_attach_of_lt h, hq]
  by_cases hhost : o.hostOf parent = p
  · simp [hhost]
  · simp [hhost]

/-! ## Parents -/

/-- The links from an entity upwards: there is a root without a name; every other entity has a
parent of a smaller number, which qualifies its name; and it is among the children of that
parent. -/
structure Parented (o : Outline) : Prop where
  rooted : ∃ r, o.get? root = some r ∧ r.parent = none ∧ r.name = [] ∧ r.fullName = []
  parent : ∀ i e, 0 < i → o.get? i = some e → ∃ p q, e.parent = some p ∧ p < i ∧
    o.get? p = some q ∧ e.fullName = qualify q.fullName e.name
  mem_children : ∀ i p, o.parent? i = some p → i ∈ o.children p

theorem get?_ofSource {file : String} {source : Text}
    (he : (ofSource file source).get? i = some e) : i = root ∧ e = rootEntity source := by
  obtain rfl : i = 0 := Nat.lt_one_iff.mp (lt_size_of_get? he)
  exact ⟨rfl, (Option.some.inj he).symm⟩

namespace Parented

theorem size_pos (h : o.Parented) : 0 < o.entities.size := by
  obtain ⟨r, hr, -⟩ := h.rooted
  exact lt_size_of_get? hr

theorem ofSource (file : String) (source : Text) : (Outline.ofSource file source).Parented where
  rooted := ⟨rootEntity source, rfl, rfl, rfl, rfl⟩
  parent i e hi he := by
    obtain ⟨rfl, -⟩ := get?_ofSource he
    exact absurd hi (Nat.lt_irrefl _)
  mem_children i p hp := by
    obtain ⟨e, he, hep⟩ := Option.bind_eq_some_iff.mp hp
    obtain ⟨-, rfl⟩ := get?_ofSource he
    cases hep

/-- Every entity but the root has a parent. -/
theorem exists_parent (h : o.Parented) (hi : 0 < i) (he : o.get? i = some e) :
    ∃ p q, o.parent? i = some p ∧ o.get? p = some q ∧ e.fullName = qualify q.fullName e.name := by
  obtain ⟨p, q, hp, -, hq, hfull⟩ := h.parent i e hi he
  exact ⟨p, q, by rw [parent?, he]; exact hp, hq, hfull⟩

/-- A parent comes before its child. -/
theorem parent_lt (h : o.Parented) (hp : o.parent? i = some p) : p < i ∧ i < o.entities.size := by
  obtain ⟨e, he, hep⟩ := Option.bind_eq_some_iff.mp hp
  refine ⟨?_, lt_size_of_get? he⟩
  rcases Nat.eq_zero_or_pos i with rfl | hi
  · obtain ⟨r, hr, hnone, -⟩ := h.rooted
    obtain rfl : r = e := Option.some.inj (hr.symm.trans he)
    cases hnone.symm.trans hep
  · obtain ⟨q, _, hq, hlt, -⟩ := h.parent i e hi he
    obtain rfl : q = p := Option.some.inj (hq.symm.trans hep)
    exact hlt

/-- **Induction over a tree**: what holds of the root, and of a child if it holds of its
parent, holds of all entities. -/
@[elab_as_elim]
theorem induction (h : o.Parented) {motive : (i : EntityId) → i < o.entities.size → Prop}
    (root : motive root h.size_pos)
    (child : ∀ i p hi hlt, o.parent? i = some p → motive p hlt → motive i hi) (i : EntityId)
    (hi : i < o.entities.size) : motive i hi := by
  induction i using Nat.strongRecOn with
  | ind i ih =>
    rcases Nat.eq_zero_or_pos i with rfl | hpos
    · exact root
    · obtain ⟨e, he⟩ := exists_get? hi
      obtain ⟨p, -, hp, -⟩ := h.exists_parent hpos he
      have hlt := h.parent_lt hp
      exact child i p hi (Nat.lt_trans hlt.1 hi) hp (ih p hlt.1 _)

/-- **A new entity has a parent**, whichever one it asks for, and whatever children it brings
along. -/
theorem attach (h : o.Parented) (parent : EntityId) (e : Entity) :
    (o.attach parent e).Parented := by
  have hhost := hostOf_lt h.size_pos parent
  refine ⟨?_, fun i q hi hq => ?_, fun i p hp => ?_⟩
  · obtain ⟨r, hr, hparent, hname, hfull⟩ := h.rooted
    obtain ⟨r', hr', -, hname', hfull', hparent', -⟩ := exists_get?_attach parent e hr
    exact ⟨r', hr', hparent'.trans hparent, hname'.trans hname, hfull'.trans hfull⟩
  · rcases Nat.lt_succ_iff_lt_or_eq.mp (size_entities_attach o parent e ▸ lt_size_of_get? hq) with
      hlt | rfl
    · obtain ⟨q', hq'⟩ := exists_get? hlt
      obtain ⟨p, s, hp, hpi, hs, hqualify⟩ := h.parent i q' hi hq'
      obtain ⟨s', hs', -, -, hfull', -⟩ := exists_get?_attach parent e hs
      obtain ⟨q'', hq'', -, hname, hfull, hparent, -⟩ := exists_get?_attach parent e hq'
      obtain rfl : q = q'' := Option.some.inj (hq.symm.trans hq'')
      exact ⟨p, s', hparent.trans hp, hpi, hs', by rw [hfull, hqualify, hfull', hname]⟩
    · obtain ⟨s, hs⟩ := exists_get? hhost
      obtain ⟨s', hs', -, -, hfull', -⟩ := exists_get?_attach parent e hs
      rw [get?_attach_size] at hq
      obtain rfl := Option.some.inj hq
      exact ⟨_, s', rfl, hhost, hs', by simp [hs, hfull']⟩
  · have hi : i < o.entities.size + 1 := by
      obtain ⟨q, hq, -⟩ := Option.bind_eq_some_iff.mp hp
      exact size_entities_attach o parent e ▸ lt_size_of_get? hq
    rcases Nat.lt_succ_iff_lt_or_eq.mp hi with hlt | rfl
    · rw [parent?_attach_of_lt hlt] at hp
      rw [children_attach_of_lt parent e (Nat.lt_trans (h.parent_lt hp).1 hlt)]
      exact List.mem_append_left _ (h.mem_children i p hp)
    · rw [parent?_attach_size] at hp
      obtain rfl := Option.some.inj hp
      rw [children_attach_of_lt parent e hhost, if_pos rfl]
      exact List.mem_append_right _ (List.mem_singleton_self _)

/-- Only the entities count for the links. -/
theorem of_entities {o' : Outline} (h : o.Parented) (he : o'.entities = o.entities) :
    o'.Parented := by
  obtain ⟨_, _, _, _⟩ := o
  obtain ⟨_, _, _, _⟩ := o'
  subst he
  exact ⟨h.rooted, h.parent, h.mem_children⟩

end Parented

/-! ## Trees -/

/-- The links of an outline make up a tree: the children of an entity are those of which it is the
parent. -/
structure Treelike (o : Outline) : Prop extends Parented o where
  parent?_of_mem : ∀ p i, i ∈ o.children p → o.parent? i = some p

theorem Treelike.mem_children_iff (h : o.Treelike) : i ∈ o.children p ↔ o.parent? i = some p :=
  ⟨h.parent?_of_mem p i, h.mem_children i p⟩

/-- A child comes behind its parent. -/
theorem Treelike.lt_of_mem (h : o.Treelike) (hi : i ∈ o.children p) :
    p < i ∧ i < o.entities.size :=
  h.parent_lt (h.mem_children_iff.mp hi)

theorem children_of_size_le (h : o.entities.size ≤ i) : o.children i = [] := by
  simp [Outline.children, get?, h]

/-- **How deep a walk down a tree may go makes no difference** beyond the number of the entities
that are behind its start, if each of its steps asks for nothing but what the walks from the
children give. -/
theorem Treelike.walk_eq (h : o.Treelike) {α : Type} {walk : Nat → EntityId → List α}
    (visit : EntityId → (EntityId → List α) → List α) (hzero : ∀ i, walk 0 i = [])
    (hsucc : ∀ depth i, walk (depth + 1) i = visit i (walk depth))
    (hleaf : ∀ i below, o.children i = [] → visit i below = [])
    (hvisit : ∀ i below below', (∀ c ∈ o.children i, below c = below' c) →
      visit i below = visit i below')
    {depth depth' : Nat} (hd : o.entities.size ≤ i + depth) (hd' : o.entities.size ≤ i + depth') :
    walk depth i = walk depth' i := by
  induction depth generalizing i depth' with
  | zero =>
    cases depth' with
    | zero => rfl
    | succ depth' => rw [hzero, hsucc, hleaf i _ (children_of_size_le hd)]
  | succ depth ih =>
    cases depth' with
    | zero => rw [hzero, hsucc, hleaf i _ (children_of_size_le hd')]
    | succ depth' =>
      rw [hsucc, hsucc]
      refine hvisit i _ _ fun c hc => ?_
      have hlt := Nat.succ_le_of_lt (h.lt_of_mem hc).1
      exact ih (by omega) (by omega)

/-- The children of an entity are those of which it is the parent, in the order of their
numbers. -/
structure Linked (o : Outline) : Prop extends Treelike o where
  children : ∀ p e, o.get? p = some e →
    e.children.toList = (List.range o.entities.size).filter (o.parent? · == some p)

namespace Linked

/-- Links upwards and the children of each entity are all links there are. -/
theorem of_children (h : o.Parented) (hc : ∀ p e, o.get? p = some e →
    e.children.toList = (List.range o.entities.size).filter (o.parent? · == some p)) :
    o.Linked where
  toParented := h
  parent?_of_mem p i hm := by
    rw [Outline.children] at hm
    cases he : o.get? p with
    | none => simp [he] at hm
    | some e =>
      simp only [he, Option.map_some, Option.getD_some, hc p e he] at hm
      exact eq_of_beq (List.mem_filter.mp hm).2
  children := hc

theorem ofSource (file : String) (source : Text) : (Outline.ofSource file source).Linked := by
  refine .of_children (.ofSource file source) fun p e he => ?_
  obtain ⟨rfl, rfl⟩ := get?_ofSource he
  rfl

/-- Children stand in the order of their numbers. -/
theorem children_pairwise (h : o.Linked) (p : EntityId) :
    (o.children p).Pairwise (· < ·) := by
  unfold Outline.children
  cases he : o.get? p with
  | none => exact .nil
  | some e =>
    simp only [Option.map_some, Option.getD_some, h.children p e he]
    exact List.pairwise_lt_range.filter _

/-- A new entity without children is linked, whichever parent it asks for. -/
theorem attach (h : o.Linked) (parent : EntityId) {e : Entity} (he : e.children = #[]) :
    (o.attach parent e).Linked := by
  have hhost := hostOf_lt h.size_pos parent
  -- the numbers that have a parent are the old ones and the new one
  have hrange : ∀ p, (List.range (o.attach parent e).entities.size).filter
      ((o.attach parent e).parent? · == some p) =
      (List.range o.entities.size).filter (o.parent? · == some p) ++
        if o.hostOf parent = p then [o.entities.size] else [] := by
    intro p
    rw [size_entities_attach, List.range_succ, List.filter_append]
    congr 1
    · refine List.filter_congr fun i hi => ?_
      rw [parent?_attach_of_lt (List.mem_range.mp hi)]
    · simp [List.filter_cons, parent?_attach_size]
  refine .of_children (h.toParented.attach parent e) fun p q hq => ?_
  rw [hrange p]
  rcases Nat.lt_succ_iff_lt_or_eq.mp (size_entities_attach o parent e ▸ lt_size_of_get? hq) with
    hlt | rfl
  · rw [get?_attach_of_lt hlt] at hq
    obtain ⟨q', hq', rfl⟩ := Option.map_eq_some_iff.mp hq
    rw [← h.children p q' hq']
    split <;> simp
  · -- nobody has the new entity for a parent yet
    rw [get?_attach_size] at hq
    obtain rfl := Option.some.inj hq
    rw [if_neg (Nat.ne_of_lt hhost), List.append_nil, he]
    refine (List.filter_eq_nil_iff.mpr fun i hi hp => ?_).symm
    have hlt := h.parent_lt (eq_of_beq hp)
    exact Nat.lt_asymm hlt.1 hlt.2

/-- Only the entities count for the links. -/
theorem of_entities {o' : Outline} (h : o.Linked) (he : o'.entities = o.entities) : o'.Linked := by
  obtain ⟨_, _, _, _⟩ := o
  obtain ⟨_, _, _, _⟩ := o'
  subst he
  exact .of_children (h.toParented.of_entities rfl) h.children

end Linked

/-! ## Ancestors -/

/-- An entity lies below another one, or is that one. -/
inductive Below (o : Outline) (a : EntityId) : EntityId → Prop
  | refl : Below o a a
  | step {p i : EntityId} (hp : o.parent? i = some p) (h : Below o a p) : Below o a i

namespace Below

variable {a b c : EntityId}

theorem le (hl : o.Parented) (h : o.Below a i) : a ≤ i := by
  induction h with
  | refl => exact Nat.le_refl _
  | step hp _ ih => exact Nat.le_trans ih (Nat.le_of_lt (hl.parent_lt hp).1)

theorem trans (h : o.Below a b) (h' : o.Below b c) : o.Below a c := by
  induction h' with
  | refl => exact h
  | step hp _ ih => exact .step hp ih

theorem of_parent (hp : o.parent? i = some p) : o.Below p i := .step hp .refl

theorem congr {o' : Outline} (hp : ∀ i, o'.parent? i = o.parent? i) (h : o.Below a i) :
    o'.Below a i := by
  induction h with
  | refl => exact .refl
  | step hp' _ ih => exact .step ((hp _).trans hp') ih

/-- Of two entities above a third one, one lies below the other. -/
theorem total (h : o.Below a i) (h' : o.Below b i) : o.Below a b ∨ o.Below b a := by
  induction h with
  | refl => exact .inr h'
  | step hp h ih =>
    cases h' with
    | refl => exact .inl (.step hp h)
    | step hp' h' =>
      obtain rfl := Option.some.inj (hp.symm.trans hp')
      exact ih h'

/-- Only one child of an entity lies above a given one. -/
theorem unique (hl : o.Parented) (ha : o.parent? a = some p) (hb : o.parent? b = some p)
    (h : o.Below a i) (h' : o.Below b i) : a = b := by
  have hself : ∀ {x y : EntityId}, o.parent? x = some p → o.parent? y = some p →
      o.Below x y → x = y := by
    intro x y hx hy hxy
    cases hxy with
    | refl => rfl
    | step hq hxp =>
      -- a child would lie above its parent
      obtain rfl := Option.some.inj (hq.symm.trans hy)
      exact absurd (hxp.le hl) (Nat.not_le_of_lt (hl.parent_lt hx).1)
  rcases h.total h' with hab | hba
  · exact hself ha hb hab
  · exact (hself hb ha hba).symm

end Below

/-- Attaching an entity moves no other one. -/
theorem below_attach_iff (hl : o.Parented) (hi : i < o.entities.size) (parent : EntityId)
    (e : Entity) {a : EntityId} : (o.attach parent e).Below a i ↔ o.Below a i := by
  constructor
  · intro h
    induction h with
    | refl => exact .refl
    | step hp _ ih =>
      rw [parent?_attach_of_lt hi] at hp
      exact .step hp (ih (Nat.lt_trans (hl.parent_lt hp).1 hi))
  · intro h
    induction h with
    | refl => exact .refl
    | step hp _ ih =>
      refine .step ?_ (ih (Nat.lt_trans (hl.parent_lt hp).1 hi))
      rwa [parent?_attach_of_lt hi]

/-- Above a new entity there are itself and what is above its parent. -/
theorem below_attach_size (hl : o.Parented) {parent a : EntityId} {e : Entity}
    (h : (o.attach parent e).Below a o.entities.size) :
    a = o.entities.size ∨ o.Below a (o.hostOf parent) := by
  cases h with
  | refl => exact .inl rfl
  | step hp h =>
    rw [parent?_attach_size] at hp
    obtain rfl := Option.some.inj hp
    exact .inr ((below_attach_iff hl (hostOf_lt hl.size_pos parent) parent e).mp h)

/-- All that lies below an entity comes before the next sibling of that entity. -/
def Preordered (o : Outline) : Prop :=
  ∀ a b p, o.parent? a = some p → o.parent? b = some p → a < b → ∀ j, o.Below a j → j < b

/-! ## Full names -/

namespace Parented

theorem path_root (h : o.Parented) : o.path root = [] := by
  obtain ⟨r, hr, hparent, hname, -⟩ := h.rooted
  rw [path, hr]
  simp [hparent, hname]

theorem path_eq (h : o.Parented) (he : o.get? i = some e) (hp : o.parent? i = some p) :
    o.path i = o.path p ++ if e.name.isEmpty then [] else [e.name] := by
  have hep : e.parent = some p := by simpa [parent?, he] using hp
  rw [path, he]
  simp only [hep, dif_pos (h.parent_lt hp).1]

/-- A path is made of names. -/
theorem ne_nil_of_mem_path (h : o.Parented) (hi : i < o.entities.size) :
    ∀ n ∈ o.path i, n ≠ [] := by
  induction i, hi using h.induction with
  | root =>
    rw [h.path_root]
    exact nofun
  | child i p hi _ hp ih =>
    obtain ⟨e, he⟩ := exists_get? hi
    rw [h.path_eq he hp]
    intro n hn
    rcases List.mem_append.mp hn with hn | hn
    · exact ih n hn
    · split at hn
      · cases hn
      · next hne =>
        obtain rfl := List.mem_singleton.mp hn
        simpa using hne

end Parented
end Outline
end HeaderOutline
