import HeaderOutline.Proofs.RoundTrip
import HeaderOutline.Text.Unicode
import Mathlib.Data.List.Sort

/-! # Tree order is the order of creation

The entities below another one are listed so that each comes before those below it, and all of
these before its next sibling.  A walk that keeps a stack of the entities still to be visited comes
through them in the same order (`Outline.Treelike.walks`).

Numbers grow along every branch of a tree, and in an outline that is in preorder all numbers below
an entity are smaller than that of its next sibling.  So the list is sorted
(`Outline.Linked.descendants_pairwise`), and from the root it is the list of all numbers
(`Outline.Linked.descendants_root`).
-/
namespace HeaderOutline

namespace Outline

variable {o : Outline} {i j : EntityId}

/-- A walk through an outline, from the entities that are to be visited to those that it comes
through: the first one is visited, and its children take its place. -/
inductive Walks (o : Outline) : List EntityId → List EntityId → Prop
  | done : Walks o [] []
  | visit {next : EntityId} {stack visited : List EntityId}
      (more : Walks o (o.children next ++ stack) visited) :
      Walks o (next :: stack) (next :: visited)

/-- An entity comes before another one: it has the smaller number, and its range ends before that
of the other one starts. -/
structure Precedes (o : Outline) (i j : EntityId) : Prop where
  number : i < j
  range : ∀ e e', o.get? i = some e → o.get? j = some e' →
    e.sourceRange.stop.offset ≤ e'.sourceRange.start.offset

theorem hasKind_iff {p : EntityKind → Bool} :
    o.hasKind p i = true ↔ ∃ e, o.get? i = some e ∧ p e.kind = true := by
  rw [hasKind]
  cases o.get? i with
  | none => simp
  | some e => simp

namespace Treelike

/-- **Induction from the leaves of a tree**: what holds of an entity if it holds of its children
holds of all entities. -/
@[elab_as_elim]
theorem leaves_induction (h : o.Treelike) {motive : EntityId → Prop}
    (node : ∀ i, (∀ c ∈ o.children i, motive c) → motive i) (i : EntityId) : motive i := by
  induction hn : o.entities.size - i using Nat.strongRecOn generalizing i with
  | ind n ih =>
    subst hn
    apply node
    intro c hc
    have hlt := h.lt_of_mem hc
    exact ih _ (Nat.sub_lt_sub_left (Nat.lt_trans hlt.1 hlt.2) hlt.1) c rfl

/-- In a tree it makes no difference how much deeper a walk could go than there are entities
behind the one where it starts. -/
theorem descendantsWithin_eq (h : o.Treelike) {depth depth' : Nat}
    (hd : o.entities.size ≤ i + depth) (hd' : o.entities.size ≤ i + depth') :
    o.descendantsWithin depth i = o.descendantsWithin depth' i := by
  refine h.walk_eq (fun i below => (o.children i).flatMap fun c => c :: below c)
    (fun _ => rfl) (fun _ _ => rfl) (fun i below hi => ?_) (fun i below below' hbelow => ?_) hd hd'
  · rw [hi]
    rfl
  · exact List.flatMap_congr fun c hc => congrArg (c :: ·) (hbelow c hc)

/-- What lies below an entity is its children and what lies below them. -/
theorem descendants_eq (h : o.Treelike) (i : EntityId) :
    o.descendants i = (o.children i).flatMap fun c => c :: o.descendants c :=
  show _ = o.descendantsWithin (o.entities.size + 1) i from
    h.descendantsWithin_eq (Nat.le_add_left ..) (by omega)

/-- A walk comes through the entities below an entity if it starts from its children. -/
theorem walks (h : o.Treelike) (i : EntityId) {stack visited : List EntityId}
    (hw : o.Walks stack visited) :
    o.Walks (o.children i ++ stack) (o.descendants i ++ visited) := by
  induction i using h.leaves_induction generalizing stack visited with
  | node i ih =>
    rw [h.descendants_eq i]
    -- the walk from the later children comes behind that from the first one
    generalize o.children i = children at ih ⊢
    induction children with
    | nil => exact hw
    | cons c later ihLater =>
      have hmore := ihLater fun d hd => ih d (List.mem_cons_of_mem c hd)
      have hfirst := ih c List.mem_cons_self hmore
      rw [List.flatMap_cons, List.append_assoc]
      exact .visit hfirst

theorem mem_descendants_iff (h : o.Treelike) :
    j ∈ o.descendants i ↔ ∃ c, o.parent? c = some i ∧ o.Below c j := by
  induction i using h.leaves_induction with
  | node i ih =>
    rw [h.descendants_eq, List.mem_flatMap]
    constructor
    · rintro ⟨c, hc, hj⟩
      have hp := h.mem_children_iff.mp hc
      rcases List.mem_cons.mp hj with rfl | hj
      · exact ⟨j, hp, .refl⟩
      · obtain ⟨d, hd, hbelow⟩ := (ih c hc).mp hj
        exact ⟨c, hp, (Below.of_parent hd).trans hbelow⟩
    · rintro ⟨c, hp, hbelow⟩
      have hc := h.mem_children_iff.mpr hp
      refine ⟨c, hc, ?_⟩
      rcases hbelow.eq_or_child with rfl | hd
      · exact List.mem_cons_self
      · exact List.mem_cons_of_mem c ((ih c hc).mpr hd)

end Treelike

theorem Parented.mem_ids_iff (h : o.Parented) : i ∈ o.ids ↔ 0 < i ∧ i < o.entities.size := by
  rw [ids, size, List.mem_range'_1, Nat.add_sub_cancel' h.size_pos]
  exact Iff.rfl

namespace Linked

/-- **The entities below another one** are listed in the order of their numbers, if the outline is
in preorder. -/
theorem descendants_pairwise (h : o.Linked) (hp : o.Preordered) (i : EntityId) :
    (o.descendants i).Pairwise (· < ·) := by
  induction i using h.leaves_induction with
  | node i ih =>
    rw [h.descendants_eq, List.pairwise_flatMap]
    constructor
    · intro c hc
      refine List.pairwise_cons.mpr ⟨fun j hj => ?_, ih c hc⟩
      obtain ⟨d, hd, hbelow⟩ := h.mem_descendants_iff.mp hj
      exact Nat.lt_of_lt_of_le (h.parent_lt hd).1 (hbelow.le h.toParented)
    · have hfollows : ∀ {c j : EntityId}, j ∈ c :: o.descendants c → o.Below c j := by
        intro c j hj
        rcases List.mem_cons.mp hj with rfl | hj
        · exact .refl
        · obtain ⟨d, hd, hbelow⟩ := h.mem_descendants_iff.mp hj
          exact (Below.of_parent hd).trans hbelow
      refine (h.children_pairwise i).imp_of_mem fun {a b} ha hb hab x hx y hy => ?_
      have hxb : x < b :=
        hp a b i (h.mem_children_iff.mp ha) (h.mem_children_iff.mp hb) hab x (hfollows hx)
      exact Nat.lt_of_lt_of_le hxb ((hfollows hy).le h.toParented)

/-- **All entities below the root** are listed in the order in which they were created. -/
theorem descendants_root (h : o.Linked) (hp : o.Preordered) : o.descendants root = o.ids := by
  refine (h.descendants_pairwise hp root).eq_of_mem_iff List.pairwise_lt_range' ?_
  intro j
  rw [h.mem_descendants_iff, h.mem_ids_iff]
  constructor
  · rintro ⟨c, hc, hbelow⟩
    have hlt := h.parent_lt hc
    refine ⟨Nat.lt_of_lt_of_le (Nat.zero_lt_of_lt hlt.1) (hbelow.le h.toParented), ?_⟩
    cases hbelow with
    | refl => exact hlt.2
    | step hp _ => exact (h.parent_lt hp).2
  · rintro ⟨hpos, hlt⟩
    rcases (h.below_root hlt).eq_or_child with rfl | hc
    · exact absurd hpos (Nat.lt_irrefl _)
    · exact hc

end Linked

/-- Of the entities in tree order, those that satisfy a condition are listed once each, and in the
order of the source. -/
theorem InOrder.filter_ids (h : o.InOrder) (hl : o.Parented) (p : EntityId → Bool) :
    (o.ids.filter p).Pairwise o.Precedes ∧
      ∀ i, i ∈ o.ids.filter p ↔ 0 < i ∧ i < o.entities.size ∧ p i = true := by
  constructor
  · refine List.Pairwise.filter p (List.Pairwise.imp_of_mem ?_ List.pairwise_lt_range')
    intro i j hi _ hij
    exact ⟨hij, fun e e' he he' => h.range_apart (hl.mem_ids_iff.mp hi).1 hij he he'⟩
  · intro i
    rw [List.mem_filter, hl.mem_ids_iff, and_assoc]

end Outline

/-- **Creation order is tree order.**  In the outline of a header, whatever was amiss on the way,
the entities below the root are listed by their numbers from one on, as they were created, and a
walk from the children of the root comes through them in that order.  So the entities of a kind, and
those that documentation is written for, are listed in the order of the source, without omission or
repetition. -/
theorem parse_descendants [Alphabet] {options : Options} {file : String} {source : Text}
    {o : Outline} (h : parse options file source = .ok o) :
    o.descendants Outline.root = List.range' 1 o.size ∧
    o.Walks (o.children Outline.root) (List.range' 1 o.size) ∧
    (∀ kind, (o.ofKind kind).Pairwise o.Precedes ∧
      ∀ i, i ∈ o.ofKind kind ↔ 0 < i ∧ ∃ e, o.get? i = some e ∧ e.kind = kind) ∧
    o.documentable.Pairwise o.Precedes ∧
      ∀ i, i ∈ o.documentable ↔ 0 < i ∧ ∃ e, o.get? i = some e ∧ e.kind.isDocumentable = true := by
  have hnested := parse_nested h
  have horder := parse_inOrder h
  have hl := hnested.linked
  have hall : o.descendants Outline.root = o.ids := hl.descendants_root hnested.preordered
  have hwalks := hl.walks Outline.root .done
  rw [List.append_nil, List.append_nil, hall] at hwalks
  -- an entity that has a kind is there
  have hlisted : ∀ (p : EntityKind → Bool),
      (o.ids.filter (o.hasKind p)).Pairwise o.Precedes ∧
        ∀ i, i ∈ o.ids.filter (o.hasKind p) ↔
          0 < i ∧ ∃ e, o.get? i = some e ∧ p e.kind = true := by
    intro p
    obtain ⟨hsorted, hmem⟩ := horder.filter_ids hl.toParented (o.hasKind p)
    refine ⟨hsorted, fun i => ?_⟩
    rw [hmem, Outline.hasKind_iff]
    constructor
    · rintro ⟨hi, -, he⟩
      exact ⟨hi, he⟩
    · rintro ⟨hi, e, he, hp⟩
      exact ⟨hi, Outline.lt_size_of_get? he, e, he, hp⟩
  refine ⟨hall, hwalks, fun kind => ?_, ?_⟩
  · rw [Outline.ofKind, hall]
    simpa using hlisted (· == kind)
  · rw [Outline.documentable, hall]
    exact hlisted EntityKind.isDocumentable

/-- A header with a class that cannot be read, a struct that is not closed, and documentation that
nothing follows. -/
theorem parse_descendants_unclosed :
    ∃ o, parse .standard "a.h"
        "namespace a \x7b int x; class \x7d struct S \x7b int y; /** d */".toList = .ok o ∧
      o.diagnostics.size = 1 ∧ o.children Outline.root = [1, 3, 5] ∧ o.children 3 = [4] ∧
      o.descendants Outline.root = [1, 2, 3, 4, 5] ∧ o.Walks [1, 3, 5] [1, 2, 3, 4, 5] := by
  obtain ⟨o, h, hread⟩ := exists_of_toOption_any
    (p := fun o => o.diagnostics.size == 1 && o.size == 5 &&
      o.children Outline.root == [1, 3, 5] && o.children 3 == [4])
    (show (parse .standard "a.h"
      "namespace a \x7b int x; class \x7d struct S \x7b int y; /** d */".toList).toOption.any _
        = true by decide +kernel)
  simp only [Bool.and_eq_true, beq_iff_eq] at hread
  obtain ⟨⟨⟨hdiagnostics, hsize⟩, hroot⟩, hstruct⟩ := hread
  obtain ⟨hall, hwalks, -⟩ := parse_descendants h
  rw [hsize] at hall hwalks
  rw [hroot] at hwalks
  exact ⟨o, h, hdiagnostics, hroot, hstruct, hall, hwalks⟩

end HeaderOutline
