import HeaderOutline.Proofs.Comments
import HeaderOutline.Proofs.Traversal

/-! # An outline stays a tree

An outline is built from that of the root alone by changes (`Outline.Change`): entities are
attached, to any parent that is asked for, comments are replaced, and diagnostics are added.  Each
change keeps the links of entities to their parents (`Outline.Parented.apply`), and so do any
number of them (`Outline.Built.parented`).

An entity that is attached keeps the children that it has, and these keep the parents that they
have.  So an outline is a tree as long as no entity has children when it is attached
(`Outline.Grown.linked`).  Whatever the order of the changes, the entities below another one are
then those whose chain of parents leads through it, and the walk with a stack lists them as the
recursion over the tree does.
-/
namespace HeaderOutline

namespace Outline

variable {o : Outline} {i j p : EntityId}

/-! ## Changes -/

/-- What can be done to an outline. -/
inductive Change
  /-- An entity is attached, to the root if the parent that it asks for is not known. -/
  | attach (parent : EntityId) (e : Entity)
  /-- The comment of an entity is replaced. -/
  | setComment (id : EntityId) (comment : Option DocComment)
  /-- The comment of an entity is handed out and written to. -/
  | modifyComment (id : EntityId) (f : Option DocComment → Option DocComment)
  /-- A diagnostic is added. -/
  | report (d : Diagnostic)

/-- The outline after a change. -/
def apply (o : Outline) : Change → Outline
  | .attach parent e => o.attach parent e
  | .setComment id comment => o.setComment id comment
  | .modifyComment id f => o.modifyComment id f
  | .report d => o.report d

/-- The outline after some changes, the first one first. -/
def after (o : Outline) (changes : List Change) : Outline := changes.foldl apply o

@[simp] theorem after_nil (o : Outline) : o.after [] = o := rfl

@[simp] theorem after_cons (o : Outline) (c : Change) (changes : List Change) :
    o.after (c :: changes) = (o.apply c).after changes := rfl

theorem after_append (o : Outline) (cs ds : List Change) :
    o.after (cs ++ ds) = (o.after cs).after ds := List.foldl_append

/-- **What every change keeps** is kept by all of them together. -/
theorem after_induction {motive : Outline → Prop} (changes : List Change)
    (step : ∀ c ∈ changes, ∀ o, motive o → motive (o.apply c)) (h : motive o) :
    motive (o.after changes) := by
  induction changes generalizing o with
  | nil => exact h
  | cons c changes ih =>
    exact ih (fun d hd => step d (List.mem_cons_of_mem c hd)) (step c List.mem_cons_self o h)

/-- An entity that is attached, if one is, has no children yet. -/
def Change.Childless : Change → Prop
  | .attach _ e => e.children = #[]
  | _ => True

/-! ## Links -/

theorem parent?_modifyComment (o : Outline) (id : EntityId)
    (f : Option DocComment → Option DocComment) (i : EntityId) :
    (o.modifyComment id f).parent? i = o.parent? i :=
  congrFun (congrArg Lookups.parent? (o.recomments_modifyComment id f).lookups) i

theorem size_entities_modifyComment (o : Outline) (id : EntityId)
    (f : Option DocComment → Option DocComment) :
    (o.modifyComment id f).entities.size = o.entities.size := Array.size_modify

theorem children_modifyComment (o : Outline) (id : EntityId)
    (f : Option DocComment → Option DocComment) (i : EntityId) :
    (o.modifyComment id f).children i = o.children i :=
  congrFun (congrArg Lookups.children (o.recomments_modifyComment id f).lookups) i

/-- Comments do not count for the links upwards. -/
theorem Parented.modifyComment (h : o.Parented) (id : EntityId)
    (f : Option DocComment → Option DocComment) : (o.modifyComment id f).Parented := by
  have hnew : ∀ {i q}, o.get? i = some q → ∃ e, (o.modifyComment id f).get? i = some e ∧
      e.name = q.name ∧ e.fullName = q.fullName ∧ e.parent = q.parent := by
    intro i q hq
    refine ⟨_, by rw [get?_modifyComment, hq]; rfl, ?_⟩
    split <;> exact ⟨rfl, rfl, rfl⟩
  refine ⟨?_, fun i e hi he => ?_, fun i p hp => ?_⟩
  · obtain ⟨r, hr, hparent, hname, hfull⟩ := h.rooted
    obtain ⟨r', hr', hname', hfull', hparent'⟩ := hnew hr
    exact ⟨r', hr', hparent'.trans hparent, hname'.trans hname, hfull'.trans hfull⟩
  · obtain ⟨q, hq⟩ := exists_get? (size_entities_modifyComment o id f ▸ lt_size_of_get? he)
    obtain ⟨e', he', hname, hfull, hparent⟩ := hnew hq
    obtain rfl : e = e' := Option.some.inj (he.symm.trans he')
    obtain ⟨p, s, hp, hlt, hs, hqualify⟩ := h.parent i q hi hq
    obtain ⟨s', hs', -, hfull', -⟩ := hnew hs
    exact ⟨p, s', hparent.trans hp, hlt, hs', by rw [hfull, hqualify, hfull', hname]⟩
  · rw [parent?_modifyComment] at hp
    rw [children_modifyComment]
    exact h.mem_children i p hp

/-- Comments do not count for the links. -/
theorem Linked.modifyComment (h : o.Linked) (id : EntityId)
    (f : Option DocComment → Option DocComment) : (o.modifyComment id f).Linked := by
  refine .of_children (h.toParented.modifyComment id f) fun p e he => ?_
  rw [get?_modifyComment] at he
  obtain ⟨q, hq, rfl⟩ := Option.map_eq_some_iff.mp he
  have hchildren : (if p = id then { q with comment := f q.comment } else q : Entity).children
      = q.children := by split <;> rfl
  rw [hchildren, h.children p q hq, size_entities_modifyComment]
  exact List.filter_congr fun i _ => by rw [parent?_modifyComment]

/-- **A change keeps the links upwards.** -/
theorem Parented.apply (h : o.Parented) (c : Change) : (o.apply c).Parented := by
  cases c with
  | attach parent e => exact h.attach parent e
  | setComment id comment => exact h.modifyComment id fun _ => comment
  | modifyComment id f => exact h.modifyComment id f
  | report d => exact h.of_entities rfl

/-- **A change keeps the links**, if an entity that is attached has no children. -/
theorem Linked.apply (h : o.Linked) {c : Change} (hc : c.Childless) : (o.apply c).Linked := by
  cases c with
  | attach parent e => exact h.attach parent hc
  | setComment id comment => exact h.modifyComment id fun _ => comment
  | modifyComment id f => exact h.modifyComment id f
  | report d => exact h.of_entities rfl

/-- An outline was built from that of the root alone. -/
def Built (o : Outline) : Prop := ∃ file source changes, o = (ofSource file source).after changes

/-- An outline was built from that of the root alone, and no entity had children when it was
attached. -/
def Grown (o : Outline) : Prop :=
  ∃ file source changes, (∀ c ∈ changes, c.Childless) ∧ o = (ofSource file source).after changes

/-- **Whatever is done to an outline**, its entities have their parents. -/
theorem Built.parented (h : o.Built) : o.Parented := by
  obtain ⟨file, source, changes, rfl⟩ := h
  exact after_induction changes (fun c _ _ h => h.apply c) (.ofSource file source)

/-- **An outline that has grown is linked.** -/
theorem Grown.linked (h : o.Grown) : o.Linked := by
  obtain ⟨file, source, changes, hc, rfl⟩ := h
  exact after_induction changes (fun c hm _ h => h.apply (hc c hm)) (.ofSource file source)

/-! ## What lies below an entity -/

/-- A walk is determined by the entities that are to be visited. -/
theorem Walks.unique {stack visited visited' : List EntityId} (h : o.Walks stack visited)
    (h' : o.Walks stack visited') : visited = visited' := by
  induction h generalizing visited' with
  | done =>
    cases h'
    rfl
  | visit _ ih =>
    cases h' with
    | visit more => rw [ih more]

namespace Treelike

/-- The walk from the children of an entity comes to its end, through what lies below it. -/
theorem walks_iff (h : o.Treelike) {visited : List EntityId} :
    o.Walks (o.children i) visited ↔ visited = o.descendants i := by
  have hwalk := h.walks i .done
  rw [List.append_nil, List.append_nil] at hwalk
  constructor
  · intro hw
    exact hw.unique hwalk
  · rintro rfl
    exact hwalk

/-- Below an entity lies what has it among the parents of its parents. -/
theorem mem_descendants_iff_parent (h : o.Treelike) :
    j ∈ o.descendants i ↔ ∃ p, o.parent? j = some p ∧ o.Below i p := by
  rw [h.mem_descendants_iff]
  constructor
  · rintro ⟨c, hc, hbelow⟩
    cases hbelow with
    | refl => exact ⟨i, hc, .refl⟩
    | step hp hbelow => exact ⟨_, hp, (Below.of_parent hc).trans hbelow⟩
  · rintro ⟨p, hp, hbelow⟩
    rcases (Below.step hp hbelow).eq_or_child with rfl | hc
    · exact absurd (hbelow.le h.toParented) (Nat.not_le_of_lt (h.parent_lt hp).1)
    · exact hc

/-- Nothing lies below itself. -/
theorem notMem_descendants (h : o.Treelike) : i ∉ o.descendants i := by
  intro hm
  obtain ⟨p, hp, hbelow⟩ := h.mem_descendants_iff_parent.mp hm
  exact Nat.not_le_of_lt (h.parent_lt hp).1 (hbelow.le h.toParented)

end Treelike

/-- Nothing is listed twice. -/
theorem Linked.nodup_descendants (h : o.Linked) (i : EntityId) : (o.descendants i).Nodup := by
  induction i using h.leaves_induction with
  | node i ih =>
    rw [h.descendants_eq, List.nodup_flatMap]
    refine ⟨fun c hc => List.nodup_cons.mpr ⟨h.notMem_descendants, ih c hc⟩, ?_⟩
    -- what lies below two children lies below one, so that they are the same
    refine (h.children_pairwise i).imp_of_mem fun {a b} ha hb hab => ?_
    have hbelow : ∀ {c j}, j ∈ c :: o.descendants c → o.Below c j := by
      intro c j hj
      rcases List.mem_cons.mp hj with rfl | hj
      · exact .refl
      · obtain ⟨p, hp, hb⟩ := h.mem_descendants_iff_parent.mp hj
        exact .step hp hb
    intro j hja hjb
    have heq := Below.unique h.toParented (h.mem_children_iff.mp ha) (h.mem_children_iff.mp hb)
      (hbelow hja) (hbelow hjb)
    exact absurd heq (Nat.ne_of_lt hab)

/-! ## Trees -/

/-- The links of an outline make up a tree, and the walk over it finds what lies below an entity. -/
structure IsTree (o : Outline) : Prop where
  parent?_root : o.parent? root = none
  parent_lt : ∀ i, 0 < i → i < o.entities.size → ∃ p, o.parent? i = some p ∧ p < i
  children_sorted : ∀ p, (o.children p).Pairwise (· < ·)
  mem_children : ∀ p i, i ∈ o.children p ↔ o.parent? i = some p
  /-- Every entity but the root is a child of one entity, and of no other. -/
  child_unique : ∀ i, 0 < i → i < o.entities.size → ∃! p, i ∈ o.children p
  /-- What lies below an entity is listed by a recursion over the tree, each entity before those
  below it. -/
  descendants_eq : ∀ i, o.descendants i = (o.children i).flatMap fun c => c :: o.descendants c
  /-- The walk with a stack comes to its end, and that is the list that it gives. -/
  walks : ∀ i visited, o.Walks (o.children i) visited ↔ visited = o.descendants i
  descendants_nodup : ∀ i, (o.descendants i).Nodup
  mem_descendants : ∀ i j, j ∈ o.descendants i ↔ ∃ p, o.parent? j = some p ∧ o.Below i p

theorem Linked.tree (h : o.Linked) : o.IsTree where
  parent?_root := by
    obtain ⟨r, hr, hparent, -⟩ := h.rooted
    rw [Outline.parent?, hr, Option.bind_some, hparent]
  parent_lt i hi hlt := by
    obtain ⟨e, he⟩ := exists_get? hlt
    obtain ⟨p, -, hp, -⟩ := h.exists_parent hi he
    exact ⟨p, hp, (h.parent_lt hp).1⟩
  children_sorted := h.children_pairwise
  mem_children _ _ := h.mem_children_iff
  child_unique i hi hlt := by
    obtain ⟨e, he⟩ := exists_get? hlt
    obtain ⟨p, -, hp, -⟩ := h.exists_parent hi he
    refine ⟨p, h.mem_children_iff.mpr hp, fun q hq => ?_⟩
    exact Option.some.inj ((h.mem_children_iff.mp hq).symm.trans hp)
  descendants_eq := h.descendants_eq
  walks _ _ := h.walks_iff
  descendants_nodup := h.nodup_descendants
  mem_descendants _ _ := h.mem_descendants_iff_parent

/-- To replace the comment of an entity succeeds exactly if there is such an entity, and else
nothing changes. -/
theorem replaceComment_of_get? (o : Outline) (id : EntityId) (comment : Option DocComment) :
    ((o.replaceComment id comment).1 = true ↔ ∃ e, o.get? id = some e) ∧
      (o.get? id = none → o.replaceComment id comment = (false, o)) := by
  constructor
  · rw [replaceComment, decide_eq_true_eq]
    exact ⟨exists_get?, fun ⟨_, he⟩ => lt_size_of_get? he⟩
  · intro hnone
    have hsize : ¬id < o.entities.size := fun hlt => by
      obtain ⟨e, he⟩ := exists_get? hlt
      rw [hnone] at he
      cases he
    have hsame : o.entities.modify id (fun e => { e with comment := comment }) = o.entities := by
      simp [Array.modify, Array.modifyM, hsize]
    rw [replaceComment, setComment, modifyComment, hsame, decide_eq_false hsize]

/-- **An outline stays a tree** as long as no entity has children when it is attached: entities
are attached to any parents, known or not, and comments are changed in between.  A change of a
comment leaves everything else as it is, and with it the result of every lookup that does not ask
for the comment. -/
theorem Grown.isTree (h : o.Grown) :
    o.IsTree ∧
      (∀ id comment, o.Recomments id (fun _ => comment) (o.replaceComment id comment).2 ∧
        ((o.replaceComment id comment).1 = true ↔ ∃ e, o.get? id = some e) ∧
        (o.get? id = none → o.replaceComment id comment = (false, o))) ∧
      ∀ id f, o.Recomments id f (o.modifyComment id f) :=
  ⟨h.linked.tree,
    fun id comment => ⟨o.recomments_modifyComment id _, o.replaceComment_of_get? id comment⟩,
    o.recomments_modifyComment⟩

/-- A member is attached after the next entity was, and another one to an entity that is not
known. -/
theorem isTree_unknown_parent :
    ∃ o : Outline, o = (ofSource "a.h" []).after
        [.attach 0 (.bare .namespaceDecl ['a'] []), .attach 0 (.bare .structDecl ['b'] []),
          .attach 1 (.bare .variableDecl ['c'] []), .setComment 2 none,
          .attach 9 (.bare .variableDecl ['d'] [])] ∧
      o.Grown ∧ o.IsTree ∧ o.children 0 = [1, 2, 4] ∧ o.descendants 0 = [1, 3, 2, 4] ∧
      o.Walks [1, 2, 4] [1, 3, 2, 4] := by
  refine ⟨_, rfl, ?_⟩
  generalize ho : (ofSource "a.h" []).after _ = o
  have hread : o.children 0 = [1, 2, 4] ∧ o.descendants 0 = [1, 3, 2, 4] := by
    rw [← ho]
    decide +kernel
  have hgrown : o.Grown := ⟨_, _, _, by simp [Change.Childless, Entity.bare], ho.symm⟩
  obtain ⟨htree, -⟩ := Grown.isTree hgrown
  have hwalks := (htree.walks 0 [1, 3, 2, 4]).mpr hread.2.symm
  rw [hread.1] at hwalks
  exact ⟨hgrown, htree, hread.1, hread.2, hwalks⟩

/-- **An entity that brings children along takes them from nobody.**  A copy of a namespace with a
member is attached: both namespaces have the member for a child, and it is listed twice.  And
whether an entity carries a comment is a lookup that does depend on comments. -/
theorem not_isTree_copy :
    ∃ (o : Outline) (e : Entity) (c : DocComment), o = (ofSource "a.h" []).after
        [.attach 0 (.bare .namespaceDecl ['a'] []), .attach 1 (.bare .variableDecl ['x'] [])] ∧
      o.get? 1 = some e ∧ (o.attach 0 e).children 1 = [2] ∧ (o.attach 0 e).children 3 = [2] ∧
      (o.attach 0 e).descendants 0 = [1, 2, 3, 2] ∧ ¬(o.attach 0 e).IsTree ∧
      o.hasComment 2 = false ∧ (o.replaceComment 2 (some c)).2.hasComment 2 = true := by
  refine ⟨_, _, DocComment.unread [], rfl, rfl, rfl, rfl, rfl, fun h => ?_, rfl, rfl⟩
  have hnodup := h.descendants_nodup 0
  revert hnodup
  decide

end Outline

/-! ## Outlines of headers -/

namespace Building

/-- What has been built grows by changes of its outline, and no entity has children when it is
attached. -/
def Grows (b b' : Building) : Prop :=
  ∃ changes : List Outline.Change, (∀ c ∈ changes, c.Childless) ∧
    b'.outline = b.outline.after changes

namespace Grows

variable {b b' b'' : Building}

theorem refl (b : Building) : b.Grows b := ⟨[], List.forall_mem_nil _, rfl⟩

theorem trans (h : b.Grows b') (h' : b'.Grows b'') : b.Grows b'' := by
  obtain ⟨cs, hc, hcs⟩ := h
  obtain ⟨ds, hd, hds⟩ := h'
  exact ⟨cs ++ ds, List.forall_mem_append.mpr ⟨hc, hd⟩, by rw [hds, hcs, Outline.after_append]⟩

theorem report (b : Building) (d : Diagnostic) : b.Grows (b.report d) :=
  ⟨[.report d], List.forall_mem_singleton.mpr trivial, rfl⟩

theorem emit (b : Building) (d : Draft) : b.Grows (b.emit d) :=
  ⟨[.attach _ _], List.forall_mem_singleton.mpr (rfl : Entity.children _ = #[]), rfl⟩

/-- What a construct amounts to is added by changes of the outline. -/
theorem add (b : Building) (size : Nat) (item : Item) : b.Grows (b.add size item) := by
  cases item with
  | entity d => exact .emit b d
  | scope d access => exact .emit b d
  | access level d => exact .emit (b.withScopes (b.scopes.setAccess level)) d
  | definition definition d =>
    exact .emit { b with definitions := b.definitions.define definition } d
  | suspect warning d => exact (report b (warning.diagnostic size)).trans (.emit _ d)
  | close brace =>
    simp only [Building.add]
    cases b.scopes.pop? with
    | none => exact .report b _
    | some popped => exact .refl b
  | linkage | documentation | nothing => exact .refl b

end Grows

theorem grows_finish (b : Building) : ∃ changes : List Outline.Change,
    (∀ c ∈ changes, c.Childless) ∧ b.finish = b.outline.after changes := by
  unfold finish
  split
  · next comment _ =>
    exact ⟨[.attach Outline.root (trailing comment)], List.forall_mem_singleton.mpr rfl, rfl⟩
  · exact ⟨[], List.forall_mem_nil _, rfl⟩

end Building

/-- **The outline of a header** has grown from that of the root alone, so that what holds of all
such outlines holds of it. -/
theorem parse_grown [Alphabet] {options : Options} {file : String} {source : Text} {o : Outline}
    (h : parse options file source = .ok o) : o.Grown := by
  obtain ⟨-, b, hrun, rfl⟩ := parse_eq_ok_iff.mp h
  obtain ⟨cs, hc, hcs⟩ : (Building.start file source options.definitions).Grows b :=
    Building.related_of_run (R := Building.Grows) .refl .trans (fun b => .add b source.size) .report
      hrun
  obtain ⟨ds, hd, hds⟩ := b.grows_finish
  exact ⟨file, source, cs ++ ds, List.forall_mem_append.mpr ⟨hc, hd⟩,
    by rw [hds, hcs, Outline.after_append]; rfl⟩

end HeaderOutline
