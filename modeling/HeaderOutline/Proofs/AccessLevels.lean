import HeaderOutline.Proofs.Nesting
import HeaderOutline.Proofs.Regular
import HeaderOutline.Text.Unicode
import Mathlib.Data.List.Nodup

/-! # Access levels

The access level of an entity is kept in a stack of frames while the header is read, and can be
read off the outline afterwards: it is the level that the last access specifier up to the entity
names among the members of its scope, and where there is none, the first level of that scope
(`Outline.accessBehind`).

So that nothing leaks from one scope into another, the level of each open scope is at any time the
one behind all members that the scope has by then (`Frame.Levelled`).  A new member changes this
level for its own scope alone, since no two open scopes belong to the same entity as long as there
is no block of declarations with a linkage (`Building.Levelled`).

The main result is `parse_access_levels`: **in the outline of a header without such blocks, every
entity below the root has the level that its scope has by then**.
-/
namespace HeaderOutline

/-! ## Levels in an outline -/

/-- The level that an access specifier sets, which is the one that it is named for. -/
def Entity.level? (e : Entity) : Option Access :=
  if e.kind = .accessSpecifier then Access.all.find? (·.label.toList == e.name) else none

theorem Entity.level?_of_label {e : Entity} {level : Access} (hk : e.kind = .accessSpecifier)
    (hn : e.name = level.label.toList) : e.level? = some level := by
  rw [level?, if_pos hk, hn]
  cases level with
  | pub => rfl
  | prot => rfl
  | priv => rfl

namespace Outline

variable {o : Outline} {i j p q : EntityId} {e : Entity} {members : List EntityId}

/-- The level that an entity sets, if it is an access specifier. -/
def level? (o : Outline) (i : EntityId) : Option Access := (o.get? i).bind Entity.level?

/-- The level in the scope of an entity before any specifier. -/
def firstAccess (o : Outline) (p : EntityId) : Access :=
  ((o.get? p).map (·.kind.firstAccess)).getD .pub

/-- The level in the scope of an entity behind some of its members: the one that the last
specifier among them sets. -/
def accessBehind (o : Outline) (p : EntityId) (members : List EntityId) : Access :=
  (members.filterMap o.level?).getLastD (o.firstAccess p)

/-- An entity has the level that its scope has by then, itself being counted. -/
def Levelled (o : Outline) (i : EntityId) : Prop :=
  ∃ e p before behind, o.get? i = some e ∧ e.parent = some p ∧
    o.children p = before ++ i :: behind ∧ e.access = o.accessBehind p (before ++ [i])

theorem accessBehind_concat (o : Outline) (p : EntityId) (members : List EntityId)
    (i : EntityId) :
    o.accessBehind p (members ++ [i]) = (o.level? i).getD (o.accessBehind p members) := by
  unfold accessBehind
  rw [List.filterMap_append]
  cases h : o.level? i with
  | none => simp [h]
  | some level => simp [h]

theorem lt_size_of_mem_children (h : o.Linked) (hi : i ∈ o.children p) :
    i < o.entities.size :=
  (h.parent_lt (h.mem_children_iff.mp hi)).2

/-! ## What a new entity changes -/

section Attach

variable (parent : EntityId) (new : Entity)

theorem level?_attach_of_lt (hi : i < o.entities.size) :
    (o.attach parent new).level? i = o.level? i := by
  obtain ⟨e, he⟩ := exists_get? hi
  obtain ⟨e', he', hkind, hname, -⟩ := exists_get?_attach parent new he
  rw [level?, level?, he, he', Option.bind_some, Option.bind_some, Entity.level?, Entity.level?,
    hkind, hname]

theorem level?_attach_size (o : Outline) (parent : EntityId) (new : Entity) :
    (o.attach parent new).level? o.entities.size = new.level? := by
  rw [level?, get?_attach_size]
  rfl

theorem firstAccess_attach_of_lt (hp : p < o.entities.size) :
    (o.attach parent new).firstAccess p = o.firstAccess p := by
  obtain ⟨e, he⟩ := exists_get? hp
  obtain ⟨e', he', hkind, -⟩ := exists_get?_attach parent new he
  rw [firstAccess, firstAccess, he, he', Option.map_some, Option.map_some, hkind]

theorem children_attach_size (o : Outline) (parent : EntityId) (new : Entity) :
    (o.attach parent new).children o.entities.size = new.children.toList := by
  rw [children, get?_attach_size]
  rfl

theorem accessBehind_attach (hp : p < o.entities.size)
    (hm : ∀ i ∈ members, i < o.entities.size) :
    (o.attach parent new).accessBehind p members = o.accessBehind p members := by
  have hlevels : members.filterMap (o.attach parent new).level? = members.filterMap o.level? :=
    List.filterMap_congr fun i hi => level?_attach_of_lt parent new (hm i hi)
  rw [accessBehind, accessBehind, hlevels, firstAccess_attach_of_lt parent new hp]

/-- The level of an entity that is there stays right. -/
theorem Levelled.attach (h : o.Levelled i) (hl : o.Linked) :
    (o.attach parent new).Levelled i := by
  obtain ⟨e, p, before, behind, he, hparent, hchildren, haccess⟩ := h
  obtain ⟨e', he', -, -, -, hparent', haccess'⟩ := exists_get?_attach parent new he
  have hp : p < o.entities.size := by
    have hlt := hl.parent_lt (i := i) (p := p) (by rw [parent?, he]; exact hparent)
    exact Nat.lt_trans hlt.1 hlt.2
  have hbefore : ∀ j ∈ before ++ [i], j < o.entities.size := by
    intro j hj
    apply lt_size_of_mem_children hl (p := p)
    rw [hchildren]
    rcases List.mem_append.mp hj with hj | hj
    · exact List.mem_append_left _ hj
    · exact List.mem_append_right _ (List.mem_singleton.mp hj ▸ List.mem_cons_self)
  refine ⟨e', p, before, behind ++ if o.hostOf parent = p then [o.entities.size] else [], he',
    hparent'.trans hparent, ?_, ?_⟩
  · rw [children_attach_of_lt parent new hp, hchildren, List.append_assoc, List.cons_append]
  · rw [accessBehind_attach parent new hp hbefore, haccess', haccess]

end Attach

/-- A new entity has the right level if it sets that level itself, or has the one that its scope
has by then. -/
theorem levelled_attach (hl : o.Linked) (hp : p < o.entities.size)
    (ha : e.access = e.level?.getD (o.accessBehind p (o.children p))) :
    (o.attach p e).Levelled o.entities.size ∧
      (o.attach p e).accessBehind p ((o.attach p e).children p) = e.access := by
  have hhost : o.hostOf p = p := if_pos hp
  have hchildren : (o.attach p e).children p = o.children p ++ [o.entities.size] := by
    rw [children_attach_of_lt p e hp, if_pos hhost]
  have haccess : (o.attach p e).accessBehind p (o.children p ++ [o.entities.size])
      = e.access := by
    rw [accessBehind_concat, level?_attach_size, ha,
      accessBehind_attach p e hp fun i hi => lt_size_of_mem_children hl hi]
  refine ⟨⟨_, p, o.children p, [], get?_attach_size o p e, ?_, hchildren, haccess.symm⟩, ?_⟩
  · rw [hhost]
  · rw [hchildren, haccess]

end Outline

/-! ## Levels in the open scopes -/

/-- The open scopes, the innermost first. -/
def Scopes.frames (s : Scopes) : List Frame := s.inner ++ [s.outermost]

namespace Scopes

theorem opened_eq_map (s : Scopes) : s.opened = s.frames.map (·.entity) := by
  rw [opened, frames, List.map_append]
  rfl

/-- The innermost scope comes first, also when its level is set. -/
theorem exists_frames (s : Scopes) :
    ∃ others, s.frames = s.current :: others ∧
      ∀ level, (s.setAccess level).frames = { s.current with access := level } :: others := by
  obtain ⟨inner, outermost⟩ := s
  cases inner with
  | nil => exact ⟨[], rfl, fun _ => rfl⟩
  | cons f fs => exact ⟨fs ++ [outermost], rfl, fun _ => rfl⟩

end Scopes

/-- The level of an open scope is the one behind all members that the scope has by then. -/
structure Frame.Levelled (o : Outline) (f : Frame) : Prop where
  entity_lt : f.entity < o.entities.size
  access : f.access = o.accessBehind f.entity (o.children f.entity)

/-- A new member changes the level of no scope but its own. -/
theorem Frame.Levelled.attach {o : Outline} {f : Frame} (h : f.Levelled o) (hl : o.Linked)
    {p : EntityId} (hp : p < o.entities.size) (hne : f.entity ≠ p) (e : Entity) :
    f.Levelled (o.attach p e) := by
  have hhost : o.hostOf p ≠ f.entity := by
    rw [Outline.hostOf, if_pos hp]
    exact Ne.symm hne
  constructor
  · rw [Outline.size_entities_attach]
    exact Nat.lt_succ_of_lt h.entity_lt
  · rw [Outline.children_attach_of_lt p e h.entity_lt, if_neg hhost, List.append_nil,
      Outline.accessBehind_attach p e h.entity_lt fun i hi => Outline.lt_size_of_mem_children hl hi]
    exact h.access

namespace Building

variable {b : Building} {d : Draft} {level : Access}

/-- The levels are right by now, in the outline and in the open scopes, of which no two belong
to the same entity. -/
structure Levelled (b : Building) : Prop where
  linked : b.outline.Linked
  entities : ∀ i, 0 < i → i < b.outline.entities.size → b.outline.Levelled i
  frames : ∀ f ∈ b.scopes.frames, f.Levelled b.outline
  distinct : b.scopes.opened.Nodup

/-- The entity that a draft becomes next. -/
def entityOf (b : Building) (d : Draft) : Entity :=
  d.toEntity b.enclosing b.scopes.current.access b.pending

theorem level?_entityOf (h : ¬d.IsSpecifier) : (b.entityOf d).level? = none := by
  refine if_neg fun hk => h ?_
  change d.form.kindIn b.enclosing d.name = .accessSpecifier at hk
  unfold Form.kindIn at hk
  split at hk
  · next kind hform =>
    subst hk
    exact hform
  · cases hk
  · split at hk
    · cases hk
    · cases hk
  · split at hk
    · split at hk
      · cases hk
      · cases hk
    · cases hk

theorem level?_entityOf_specifier (h : d.IsSpecifier) (hn : d.name = level.label.toList) :
    (b.entityOf d).level? = some level := by
  refine Entity.level?_of_label ?_ hn
  change d.form.kindIn b.enclosing d.name = .accessSpecifier
  rw [show d.form = .plain .accessSpecifier from h]
  rfl

/-- **A new entity in the innermost scope keeps the levels right**, if the level of that scope is
the one that the entity sets, or has been right before. -/
theorem levelled_emit {others : List Frame} (hl : b.outline.Linked)
    (he : ∀ i, 0 < i → i < b.outline.entities.size → b.outline.Levelled i)
    (hf : b.scopes.frames = b.scopes.current :: others)
    (ho : ∀ f ∈ others, f.Levelled b.outline)
    (hp : b.scopes.current.entity < b.outline.entities.size)
    (ha : b.scopes.current.access = (b.entityOf d).level?.getD
      (b.outline.accessBehind b.scopes.current.entity
        (b.outline.children b.scopes.current.entity)))
    (hd : b.scopes.opened.Nodup) : (b.emit d).Levelled := by
  obtain ⟨hnew, hbehind⟩ := Outline.levelled_attach (e := b.entityOf d) hl hp ha
  refine ⟨hl.attach _ rfl, fun i hi hlt => ?_, fun f hmem => ?_, hd⟩
  · change i < (b.outline.attach _ _).entities.size at hlt
    rw [Outline.size_entities_attach] at hlt
    rcases Nat.lt_succ_iff_lt_or_eq.mp hlt with hlt | rfl
    · exact (he i hi hlt).attach _ _ hl
    · exact hnew
  · change f ∈ b.scopes.frames at hmem
    rw [Scopes.opened_eq_map, hf, List.map_cons, List.nodup_cons] at hd
    rw [hf] at hmem
    rcases List.mem_cons.mp hmem with rfl | hmem
    · constructor
      · change _ < (b.outline.attach _ _).entities.size
        rw [Outline.size_entities_attach]
        exact Nat.lt_succ_of_lt hp
      · exact hbehind.symm
    · refine (ho f hmem).attach hl hp ?_ _
      intro heq
      exact hd.1 (heq ▸ List.mem_map_of_mem hmem)

/-- Only the entities and the open scopes count for the levels. -/
theorem Levelled.of_eq {b' : Building} (h : b.Levelled)
    (he : b'.outline.entities = b.outline.entities) (hs : b'.scopes = b.scopes) :
    b'.Levelled := by
  obtain ⟨⟨_, _, _, _⟩, _, _, _⟩ := b
  obtain ⟨⟨_, _, _, _⟩, _, _, _⟩ := b'
  subst he hs
  exact ⟨h.linked.of_entities rfl, h.entities,
    fun f hf => ⟨(h.frames f hf).entity_lt, (h.frames f hf).access⟩, h.distinct⟩

/-- An entity that is no specifier gets the level of its scope. -/
theorem Levelled.emit (h : b.Levelled) (hd : ¬d.IsSpecifier) : (b.emit d).Levelled := by
  obtain ⟨others, hf, -⟩ := b.scopes.exists_frames
  have hcurrent := h.frames b.scopes.current (by rw [hf]; exact List.mem_cons_self)
  refine levelled_emit h.linked h.entities hf (fun f hmem => h.frames f ?_) hcurrent.entity_lt ?_
    h.distinct
  · rw [hf]
    exact List.mem_cons_of_mem _ hmem
  · rw [level?_entityOf hd]
    exact hcurrent.access

/-- An access specifier sets the level of its scope, and has that level. -/
theorem Levelled.setAccess (h : b.Levelled) (hd : d.IsSpecifier)
    (hn : d.name = level.label.toList) :
    ((b.withScopes (b.scopes.setAccess level)).emit d).Levelled := by
  obtain ⟨others, hf, hset⟩ := b.scopes.exists_frames
  have hcurrent := b.scopes.current_setAccess level
  have hframes : (b.scopes.setAccess level).frames
      = (b.scopes.setAccess level).current :: others := by rw [hset, hcurrent]
  refine levelled_emit h.linked h.entities hframes (fun f hmem => h.frames f ?_) ?_ ?_ ?_
  · rw [hf]
    exact List.mem_cons_of_mem _ hmem
  · change (b.scopes.setAccess level).current.entity < _
    rw [hcurrent]
    exact (h.frames b.scopes.current (by rw [hf]; exact List.mem_cons_self)).entity_lt
  · rw [level?_entityOf_specifier hd hn]
    change (b.scopes.setAccess level).current.access = level
    rw [hcurrent]
  · change (b.scopes.setAccess level).opened.Nodup
    rw [(opened_setAccess b.scopes level).1]
    exact h.distinct

/-- A scope starts with the first level of its kind, and belongs to an entity of its own. -/
theorem Levelled.push (h : b.Levelled) {kind : EntityKind} (hform : d.form = .plain kind)
    (hkind : kind ≠ .accessSpecifier) :
    ((b.emit d).withScopes ((b.emit d).scopes.push b.nextId kind.firstAccess)).Levelled := by
  have hemit := h.emit (Draft.not_isSpecifier hform hkind)
  have hget : (b.emit d).outline.get? b.nextId = some _ := Outline.get?_attach_size b.outline _ _
  refine ⟨hemit.linked, hemit.entities, fun f hmem => ?_, ?_⟩
  · rcases List.mem_cons.mp hmem with rfl | hmem
    · refine ⟨Outline.lt_size_of_get? hget, ?_⟩
      have hchildren : (b.emit d).outline.children b.nextId = [] :=
        Outline.children_attach_size b.outline _ _
      change kind.firstAccess = (b.emit d).outline.accessBehind b.nextId
        ((b.emit d).outline.children b.nextId)
      rw [hchildren, Outline.accessBehind, Outline.firstAccess, hget]
      change kind.firstAccess = (d.form.kindIn b.enclosing d.name).firstAccess
      rw [hform]
      rfl
    · exact hemit.frames f hmem
  · change (b.nextId :: b.scopes.opened).Nodup
    refine List.nodup_cons.mpr ⟨fun hmem => ?_, h.distinct⟩
    rw [Scopes.opened_eq_map] at hmem
    obtain ⟨f, hf, heq⟩ := List.mem_map.mp hmem
    have hlt := (h.frames f hf).entity_lt
    rw [heq] at hlt
    exact Nat.lt_irrefl _ hlt

/-- **One construct keeps the levels right.** -/
theorem Levelled.add (h : b.Levelled) (size : Nat) {item : Item} (hi : item.Regular) :
    (b.add size item).Levelled := by
  cases item with
  | entity d => exact h.emit hi
  | scope d first =>
    obtain ⟨kind, hform, hkind, rfl⟩ := hi
    exact h.push hform hkind
  | linkage => exact hi.elim
  | close brace =>
    simp only [Building.add]
    cases hp : b.scopes.pop? with
    | none => exact h.of_eq rfl rfl
    | some popped =>
      obtain ⟨f, rest⟩ := popped
      have hframes : b.scopes.frames = f :: rest.frames := by
        rw [Scopes.pop?] at hp
        split at hp
        · cases hp
        · next hinner =>
          obtain ⟨rfl, rfl⟩ := Prod.mk.inj (Option.some.inj hp)
          rw [Scopes.frames, hinner]
          rfl
      have hdistinct := h.distinct
      rw [Scopes.opened_eq_map, hframes, List.map_cons, List.nodup_cons,
        ← Scopes.opened_eq_map] at hdistinct
      refine ⟨h.linked, h.entities, fun g hg => h.frames g ?_, hdistinct.2⟩
      rw [hframes]
      exact List.mem_cons_of_mem f hg
  | access level d => exact h.setAccess hi.1 hi.2
  | definition definition d =>
    have hb : ({ b with definitions := b.definitions.define definition } : Building).Levelled :=
      h.of_eq rfl rfl
    exact hb.emit hi
  | suspect w d =>
    have hb : (b.report (w.diagnostic size)).Levelled := h.of_eq rfl rfl
    exact hb.emit hi.1
  | documentation comment => exact h.of_eq rfl rfl
  | nothing => exact h

/-- **A whole reading keeps the levels right**, if no token asks for a linkage. -/
theorem Levelled.run {policy : Recovery.Policy} {merge : Bool} {size : Nat} {done : Building}
    {ts : List Token} (h : b.Levelled) (hts : ∀ t ∈ ts, t.kind ≠ .keyword .externKw)
    (hr : run policy merge size b ts = .ok done) : done.Levelled := by
  induction b, ts using run_induction merge with
  | nil b ts hnil =>
    obtain rfl := Except.ok.inj ((run_of_nil hnil).symm.trans hr)
    exact h
  | cons b ts t behind front ih =>
    obtain ⟨b', ha, hr⟩ := exists_after_of_run front hr
    have hfront : t :: behind <:+ ts := front ▸ Tokens.skipTrivia_suffix ts
    have hnext : (Construct.read b.definitions merge t behind).next <:+ ts :=
      next_suffix_of_front _ _ front
    refine ih b' ?_ (fun u hu => hts u (hnext.subset hu)) hr
    rcases Construct.read_regular b.definitions merge t behind with hregular | ⟨hk, -⟩
    · obtain ⟨item, rest, ho, rfl⟩ | ⟨_, _, _, -, -, rfl⟩ := after_eq_ok ha
      · rw [ho] at hregular
        exact h.add size hregular
      · exact h.of_eq rfl rfl
    · exact absurd hk (hts t (hfront.subset List.mem_cons_self))

theorem levelled_start (file : String) (source : Text) (ds : Definitions) :
    (start file source ds).Levelled := by
  refine ⟨Outline.Linked.ofSource file source, fun i hi hlt => ?_, fun f hf => ?_, ?_⟩
  · exact absurd hi (Nat.not_lt_of_le (Nat.le_of_lt_succ hlt))
  · obtain rfl := List.mem_singleton.mp hf
    exact ⟨Nat.zero_lt_one, rfl⟩
  · exact List.nodup_singleton _

end Building

/-- **Access levels follow the nearest specifier.**  In the outline of a header without the keyword
`extern`, let an entity lie below the root that is not the comment that the header ends with.  It
stands among the members of its parent, and has the level that the last access specifier up to it
names there; if there is none, it is private in a class and public elsewhere. -/
theorem parse_access_levels [Alphabet] {options : Options} {file : String} {source : Text}
    {o : Outline} {i : EntityId} {e : Entity} (h : parse options file source = .ok o)
    (hlinkage : ∀ t ∈ Token.scan options.limits source, t.kind ≠ .keyword .externKw)
    (hi : 0 < i) (he : o.get? i = some e) (ht : ¬o.IsTrailing i) :
    ∃ p before behind, e.parent = some p ∧ o.children p = before ++ i :: behind ∧
      e.access = o.accessBehind p (before ++ [i]) := by
  obtain ⟨-, b, hr, rfl⟩ := parse_eq_ok_iff.mp h
  have hdone : b.Levelled := (Building.levelled_start file source options.definitions).run
    (fun t hmem => hlinkage t (List.dropLast_subset _ hmem)) hr
  have hlevelled : b.finish.Levelled i := by
    have hlt := Outline.lt_size_of_get? he
    unfold Building.finish at hlt ht ⊢
    cases hpending : b.pending with
    | none =>
      rw [hpending] at hlt
      exact hdone.entities i hi hlt
    | some c =>
      simp only [hpending, Outline.size_entities_attach] at hlt ht ⊢
      rcases Nat.lt_succ_iff_lt_or_eq.mp hlt with hlt | rfl
      · exact (hdone.entities i hi hlt).attach _ _ hdone.linked
      · exact absurd (Outline.isTrailing_attach b.outline c) ht
  obtain ⟨e', p, before, behind, he', hparent, hchildren, haccess⟩ := hlevelled
  obtain rfl : e' = e := Option.some.inj (he'.symm.trans he)
  exact ⟨p, before, behind, hparent, hchildren, haccess⟩

/-- A member behind a specifier in a class. -/
theorem parse_access_levels_member :
    ∃ o e before behind,
      parse .standard "a.h" "class A { int a; protected: int b; }; int c;".toList = .ok o ∧
      o.get? 4 = some e ∧ e.name = "b".toList ∧ e.parent = some 1 ∧
      o.children 1 = before ++ 4 :: behind ∧ e.access = o.accessBehind 1 (before ++ [4]) := by
  have hread : (match parse .standard "a.h" "class A { int a; protected: int b; }; int c;".toList
      with
      | .ok o => o.entities.size == 6 &&
          (o.get? 4).any fun e => e.name == "b".toList && e.parent == some 1
      | .error _ => false) = true := by decide +kernel
  have hlinkage : (Token.scan .standard "class A { int a; protected: int b; }; int c;".toList).all
      (·.kind != .keyword .externKw) = true := by decide +kernel
  cases h : parse .standard "a.h" "class A { int a; protected: int b; }; int c;".toList with
  | error e =>
    rw [h] at hread
    cases hread
  | ok o =>
    rw [h] at hread
    simp only [Bool.and_eq_true, beq_iff_eq, Option.any_eq_true] at hread
    obtain ⟨hsize, e, he, hname, hparent⟩ := hread
    have htrailing : ¬o.IsTrailing 4 := fun ht => absurd (ht.1.trans hsize) (by decide)
    obtain ⟨p, before, behind, hp, hchildren, haccess⟩ := parse_access_levels h
      (fun t ht => by simpa using List.all_eq_true.mp hlinkage t ht) (by decide) he htrailing
    obtain rfl : 1 = p := Option.some.inj (hparent.symm.trans hp)
    exact ⟨o, e, before, behind, rfl, he, hname, hparent, hchildren, haccess⟩

end HeaderOutline
