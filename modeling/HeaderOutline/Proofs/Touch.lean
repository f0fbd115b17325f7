import HeaderOutline.Proofs.Order

/-! # What a reading does not see of entities

Of the entities there are already, a reading sees kinds and names alone.  So a change of an
entity that leaves these as they are (`Entity.IsTouch`) can as well be made when all has been
read (`Building.run_touch`).
-/
namespace HeaderOutline

/-! ## Changing one element -/

theorem modify_comm {α : Type} {f g : α → α} (h : ∀ x, f (g x) = g (f x)) (xs : Array α)
    (i j : Nat) : (xs.modify i f).modify j g = (xs.modify j g).modify i f := by
  refine Array.ext_getElem? fun k => ?_
  simp only [Array.getElem?_modify]
  split <;> split
  · cases xs[k]? with
    | none => rfl
    | some x => exact congrArg some (h x).symm
  · rfl
  · rfl
  · rfl

theorem modify_push_of_lt {α : Type} (f : α → α) {xs : Array α} {i : Nat} (h : i < xs.size)
    (x : α) : (xs.push x).modify i f = (xs.modify i f).push x := by
  refine Array.ext_getElem? fun k => ?_
  simp only [Array.getElem?_modify, Array.getElem?_push, Array.size_modify]
  split
  · next hik =>
    rw [if_neg (by omega), if_neg (by omega)]
  · rfl

theorem modify_push_of_eq {α : Type} (f : α → α) {xs : Array α} {n : Nat} (h : xs.size = n)
    (x : α) : (xs.push x).modify n f = xs.push (f x) := by
  subst h
  refine Array.ext_getElem? fun k => ?_
  simp only [Array.getElem?_modify, Array.getElem?_push]
  by_cases hk : k = xs.size
  · simp [hk]
  · simp [hk, Ne.symm hk]

/-! ## Outlines -/

/-- A change of an entity that its kind, its names and its children are no part of. -/
structure Entity.IsTouch (f : Entity → Entity) : Prop where
  kind (e : Entity) : (f e).kind = e.kind
  name (e : Entity) : (f e).name = e.name
  fullName (e : Entity) : (f e).fullName = e.fullName
  push (e : Entity) (i : EntityId) : f { e with children := e.children.push i }
    = { f e with children := (f e).children.push i }

namespace Outline

variable {o : Outline} {id : EntityId} {f : Entity → Entity}

/-- Changes the entity of a number. -/
def touch (o : Outline) (id : EntityId) (f : Entity → Entity) : Outline :=
  { o with entities := o.entities.modify id f }

@[simp] theorem size_entities_touch (o : Outline) (id : EntityId) (f : Entity → Entity) :
    (o.touch id f).entities.size = o.entities.size :=
  Array.size_modify ..

theorem get?_touch (o : Outline) (id j : EntityId) (f : Entity → Entity) :
    (o.touch id f).get? j = if id = j then (o.get? j).map f else o.get? j :=
  Array.getElem?_modify

@[simp] theorem hostOf_touch (o : Outline) (id parent : EntityId) (f : Entity → Entity) :
    (o.touch id f).hostOf parent = o.hostOf parent := by
  rw [hostOf, size_entities_touch, hostOf]

/-- The scope of a new entity stays the same. -/
theorem fullName_touch (hf : Entity.IsTouch f) (o : Outline) (id j : EntityId) :
    ((o.touch id f).get? j).map (·.fullName) = (o.get? j).map (·.fullName) := by
  rw [get?_touch]
  split
  · rw [Option.map_map]
    exact Option.map_congr fun e _ => hf.fullName e
  · rfl

theorem attach_touch (hf : Entity.IsTouch f) (h : id < o.entities.size) (parent : EntityId)
    (e : Entity) : (o.touch id f).attach parent e = (o.attach parent e).touch id f := by
  have hcomm := modify_comm (f := f)
    (g := fun p => { p with children := p.children.push o.entities.size })
    (fun p => hf.push p _) o.entities id (o.hostOf parent)
  have hlt : id < (o.entities.modify (o.hostOf parent) fun p =>
      { p with children := p.children.push o.entities.size }).size := by
    rwa [Array.size_modify]
  unfold attach
  simp only [hostOf_touch, fullName_touch hf, size_entities_touch]
  simp only [touch, modify_push_of_lt _ hlt, hcomm]

/-- A new entity that is changed. -/
theorem attach_touch_size (o : Outline) (parent : EntityId) (e e' : Entity)
    (he : e'.name = e.name)
    (hf : ∀ (full : Text) (q : Option EntityId),
      { e' with fullName := full, parent := q } = f { e with fullName := full, parent := q }) :
    o.attach parent e' = (o.attach parent e).touch o.entities.size f := by
  have hsize : (o.entities.modify (o.hostOf parent) fun p =>
      { p with children := p.children.push o.entities.size }).size = o.entities.size :=
    Array.size_modify
  unfold attach
  simp only [touch, modify_push_of_eq _ hsize, ← hf, he]

end Outline

/-! ## Readings -/

namespace Building

variable {policy : Recovery.Policy} {merge : Bool} {size : Nat} {b b' : Building}
  {id : EntityId} {f : Entity → Entity}

/-- Changes the entity of a number. -/
def touch (b : Building) (id : EntityId) (f : Entity → Entity) : Building :=
  { b with outline := b.outline.touch id f }

/-- What is read has the same kind in the scope of an entity that is changed. -/
theorem toEntity_enclosing_touch (hf : Entity.IsTouch f) (b : Building) (id : EntityId)
    (d : Draft) : d.toEntity (b.touch id f).enclosing = d.toEntity b.enclosing := by
  have hscope : ∀ e : Entity, d.toEntity (f e) = d.toEntity e := by
    intro e
    have hkind : d.form.kindIn (f e) d.name = d.form.kindIn e d.name := by
      cases hform : d.form <;> simp [Form.kindIn, hf.kind, hf.name]
    funext access comment
    rw [Draft.toEntity, Draft.toEntity, hkind]
  have hget := b.outline.get?_touch id b.scopes.current.entity f
  unfold enclosing
  rw [show (b.touch id f).outline = b.outline.touch id f from rfl,
    show (b.touch id f).scopes = b.scopes from rfl, hget]
  split
  · cases b.outline.get? b.scopes.current.entity with
    | none => rfl
    | some e => exact hscope e
  · rfl

theorem emit_touch (hf : Entity.IsTouch f) (h : id < b.nextId) (d : Draft) :
    (b.touch id f).emit d = (b.emit d).touch id f := by
  have hattach := Outline.attach_touch hf h b.scopes.current.entity
    (d.toEntity b.enclosing b.scopes.current.access b.pending)
  unfold emit
  rw [toEntity_enclosing_touch hf]
  exact congrArg (fun o => { b with outline := o, pending := none }) hattach

/-- An item leaves all entities before it as they are and takes no account of the change. -/
theorem add_touch (hf : Entity.IsTouch f) (h : id < b.nextId) (size : Nat) (item : Item) :
    (b.touch id f).add size item = (b.add size item).touch id f := by
  cases item with
  | entity d => exact emit_touch hf h d
  | scope d access =>
    have hnext : (b.touch id f).nextId = b.nextId := Outline.size_entities_touch b.outline id f
    simp only [add, emit_touch hf h, hnext]
    rfl
  | close brace =>
    simp only [add, show (b.touch id f).scopes = b.scopes from rfl]
    cases b.scopes.pop? <;> rfl
  | access level d => exact emit_touch (b := b.withScopes (b.scopes.setAccess level)) hf h d
  | definition definition d =>
    exact emit_touch (b := { b with definitions := b.definitions.define definition }) hf h d
  | suspect w d => exact emit_touch (b := b.report (w.diagnostic size)) hf h d
  | linkage | documentation | nothing => rfl

/-- **One pass** takes no account of the change. -/
theorem after_touch (hf : Entity.IsTouch f) {o : Outcome} (h : id < b.nextId)
    (ha : b.after policy size o = .ok b') :
    (b.touch id f).after policy size o = .ok (b'.touch id f) := by
  obtain ⟨item, rest, rfl, rfl⟩ | ⟨fault, ended, rest, rfl, rfl, rfl⟩ := after_eq_ok ha
  · exact congrArg Except.ok (add_touch hf h size item)
  · rfl

/-- A pass only adds entities. -/
theorem nextId_le_of_after {o : Outcome} (ha : b.after policy size o = .ok b') :
    b.nextId ≤ b'.nextId := by
  obtain ⟨item, _, -, rfl⟩ | ⟨_, _, _, -, -, rfl⟩ := after_eq_ok ha
  · cases item with
    | close brace =>
      simp only [add]
      split <;> exact Nat.le_refl _
    | _ => simp [add, nextId, emit, withScopes, report, Outline.report]
  · exact Nat.le_refl _

/-- **A whole reading** takes no account of the change. -/
theorem run_touch (hf : Entity.IsTouch f) {ts : List Token} {done : Building} (h : id < b.nextId)
    (hr : run policy merge size b ts = .ok done) :
    run policy merge size (b.touch id f) ts = .ok (done.touch id f) := by
  induction b, ts using run_induction merge with
  | nil b ts hnil =>
    obtain rfl := Except.ok.inj ((run_of_nil hnil).symm.trans hr)
    exact run_of_nil hnil
  | cons b ts t behind front ih =>
    obtain ⟨b', ha, hr⟩ := exists_after_of_run front hr
    have hrun := ih b' (Nat.lt_of_lt_of_le h (nextId_le_of_after ha)) hr
    rw [run_of_cons front, show (b.touch id f).definitions = b.definitions from rfl,
      after_touch hf h ha]
    exact hrun

/-- What is built last takes no account of the change. -/
theorem finish_touch (hf : Entity.IsTouch f) (h : id < b.nextId) :
    (b.touch id f).finish = b.finish.touch id f := by
  unfold finish
  rw [show (b.touch id f).pending = b.pending from rfl]
  cases b.pending with
  | none => rfl
  | some c => exact Outline.attach_touch hf h Outline.root (trailing c)

end Building
end HeaderOutline
