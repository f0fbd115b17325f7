import HeaderOutline.Proofs.Touch

/-! # Where the comment of an entity comes from

An entity takes its comment from the documentation that waits for it, and nothing that is
read afterwards depends on it (`Building.run_setComment`).  So a reading that leads to an
entity with a comment has come through the reading of that comment, and had the comment
been another one, then only the comment of that entity would be (`Building.comment_origin`).
-/
namespace HeaderOutline

/-- The comment of an entity is no part of its kind, its names and its children. -/
theorem Entity.isTouch_comment (q : Option DocComment) :
    Entity.IsTouch fun e => { e with comment := q } :=
  ⟨fun _ => rfl, fun _ => rfl, fun _ => rfl, fun _ _ => rfl⟩

namespace Outline

variable {o : Outline} {id : EntityId} (q : Option DocComment)

/-- The comment of the entity of a number. -/
def comment? (o : Outline) (id : EntityId) : Option DocComment := (o.get? id).bind (·.comment)

theorem lt_size_of_comment? {c : DocComment} (h : o.comment? id = some c) :
    id < o.entities.size := by
  obtain ⟨e, he, _⟩ := Option.bind_eq_some_iff.mp h
  exact (Array.getElem?_eq_some_iff.mp he).1

@[simp] theorem size_entities_setComment (o : Outline) (id : EntityId) :
    (o.setComment id q).entities.size = o.entities.size :=
  Array.size_modify ..

theorem get?_setComment (o : Outline) (id j : EntityId) :
    (o.setComment id q).get? j =
      if id = j then (o.get? j).map fun e => { e with comment := q } else o.get? j :=
  Array.getElem?_modify

/-- A new entity with another comment. -/
theorem attach_comment (parent : EntityId) (e : Entity) :
    o.attach parent { e with comment := q } = (o.attach parent e).setComment o.entities.size q :=
  o.attach_touch_size parent e { e with comment := q } rfl fun _ _ => rfl

/-- What is added leaves the comments as they are. -/
theorem comment?_attach (h : id < o.entities.size) (parent : EntityId) (e : Entity) :
    (o.attach parent e).comment? id = o.comment? id := by
  unfold comment? attach get?
  rw [Array.getElem?_push, if_neg (by rw [Array.size_modify]; exact Nat.ne_of_lt h),
    Array.getElem?_modify]
  split
  · cases o.entities[id]? <;> rfl
  · rfl

theorem comment?_attach_size (parent : EntityId) (e : Entity) :
    (o.attach parent e).comment? o.entities.size = e.comment := by
  rw [comment?, get?_attach_size]
  rfl

end Outline

namespace Building

variable {policy : Recovery.Policy} {merge : Bool} {size : Nat} {b b' : Building}
  {id : EntityId} (q : Option DocComment)

/-- Replaces the comment of an entity. -/
def setComment (b : Building) (id : EntityId) (q : Option DocComment) : Building :=
  { b with outline := b.outline.setComment id q }

/-- Lets other documentation wait. -/
def await (b : Building) (q : Option DocComment) : Building := { b with pending := q }

/-- An entity takes the documentation that waits. -/
theorem emit_await (b : Building) (d : Draft) :
    (b.await q).emit d = (b.emit d).setComment b.nextId q :=
  congrArg (fun o => { b with outline := o, pending := none })
    (Outline.attach_comment q b.scopes.current.entity
      (d.toEntity b.enclosing b.scopes.current.access b.pending))

/-- What becomes of the documentation that waits when a construct is read. -/
inductive Passes (policy : Recovery.Policy) (size : Nat) (b : Building) : Outcome → Building → Prop
  /-- Other documentation takes its place. -/
  | displaces (comment : Option DocComment) (rest : List Token) :
    Passes policy size b (.read (.documentation comment) rest) (b.await comment)
  /-- It goes on waiting. -/
  | waits {o : Outcome} {b' : Building} (next : b'.nextId = b.nextId)
      (comments : ∀ id, b'.outline.comment? id = b.outline.comment? id)
      (pending : b'.pending = b.pending)
      (other : ∀ q, (b.await q).after policy size o = .ok (b'.await q)) : Passes policy size b o b'
  /-- A new entity takes it. -/
  | takes {o : Outcome} {b' : Building} (next : b'.nextId = b.nextId + 1)
      (comments : ∀ id < b.nextId, b'.outline.comment? id = b.outline.comment? id)
      (taken : b'.outline.comment? b.nextId = b.pending) (pending : b'.pending = none)
      (other : ∀ q, (b.await q).after policy size o = .ok (b'.setComment b.nextId q)) :
      Passes policy size b o b'

theorem nextId_emit (b : Building) (d : Draft) : (b.emit d).nextId = b.nextId + 1 :=
  Outline.size_entities_attach ..

theorem comment?_emit (h : id < b.nextId) (d : Draft) :
    (b.emit d).outline.comment? id = b.outline.comment? id :=
  Outline.comment?_attach h ..

theorem comment?_emit_nextId (b : Building) (d : Draft) :
    (b.emit d).outline.comment? b.nextId = b.pending :=
  Outline.comment?_attach_size ..

/-- A construct that adds an entity once it has changed other things. -/
theorem passes_emit (b₀ : Building) (d : Draft) {item : Item} (rest : List Token)
    (next : b₀.nextId = b.nextId)
    (comments : ∀ id, b₀.outline.comment? id = b.outline.comment? id)
    (pending : b₀.pending = b.pending)
    (other : ∀ q, (b.await q).add size item = (b₀.await q).emit d) :
    Passes policy size b (.read item rest) (b₀.emit d) := by
  refine .takes (by rw [nextId_emit, next]) (fun id h => ?_) ?_ rfl fun q => ?_
  · rw [comment?_emit (next ▸ h), comments]
  · rw [← next, comment?_emit_nextId, pending]
  · rw [← next, ← emit_await, ← other]
    rfl

/-- **One pass** puts documentation in the place of that which waits, lets that go on
waiting, or gives it to an entity. -/
theorem passes_of_after {o : Outcome} (ha : b.after policy size o = .ok b') :
    Passes policy size b o b' := by
  obtain ⟨item, rest, rfl, rfl⟩ | ⟨fault, ended, rest, rfl, rfl, rfl⟩ := after_eq_ok ha
  case inr => exact .waits rfl (fun _ => rfl) rfl fun _ => rfl
  case inl =>
    cases item with
    | documentation comment => exact .displaces comment rest
    | linkage | nothing => exact .waits rfl (fun _ => rfl) rfl fun _ => rfl
    | close brace =>
      simp only [add]
      cases hp : b.scopes.pop? with
      | none =>
        refine .waits rfl (fun _ => rfl) rfl fun q => ?_
        simp only [after, add, show (b.await q).scopes = b.scopes from rfl, hp]
        rfl
      | some popped =>
        refine .waits rfl (fun _ => rfl) rfl fun q => ?_
        simp only [after, add, show (b.await q).scopes = b.scopes from rfl, hp]
        rfl
    | scope d access =>
      exact .takes (nextId_emit b d) (fun _ h => comment?_emit h d) (comment?_emit_nextId b d)
        rfl fun q => congrArg (fun e : Building => Except.ok
          (e.withScopes (e.scopes.push b.nextId access))) (emit_await q b d)
    | entity d => exact passes_emit b d rest rfl (fun _ => rfl) rfl fun _ => rfl
    | access level d =>
      exact passes_emit (b.withScopes (b.scopes.setAccess level)) d rest rfl (fun _ => rfl) rfl
        fun _ => rfl
    | definition definition d =>
      exact passes_emit { b with definitions := b.definitions.define definition } d rest rfl
        (fun _ => rfl) rfl fun _ => rfl
    | suspect w d =>
      exact passes_emit (b.report (w.diagnostic size)) d rest rfl (fun _ => rfl) rfl fun _ => rfl

theorem Passes.nextId_le {o : Outcome} (h : Passes policy size b o b') :
    b.nextId ≤ b'.nextId := by
  cases h with
  | displaces => exact Nat.le_refl _
  | waits next => exact Nat.le_of_eq next.symm
  | takes next => exact next ▸ Nat.le_succ _

theorem Passes.comment?_eq {o : Outcome} (h : Passes policy size b o b') (hid : id < b.nextId) :
    b'.outline.comment? id = b.outline.comment? id := by
  cases h with
  | displaces => rfl
  | waits _ comments => exact comments id
  | takes _ comments => exact comments id hid

/-- **A whole reading** takes no account of the comments of entities, and leaves them as they
are. -/
theorem run_setComment {ts : List Token} {done : Building} (h : id < b.nextId)
    (hr : run policy merge size b ts = .ok done) :
    run policy merge size (b.setComment id q) ts = .ok (done.setComment id q) ∧
      done.outline.comment? id = b.outline.comment? id := by
  refine ⟨run_touch (Entity.isTouch_comment q) h hr, ?_⟩
  induction b, ts using run_induction merge with
  | nil b ts hnil =>
    obtain rfl := Except.ok.inj ((run_of_nil hnil).symm.trans hr)
    rfl
  | cons b ts t behind front ih =>
    obtain ⟨b', ha, hr⟩ := exists_after_of_run front hr
    have hpass := passes_of_after ha
    exact (ih b' (Nat.lt_of_lt_of_le h hpass.nextId_le) hr).trans (hpass.comment?_eq h)

/-- **Where a comment comes from.**  An entity with a comment at the end of a reading was
there before, or has taken the documentation that waited before, or that which has been read
on the way.  Whatever it has taken, with other documentation in its place the reading leads
to the same but for the comment of that entity. -/
theorem comment_origin {ts : List Token} {done : Building} {c : DocComment}
    (hr : run policy merge size b ts = .ok done) (hc : done.outline.comment? id = some c) :
    id < b.nextId ∨
    (b.pending = some c ∧
      ∀ q, run policy merge size (b.await q) ts = .ok (done.setComment id q)) ∨
    ∃ b₁ us t behind rest, Reaches policy merge size b ts b₁ us ∧
      Tokens.skipTrivia us = t :: behind ∧
      Construct.read b₁.definitions merge t behind = .read (.documentation (some c)) rest ∧
      ∀ q, run policy merge size (b₁.await q) rest = .ok (done.setComment id q) := by
  induction b, ts using run_induction merge with
  | nil b ts hnil =>
    obtain rfl := Except.ok.inj ((run_of_nil hnil).symm.trans hr)
    exact .inl (Outline.lt_size_of_comment? hc)
  | cons b ts t behind front ih =>
    have hother : ∀ q, run policy merge size (b.await q) ts =
        ((b.await q).after policy size (Construct.read b.definitions merge t behind)).bind
          fun b' => run policy merge size b' (Construct.read b.definitions merge t behind).next :=
      fun q => run_of_cons front
    obtain ⟨b', ha, hr⟩ := exists_after_of_run front hr
    generalize ho : Construct.read b.definitions merge t behind = o at ih ha hr hother
    rcases ih b' hr with hlt | ⟨hp, hq⟩ | ⟨b₁, us, t₁, behind₁, rest, hreach, hskip, hread, hq⟩
    · cases passes_of_after ha with
      | displaces => exact .inl hlt
      | waits next => exact .inl (next ▸ hlt)
      | takes next _ taken _ other =>
        rcases Nat.lt_succ_iff_lt_or_eq.mp (next ▸ hlt) with hlt' | rfl
        · exact .inl hlt'
        · -- the entity has just been added, with the documentation that waited
          have hset := fun q => run_setComment q hlt hr
          refine .inr (.inl ⟨?_, fun q => ?_⟩)
          · rw [← taken, ← (hset none).2, hc]
          · rw [hother, other]
            exact (hset q).1
    · cases passes_of_after ha with
      | displaces comment rest =>
        obtain rfl : comment = some c := hp
        exact .inr (.inr ⟨b, ts, t, behind, rest, .refl b ts, front, ho, hq⟩)
      | waits _ _ pending other =>
        refine .inr (.inl ⟨pending ▸ hp, fun q => ?_⟩)
        rw [hother, other]
        exact hq q
      | takes _ _ _ pending => cases pending.symm.trans hp
    · subst ho
      exact .inr (.inr ⟨b₁, us, t₁, behind₁, rest, .pass front ha hreach, hskip, hread, hq⟩)

/-- What is built last leaves the comments as they are. -/
theorem finish_setComment (h : id < b.nextId) :
    (b.setComment id q).finish = b.finish.setComment id q :=
  finish_touch (Entity.isTouch_comment q) h

end Building
end HeaderOutline
