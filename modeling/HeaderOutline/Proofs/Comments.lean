import HeaderOutline.Outline.Lookup
import HeaderOutline.Proofs.Merging

/-! # Lookups do not see comments

No walk through an outline and no search in it reads the comment of an entity.  So each of them
has the same result in an outline as in the one without its comments
(`Outline.lookups_withoutComments`), and a change of a comment is a change of nothing else
(`Outline.recomments_modifyComment`).
-/
namespace HeaderOutline

namespace Outline

/-! ## Outlines without comments -/

section

variable (o : Outline)

/-- What an entity has besides its comment is still there. -/
theorem map_get?_withoutComments {α : Type} (f : Entity → α)
    (hf : ∀ e, f e.withoutComment = f e) (i : EntityId) :
    (o.withoutComments.get? i).map f = (o.get? i).map f := by
  rw [get?_withoutComments, Option.map_map]
  exact congrArg (Option.map · (o.get? i)) (funext hf)

@[simp] theorem size_withoutComments : o.withoutComments.size = o.size := by
  rw [size, size_entities_withoutComments, size]

@[simp] theorem ids_withoutComments : o.withoutComments.ids = o.ids := by
  rw [ids, size_withoutComments, ids]

@[simp] theorem children_withoutComments (i : EntityId) :
    o.withoutComments.children i = o.children i := by
  rw [children, children, o.map_get?_withoutComments _ (fun _ => rfl)]

@[simp] theorem parent?_withoutComments (i : EntityId) :
    o.withoutComments.parent? i = o.parent? i := by
  rw [parent?, parent?, get?_withoutComments, Option.bind_map]
  rfl

@[simp] theorem isNamed_withoutComments (i : EntityId) (name : Text) :
    o.withoutComments.isNamed i name = o.isNamed i name := by
  rw [isNamed, isNamed, o.map_get?_withoutComments _ (fun _ => rfl)]

@[simp] theorem isUnnamedScope_withoutComments (i : EntityId) :
    o.withoutComments.isUnnamedScope i = o.isUnnamedScope i := by
  rw [isUnnamedScope, isUnnamedScope, o.map_get?_withoutComments _ (fun _ => rfl)]

@[simp] theorem hasKind_withoutComments (p : EntityKind → Bool) :
    o.withoutComments.hasKind p = o.hasKind p := by
  funext i
  rw [hasKind, hasKind, o.map_get?_withoutComments _ (fun _ => rfl)]

/-! ## Walks downwards -/

@[simp] theorem childrenNamedWithin_withoutComments (name : Text) (depth : Nat)
    (scope : EntityId) : o.withoutComments.childrenNamedWithin name depth scope
      = o.childrenNamedWithin name depth scope := by
  induction depth generalizing scope with
  | zero => rfl
  | succ depth ih =>
    simp only [childrenNamedWithin, children_withoutComments, isNamed_withoutComments,
      isUnnamedScope_withoutComments, funext ih]

@[simp] theorem childrenNamed_withoutComments (scope : EntityId) (name : Text) :
    o.withoutComments.childrenNamed scope name = o.childrenNamed scope name := by
  rw [childrenNamed, size_entities_withoutComments, childrenNamedWithin_withoutComments,
    childrenNamed]

@[simp] theorem findChild?_withoutComments (scope : EntityId) (name : Text) :
    o.withoutComments.findChild? scope name = o.findChild? scope name := by
  rw [findChild?, childrenNamed_withoutComments, findChild?]

@[simp] theorem resolve_withoutComments (scope : EntityId) (taken : Option Text)
    (segments : List Text) :
    o.withoutComments.resolve scope taken segments = o.resolve scope taken segments := by
  induction segments generalizing scope taken with
  | nil => rfl
  | cons segment rest ih => simp only [resolve, childrenNamed_withoutComments, ih]

@[simp] theorem findByPath?_withoutComments (path : Text) :
    o.withoutComments.findByPath? path = o.findByPath? path := by
  rw [findByPath?, findByPath?]
  simp only [resolve_withoutComments]

@[simp] theorem descendantsWithin_withoutComments (depth : Nat) (i : EntityId) :
    o.withoutComments.descendantsWithin depth i = o.descendantsWithin depth i := by
  induction depth generalizing i with
  | zero => rfl
  | succ depth ih => simp only [descendantsWithin, children_withoutComments, ih]

@[simp] theorem descendants_withoutComments (i : EntityId) :
    o.withoutComments.descendants i = o.descendants i := by
  rw [descendants, size_entities_withoutComments, descendantsWithin_withoutComments, descendants]

@[simp] theorem ofKind_withoutComments (kind : EntityKind) :
    o.withoutComments.ofKind kind = o.ofKind kind := by
  rw [ofKind, descendants_withoutComments, hasKind_withoutComments, ofKind]

@[simp] theorem documentable_withoutComments :
    o.withoutComments.documentable = o.documentable := by
  rw [documentable, descendants_withoutComments, hasKind_withoutComments, documentable]

/-! ## Full names and paths -/

@[simp] theorem firstOf?_withoutComments (full : Text) :
    o.withoutComments.firstOf? full = o.firstOf? full := by
  rw [firstOf?, firstOf?, ids_withoutComments]
  congr 1
  funext i
  rw [get?_withoutComments]
  cases o.get? i <;> rfl

@[simp] theorem lookup?_withoutComments (full : Text) :
    o.withoutComments.lookup? full = o.lookup? full := by
  rw [lookup?, firstOf?_withoutComments, lookup?]

@[simp] theorem index_withoutComments : o.withoutComments.index = o.index := by
  rw [index, index, ids_withoutComments]
  congr 1
  funext i
  rw [get?_withoutComments]
  cases o.get? i with
  | none => rfl
  | some e =>
    simp only [Option.map_some, firstOf?_withoutComments]
    rfl

@[simp] theorem path_withoutComments (i : EntityId) : o.withoutComments.path i = o.path i := by
  induction i using Nat.strongRecOn with
  | ind i ih =>
    rw [path, path, get?_withoutComments]
    cases o.get? i with
    | none => rfl
    | some e =>
      have hparent : e.withoutComment.parent = e.parent := rfl
      have hname : e.withoutComment.name = e.name := rfl
      simp only [Option.map_some, hparent, hname]
      cases e.parent with
      | none => rfl
      | some p =>
        by_cases hp : p < i
        · simp only [dif_pos hp, ih p hp]
        · simp only [dif_neg hp]

@[simp] theorem fullPath_withoutComments (i : EntityId) :
    o.withoutComments.fullPath i = o.fullPath i := by
  rw [fullPath, path_withoutComments, fullPath]

@[simp] theorem scopeOf_withoutComments (i : EntityId) :
    o.withoutComments.scopeOf i = o.scopeOf i := by
  rw [scopeOf, scopeOf]
  simp only [parent?_withoutComments, fullPath_withoutComments]

@[simp] theorem isGlobal_withoutComments (i : EntityId) :
    o.withoutComments.isGlobal i = o.isGlobal i := by
  rw [isGlobal, parent?_withoutComments, isGlobal]

end

/-! ## Changes of a comment -/

/-- Everything that is looked up in an outline, entities as a whole aside. -/
structure Lookups where
  size : Nat
  children : EntityId → List EntityId
  parent? : EntityId → Option EntityId
  descendants : EntityId → List EntityId
  findChild? : EntityId → Text → Option EntityId
  findByPath? : Text → Option EntityId
  lookup? : Text → Option EntityId
  index : List (Text × EntityId)
  path : EntityId → List Text
  fullPath : EntityId → Text
  scopeOf : EntityId → Text
  isGlobal : EntityId → Bool
  ofKind : EntityKind → List EntityId
  documentable : List EntityId

/-- The lookups in an outline. -/
def lookups (o : Outline) : Lookups where
  size := o.size
  children := o.children
  parent? := o.parent?
  descendants := o.descendants
  findChild? := o.findChild?
  findByPath? := o.findByPath?
  lookup? := o.lookup?
  index := o.index
  path := o.path
  fullPath := o.fullPath
  scopeOf := o.scopeOf
  isGlobal := o.isGlobal
  ofKind := o.ofKind
  documentable := o.documentable

/-- **Lookups do not see comments.** -/
@[simp] theorem lookups_withoutComments (o : Outline) : o.withoutComments.lookups = o.lookups := by
  simp [lookups, funext_iff]

/-- One outline is another one in which the comment of an entity, if there is one of that number,
was changed, and nothing else. -/
structure Recomments (o : Outline) (id : EntityId) (f : Option DocComment → Option DocComment)
    (o' : Outline) : Prop where
  file : o'.file = o.file
  source : o'.source = o.source
  diagnostics : o'.diagnostics = o.diagnostics
  entities : ∀ i, o'.get? i =
    (o.get? i).map fun e => if i = id then { e with comment := f e.comment } else e
  lookups : o'.lookups = o.lookups

theorem get?_modifyComment (o : Outline) (id : EntityId)
    (f : Option DocComment → Option DocComment) (i : EntityId) :
    (o.modifyComment id f).get? i =
      (o.get? i).map fun e => if i = id then { e with comment := f e.comment } else e := by
  rw [get?, modifyComment, Array.getElem?_modify, ← get?]
  by_cases h : id = i
  · simp only [if_pos h, if_pos h.symm]
  · simp only [if_neg h, if_neg (Ne.symm h), Option.map_id']

@[simp] theorem withoutComments_modifyComment (o : Outline) (id : EntityId)
    (f : Option DocComment → Option DocComment) :
    (o.modifyComment id f).withoutComments = o.withoutComments := by
  have hentities : ((o.modifyComment id f).entities.map Entity.withoutComment)
      = o.entities.map Entity.withoutComment := by
    refine Array.ext_getElem? fun i => ?_
    have hget := o.get?_modifyComment id f i
    rw [get?, get?] at hget
    rw [Array.getElem?_map, Array.getElem?_map, hget, Option.map_map]
    refine congrArg (Option.map · o.entities[i]?) (funext fun e => ?_)
    show (if i = id then { e with comment := f e.comment } else e : Entity).withoutComment = _
    split <;> rfl
  unfold withoutComments
  rw [hentities]
  rfl

/-- **A changed comment** changes nothing else. -/
theorem recomments_modifyComment (o : Outline) (id : EntityId)
    (f : Option DocComment → Option DocComment) : o.Recomments id f (o.modifyComment id f) where
  file := rfl
  source := rfl
  diagnostics := rfl
  entities := o.get?_modifyComment id f
  lookups := by
    rw [← lookups_withoutComments, withoutComments_modifyComment, lookups_withoutComments]

end Outline
end HeaderOutline
