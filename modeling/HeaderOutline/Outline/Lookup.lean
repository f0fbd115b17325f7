import HeaderOutline.Outline.Basic

/-! # Looking up entities

Entities are found by the path of names that leads to them from the root, or by
the full name that they were given when they were added.  Unnamed scopes leave no
trace in either.  A walk from parents to children goes no deeper than there are
entities, which is as deep as a walk can go that does not come back to where it has
been; from a child the walk goes to a parent of a smaller number.
-/
namespace HeaderOutline

namespace Text

/-- The pieces of a text between double colons, with the piece read so far in
reverse. -/
def splitColonsOnto (piece : Text) : Text → List Text
  | ':' :: ':' :: t => piece.reverse :: splitColonsOnto [] t
  | c :: t => splitColonsOnto (c :: piece) t
  | [] => [piece.reverse]

/-- The pieces of a text between double colons. -/
def splitColons (t : Text) : List Text := splitColonsOnto [] t

theorem splitColonsOnto_ne_nil (piece t : Text) : splitColonsOnto piece t ≠ [] := by
  fun_induction splitColonsOnto piece t with
  | case1 => simp
  | case2 _ _ _ _ ih => exact ih
  | case3 => simp

theorem joinWith_splitColonsOnto (piece t : Text) :
    joinWith colons (splitColonsOnto piece t) = piece.reverse ++ t := by
  fun_induction splitColonsOnto piece t with
  | case1 piece t ih =>
    rw [joinWith_cons _ _ (splitColonsOnto_ne_nil [] t), ih]
    simp [colons]
  | case2 piece c t _ ih => simpa using ih
  | case3 piece => simp [joinWith, List.intercalate]

/-- The pieces between double colons, put together again, are the text. -/
theorem joinWith_splitColons (t : Text) : joinWith colons t.splitColons = t :=
  joinWith_splitColonsOnto [] t

end Text

namespace Outline

variable (o : Outline)

/-- Whether the entity of a number has a name. -/
def isNamed (id : EntityId) (name : Text) : Bool := ((o.get? id).map (·.name)) == some name

/-- Whether paths look through the entity of a number: it has no name and its kind
opens a scope. -/
def isUnnamedScope (id : EntityId) : Bool :=
  ((o.get? id).map fun e => e.name.isEmpty && e.kind.isTransparent) == some true

/-- The children of a name, then those found through unnamed scopes, down to a depth. -/
def childrenNamedWithin (name : Text) : (depth : Nat) → EntityId → List EntityId
  | 0, _ => []
  | depth + 1, scope =>
    let children := o.children scope
    children.filter (o.isNamed · name) ++
      (children.filter fun id => !o.isNamed id name && o.isUnnamedScope id).flatMap
        (childrenNamedWithin name depth)

/-- The children of a name, then those found through unnamed scopes. -/
def childrenNamed (scope : EntityId) (name : Text) : List EntityId :=
  o.childrenNamedWithin name o.entities.size scope

/-- The first child of a name, unnamed scopes looked through. -/
def findChild? (scope : EntityId) (name : Text) : Option EntityId :=
  (o.childrenNamed scope name).head?

/-- The first entity to which the segments lead from a scope, where a name may be made
of several segments: those in `taken`, joined, are part of it already. -/
def resolve (scope : EntityId) (taken : Option Text) : List Text → Option EntityId
  | [] => none
  | segment :: rest =>
    let name := match taken with
      | some lead => lead ++ Text.colons ++ segment
      | none => segment
    let found := (o.childrenNamed scope name).findSome? fun child =>
      if rest.isEmpty then some child else resolve child none rest
    found.or (resolve scope (some name) rest)

/-- The entity of a path.  One pair of colons at either end says nothing, and the
empty path leads to the root. -/
def findByPath? (path : Text) : Option EntityId :=
  if path.isEmpty || path == Text.colons then some root
  else
    let inner := (path.dropLead Text.colons).dropTail Text.colons
    if inner.isEmpty then some root else o.resolve root none inner.splitColons

/-- The first entity that has a name of its own and the given full name. -/
def firstOf? (fullName : Text) : Option EntityId :=
  o.ids.find? fun id =>
    match o.get? id with
    | some e => !e.name.isEmpty && e.fullName == fullName
    | none => false

/-- The entity of a full name: the first one, or the root if the name is made of
colons alone. -/
def lookup? (fullName : Text) : Option EntityId :=
  if (fullName.strip (· == ':')).isEmpty then some root else o.firstOf? fullName

/-- The full names and the entities to which they lead. -/
def index : List (Text × EntityId) :=
  o.ids.filterMap fun id =>
    match o.get? id with
    | some e => if o.firstOf? e.fullName == some id then some (e.fullName, id) else none
    | none => none

/-- The names from the root down to an entity, empty ones left out. -/
def path (id : EntityId) : List Text :=
  match o.get? id with
  | none => []
  | some e =>
    (match e.parent with
      | some p => if _h : p < id then path p else []
      | none => []) ++ if e.name.isEmpty then [] else [e.name]

/-- The path of an entity, joined by double colons. -/
def fullPath (id : EntityId) : Text := Text.joinWith Text.colons (o.path id)

/-- The full path of the scope of an entity, or two colons where that is empty. -/
def scopeOf (id : EntityId) : Text :=
  match o.parent? id with
  | some p =>
    let path := o.fullPath p
    if p == root || path.isEmpty then Text.colons else path
  | none => Text.colons

/-- Whether an entity lies in the outermost scope. -/
def isGlobal (id : EntityId) : Bool := o.parent? id == some root

/-- Whether an entity is known and carries a comment. -/
def hasComment (id : EntityId) : Bool := ((o.get? id).map (·.hasComment)).getD false

/-- The entities below an entity down to a depth, each before those below it. -/
def descendantsWithin : (depth : Nat) → EntityId → List EntityId
  | 0, _ => []
  | depth + 1, id =>
    (o.children id).flatMap fun child => child :: descendantsWithin depth child

/-- The entities below an entity, each before those below it. -/
def descendants (id : EntityId) : List EntityId := o.descendantsWithin o.entities.size id

/-- Whether the entity of a number has a kind that satisfies a condition. -/
def hasKind (p : EntityKind → Bool) (id : EntityId) : Bool :=
  ((o.get? id).map fun e => p e.kind).getD false

/-- The entities of a kind, in tree order. -/
def ofKind (kind : EntityKind) : List EntityId :=
  (o.descendants root).filter (o.hasKind (· == kind))

/-- The entities that documentation is written for, in tree order. -/
def documentable : List EntityId :=
  (o.descendants root).filter (o.hasKind EntityKind.isDocumentable)

end Outline
end HeaderOutline
