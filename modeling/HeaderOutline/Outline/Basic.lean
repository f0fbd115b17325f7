import HeaderOutline.Entity
import HeaderOutline.Diagnostic.Basic

/-! # Outlines

The outline of a header: its entities in the order in which they were read, each
knowing its parent and its children by number, and what was amiss on the way.
Entity zero is the header as a whole.  Entities are only ever added, as last
children; afterwards nothing but their comments and their children can change.
-/
namespace HeaderOutline

/-- A name inside a scope, qualified by the name of the scope. -/
def qualify (scope name : Text) : Text :=
  if name.isEmpty then scope
  else if scope.isEmpty then name
  else scope ++ Text.colons ++ name

/-- The entities of a header and its diagnostics. -/
structure Outline where
  file : String
  source : Text
  entities : Array Entity
  diagnostics : Array Diagnostic
deriving DecidableEq, Repr

namespace Outline

/-- The number of the root. -/
def root : EntityId := 0

/-- The entity of the header as a whole. -/
def rootEntity (source : Text) : Entity :=
  let span : Span := ⟨.origin, Position.origin.advance source⟩
  { Entity.bare .root [] [] with sourceRange := span, headerRange := span }

/-- An outline of the root alone. -/
def ofSource (file : String) (source : Text) : Outline :=
  ⟨file, source, #[rootEntity source], #[]⟩

variable (o : Outline)

/-- The entity of a number. -/
def get? (id : EntityId) : Option Entity := o.entities[id]?

/-- The number of entities below the root. -/
def size : Nat := o.entities.size - 1

/-- Whether there is nothing below the root. -/
def isEmpty : Bool := o.size == 0

/-- The numbers of the entities below the root, in the order of creation. -/
def ids : List EntityId := List.range' 1 o.size

/-- The children of an entity. -/
def children (id : EntityId) : List EntityId :=
  ((o.get? id).map (·.children.toList)).getD []

/-- The parent of an entity. -/
def parent? (id : EntityId) : Option EntityId := (o.get? id).bind (·.parent)

/-- The entity to which a new one is attached that asks for a parent: the root if the
parent is not known. -/
def hostOf (parent : EntityId) : EntityId :=
  if parent < o.entities.size then parent else root

/-- Adds an entity as the last child of a parent, from which it has its full name.  What
children it brings along it keeps. -/
def attach (parent : EntityId) (e : Entity) : Outline :=
  let host := o.hostOf parent
  let scope := ((o.get? host).map (·.fullName)).getD []
  let id := o.entities.size
  let linked := o.entities.modify host fun p => { p with children := p.children.push id }
  let placed := { e with fullName := qualify scope e.name, parent := some host }
  { o with entities := linked.push placed }

@[simp] theorem size_entities_attach (parent : EntityId) (e : Entity) :
    (o.attach parent e).entities.size = o.entities.size + 1 := by
  simp [attach]

/-- Adds a diagnostic. -/
def report (d : Diagnostic) : Outline := { o with diagnostics := o.diagnostics.push d }

/-- Changes the comment of an entity. -/
def modifyComment (id : EntityId) (f : Option DocComment → Option DocComment) : Outline :=
  { o with entities := o.entities.modify id fun e => { e with comment := f e.comment } }

/-- Replaces the comment of an entity. -/
def setComment (id : EntityId) (comment : Option DocComment) : Outline :=
  o.modifyComment id fun _ => comment

/-- Replaces the comment of an entity, and says whether there is such an entity. -/
def replaceComment (id : EntityId) (comment : Option DocComment) : Bool × Outline :=
  (id < o.entities.size, o.setComment id comment)

end Outline
end HeaderOutline
