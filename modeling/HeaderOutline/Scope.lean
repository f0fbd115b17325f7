import HeaderOutline.Entity

/-! # Scopes

The scopes that are open at a place of a header, each with the entity it belongs
to and the access level that holds in it.  The outermost scope is that of the
header and cannot be closed.
-/
namespace HeaderOutline

/-- An open scope. -/
structure Frame where
  entity : EntityId
  /-- The access level before any specifier. -/
  defaultAccess : Access
  /-- The access level that holds now. -/
  access : Access
deriving DecidableEq, Repr

/-- A scope just opened. -/
def Frame.opened (entity : EntityId) (access : Access) : Frame := ⟨entity, access, access⟩

/-- The open scopes: those inside the outermost one, the innermost first, and the
outermost. -/
structure Scopes where
  inner : List Frame
  outermost : Frame
deriving DecidableEq, Repr

namespace Scopes

/-- The outermost scope alone. -/
def ofRoot (root : EntityId) : Scopes := ⟨[], .opened root .pub⟩

variable (s : Scopes)

/-- The innermost scope. -/
def current : Frame := s.inner.headD s.outermost

/-- Opens a scope. -/
def push (entity : EntityId) (access : Access) : Scopes :=
  ⟨.opened entity access :: s.inner, s.outermost⟩

/-- Opens a scope that goes on with the entity and the access level of the innermost
one. -/
def pushTransparent : Scopes := ⟨s.current :: s.inner, s.outermost⟩

/-- Closes the innermost scope, unless it is the outermost. -/
def pop? : Option (Frame × Scopes) :=
  match s.inner with
  | [] => none
  | frame :: rest => some (frame, ⟨rest, s.outermost⟩)

/-- Sets the access level of the innermost scope. -/
def setAccess (access : Access) : Scopes :=
  match s.inner with
  | [] => ⟨[], { s.outermost with access := access }⟩
  | frame :: rest => ⟨{ frame with access := access } :: rest, s.outermost⟩

/-- The number of open scopes. -/
def depth : Nat := s.inner.length + 1

@[simp] theorem current_push (entity : EntityId) (access : Access) :
    (s.push entity access).current = .opened entity access := rfl

@[simp] theorem pop?_push (entity : EntityId) (access : Access) :
    (s.push entity access).pop? = some (.opened entity access, s) := rfl

@[simp] theorem current_pushTransparent : s.pushTransparent.current = s.current := rfl

@[simp] theorem pop?_pushTransparent : s.pushTransparent.pop? = some (s.current, s) := rfl

/-- Setting the access level changes nothing else about the innermost scope. -/
theorem current_setAccess (access : Access) :
    (s.setAccess access).current = { s.current with access := access } := by
  unfold setAccess current
  split
  · next h => simp [h]
  · next h => simp [h]

theorem depth_setAccess (access : Access) : (s.setAccess access).depth = s.depth := by
  unfold setAccess depth
  split
  · next h => simp [h]
  · next h => simp [h]

end Scopes
end HeaderOutline
