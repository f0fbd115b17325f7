import HeaderOutline.Construct.Basic
import HeaderOutline.Outline.Basic
import HeaderOutline.Scope

/-! # Building an outline

Items are put together one after the other.  An entity becomes the last child of the
innermost open scope, with the access level that holds there and with the
documentation that is waiting for it.
-/
namespace HeaderOutline

/-- An outline under construction: what it holds so far, the open scopes, the
documentation that waits for an entity, and the macros known by now. -/
structure Building where
  outline : Outline
  scopes : Scopes
  pending : Option DocComment
  definitions : Definitions
deriving DecidableEq, Repr

namespace Building

/-- An empty outline, with some macros known. -/
def start (file : String) (source : Text) (definitions : Definitions) : Building :=
  ⟨.ofSource file source, .ofRoot Outline.root, none, definitions⟩

variable (b : Building)

/-- The entity to which the innermost open scope belongs. -/
def enclosing : Entity := (b.outline.get? b.scopes.current.entity).getD default

/-- The number that the next entity gets. -/
def nextId : EntityId := b.outline.entities.size

/-- Adds an entity to the innermost open scope. -/
def emit (d : Draft) : Building :=
  let entity := d.toEntity b.enclosing b.scopes.current.access b.pending
  { b with outline := b.outline.attach b.scopes.current.entity entity, pending := none }

/-- Adds a diagnostic. -/
def report (d : Diagnostic) : Building := { b with outline := b.outline.report d }

/-- Replaces the open scopes. -/
def withScopes (scopes : Scopes) : Building := { b with scopes := scopes }

/-- Adds what a construct amounts to; the size is that of the whole header. -/
def add (size : Nat) : Item → Building
  | .entity d => b.emit d
  | .scope d access =>
    let opened := b.emit d
    opened.withScopes (opened.scopes.push b.nextId access)
  | .linkage => b.withScopes b.scopes.pushTransparent
  | .close brace =>
    match b.scopes.pop? with
    | some (_, scopes) => b.withScopes scopes
    | none => b.report ((Warning.strayBrace brace).diagnostic size)
  | .access level d => (b.withScopes (b.scopes.setAccess level)).emit d
  | .definition definition d =>
    { b with definitions := b.definitions.define definition }.emit d
  | .suspect warning d => (b.report (warning.diagnostic size)).emit d
  | .documentation comment => { b with pending := comment }
  | .nothing => b

/-- The entity that documentation becomes which nothing follows. -/
def trailing (comment : DocComment) : Entity :=
  let span := comment.span.getD .origin
  { Entity.bare .comment "file-comment".toList comment.raw with
    sourceRange := span
    headerRange := span
    comment := some comment }

/-- The outline.  Documentation that still waits becomes an entity of the outermost
scope. -/
def finish : Outline :=
  match b.pending with
  | some comment => b.outline.attach Outline.root (trailing comment)
  | none => b.outline

end Building
end HeaderOutline
