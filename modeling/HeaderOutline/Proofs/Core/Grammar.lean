import HeaderOutline.Outline.Basic
import HeaderOutline.Token.Stream

/-! # Core headers

Headers made of namespaces, classes, structs, variables, functions and access specifiers,
nested at will (`Core.Decls`).  Each such header is written in one way, up to the blanks
before a closing brace (`Core.Decls.render`), and has one outline, which lists its
declarations in the order in which they are written (`Core.Decls.rows`).
-/
namespace HeaderOutline

/-- What an outline says of the place of an entity. -/
structure Row where
  kind : EntityKind
  name : Text
  fullName : Text
  access : Access
  parent : Option EntityId
deriving DecidableEq, Repr

/-- What an entity says of its place. -/
def Entity.row (e : Entity) : Row := ⟨e.kind, e.name, e.fullName, e.access, e.parent⟩

/-- The places of the entities of an outline, in the order of their numbers. -/
def Outline.rows (o : Outline) : List Row := o.entities.toList.map Entity.row

/-- The keyword that sets an access level. -/
def Access.keyword : Access → Keyword
  | .pub => .publicKw
  | .prot => .protectedKw
  | .priv => .privateKw

namespace Core

/-- A name: a text that is read as a single identifier. -/
structure Name [Alphabet] where
  text : Text
  single : ∃ l : Limits, (Token.scan l text).map (·.kind) = [.ident, .eof]

/-- What starts a class or a struct. -/
inductive RecordKey
  | classKey
  | structKey
deriving DecidableEq, Repr

namespace RecordKey

/-- The keyword. -/
def keyword : RecordKey → Keyword
  | .classKey => .classKw
  | .structKey => .structKw

/-- The kind of entity. -/
def kind : RecordKey → EntityKind
  | .classKey => .classDecl
  | .structKey => .structDecl

/-- The access level of the members that no specifier precedes. -/
def access : RecordKey → Access
  | .classKey => .priv
  | .structKey => .pub

end RecordKey

/-- Where declarations stand: among the items of a header or a namespace, or among the
members of a class or a struct. -/
inductive Region
  | items
  | members
deriving DecidableEq, Repr

/-- A list of declarations: the first one, with those inside it, and the others.  Namespaces
stand among items only, and access specifiers among members only. -/
inductive Decls [Alphabet] : Region → Type
  | nil {r : Region} : Decls r
  | namespaceDecl (name : Name) (body : Decls .items) (rest : Decls .items) : Decls .items
  | record {r : Region} (key : RecordKey) (name : Name) (body : Decls .members)
    (rest : Decls r) : Decls r
  | variableDecl {r : Region} (name : Name) (rest : Decls r) : Decls r
  | function {r : Region} (name : Name) (rest : Decls r) : Decls r
  | specifier (level : Access) (rest : Decls .members) : Decls .members

/-- The scope in which declarations stand: its number, the names that lead to it, and its
own name if it is a class or a struct. -/
structure Place where
  id : EntityId
  path : List Text
  record : Option Text
deriving DecidableEq, Repr

namespace Place

/-- The header as a whole. -/
def root : Place := ⟨Outline.root, [], none⟩

variable (w : Place)

/-- The full name of a member. -/
def fullName (name : Text) : Text := Text.joinWith Text.colons (w.path ++ [name])

/-- A variable is a field where it is a member. -/
def variableKind : EntityKind := if w.record.isSome then .field else .variableDecl

/-- A function is a constructor where it has the name of the class, and a method where it is
another member. -/
def functionKind (name : Text) : EntityKind :=
  match w.record with
  | some own => if own = name then .constructor else .method
  | none => .function

/-- The scope of a member. -/
def inside (id : EntityId) (name : Text) (isRecord : Bool) : Place :=
  ⟨id, w.path ++ [name], if isRecord then some name else none⟩

end Place

namespace Decls

variable {r : Region}

/-- The number of declarations, those inside others included. -/
def count [Alphabet] : {r : Region} → Decls r → Nat
  | _, .nil => 0
  | _, .namespaceDecl _ body rest => body.count + rest.count + 1
  | _, .record _ _ body rest => body.count + rest.count + 1
  | _, .variableDecl _ rest => rest.count + 1
  | _, .function _ rest => rest.count + 1
  | _, .specifier _ rest => rest.count + 1

/-- The text of some declarations.  Each is followed by a blank, and `pad` further ones may
stand before a closing brace. -/
def render [Alphabet] (pad : Nat) : {r : Region} → Decls r → Text
  | _, .nil => []
  | _, .namespaceDecl name body rest =>
    "namespace ".toList ++ name.text ++ " \x7b ".toList ++ body.render pad
      ++ List.replicate pad ' ' ++ "\x7d ".toList ++ rest.render pad
  | _, .record key name body rest =>
    key.keyword.spelling ++ " ".toList ++ name.text ++ " \x7b ".toList ++ body.render pad
      ++ List.replicate pad ' ' ++ "\x7d; ".toList ++ rest.render pad
  | _, .variableDecl name rest => "int ".toList ++ name.text ++ "; ".toList ++ rest.render pad
  | _, .function name rest => "void ".toList ++ name.text ++ "(); ".toList ++ rest.render pad
  | _, .specifier level rest => level.label.toList ++ ": ".toList ++ rest.render pad

section

variable [Alphabet] (pad : Nat) (name : Name)

theorem render_namespaceDecl (body rest : Decls .items) :
    (namespaceDecl name body rest).render pad =
      "namespace ".toList ++ name.text ++ " \x7b ".toList ++ body.render pad
        ++ List.replicate pad ' ' ++ "\x7d ".toList ++ rest.render pad := rfl

theorem render_record (key : RecordKey) (body : Decls .members) (rest : Decls r) :
    (record key name body rest).render pad =
      key.keyword.spelling ++ " ".toList ++ name.text ++ " \x7b ".toList ++ body.render pad
        ++ List.replicate pad ' ' ++ "\x7d; ".toList ++ rest.render pad := rfl

theorem render_variableDecl (rest : Decls r) :
    (variableDecl name rest).render pad =
      "int ".toList ++ name.text ++ "; ".toList ++ rest.render pad := rfl

theorem render_function (rest : Decls r) :
    (function name rest).render pad =
      "void ".toList ++ name.text ++ "(); ".toList ++ rest.render pad := rfl

theorem render_specifier (level : Access) (rest : Decls .members) :
    (specifier level rest).render pad =
      level.label.toList ++ ": ".toList ++ rest.render pad := rfl

end

/-- The entities of some declarations in a scope: those inside another one follow it.  The
first one gets the number `next`, and `access` holds before any specifier. -/
def rows [Alphabet] : {r : Region} → Decls r → (w : Place) → (access : Access) →
    (next : EntityId) → List Row
  | _, .nil, _, _, _ => []
  | _, .namespaceDecl name body rest, w, access, next =>
    ⟨.namespaceDecl, name.text, w.fullName name.text, access, some w.id⟩
      :: (body.rows (w.inside next name.text false) .pub (next + 1)
        ++ rest.rows w access (next + 1 + body.count))
  | _, .record key name body rest, w, access, next =>
    ⟨key.kind, name.text, w.fullName name.text, access, some w.id⟩
      :: (body.rows (w.inside next name.text true) key.access (next + 1)
        ++ rest.rows w access (next + 1 + body.count))
  | _, .variableDecl name rest, w, access, next =>
    ⟨w.variableKind, name.text, w.fullName name.text, access, some w.id⟩
      :: rest.rows w access (next + 1)
  | _, .function name rest, w, access, next =>
    ⟨w.functionKind name.text, name.text, w.fullName name.text, access, some w.id⟩
      :: rest.rows w access (next + 1)
  | _, .specifier level rest, w, _, next =>
    ⟨.accessSpecifier, level.label.toList, w.fullName level.label.toList, level, some w.id⟩
      :: rest.rows w level (next + 1)

/-- There is one entity for each declaration. -/
theorem length_rows [Alphabet] (d : Decls r) (w : Place) (access : Access) (next : EntityId) :
    (d.rows w access next).length = d.count := by
  induction d generalizing w access next with
  | nil => rfl
  | namespaceDecl name body rest ihb ihr => simp [rows, count, ihb, ihr]
  | record key name body rest ihb ihr => simp [rows, count, ihb, ihr]
  | variableDecl name rest ih => simp [rows, count, ih]
  | function name rest ih => simp [rows, count, ih]
  | specifier level rest ih => simp [rows, count, ih]

/-- The access level that holds behind some declarations. -/
def lastAccess [Alphabet] (access : Access) : {r : Region} → Decls r → Access
  | _, .nil => access
  | _, .namespaceDecl _ _ rest => rest.lastAccess access
  | _, .record _ _ _ rest => rest.lastAccess access
  | _, .variableDecl _ rest => rest.lastAccess access
  | _, .function _ rest => rest.lastAccess access
  | _, .specifier level rest => rest.lastAccess level

end Decls
end Core
end HeaderOutline
