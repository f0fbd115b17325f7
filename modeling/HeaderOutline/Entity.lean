import HeaderOutline.Doc.Basic

/-! # Entities

An entity is one construct of a header: a declaration, a directive, an access
specifier or a comment.
-/
namespace HeaderOutline

/-- The number of an entity in its outline; the root has number zero.  It is a number of 32 bits
where it is stored, which a header of less than 2^32 bytes does not exceed (`id_lt_of_parse`). -/
abbrev EntityId := Nat

/-- The kind of an entity. -/
inductive EntityKind
  | namespaceDecl
  | classDecl
  | structDecl
  | enumDecl
  | function
  | method
  | constructor
  | destructor
  | variableDecl
  | field
  | typedefDecl
  | usingDecl
  | macroDecl
  /-- Set aside: templates are declarations of other kinds with a parameter list. -/
  | template
  | accessSpecifier
  | directive
  | comment
  /-- The header as a whole. -/
  | root
deriving DecidableEq, Repr

namespace EntityKind

/-- Every kind. -/
def all : List EntityKind :=
  [.namespaceDecl, .classDecl, .structDecl, .enumDecl, .function, .method, .constructor,
   .destructor, .variableDecl, .field, .typedefDecl, .usingDecl, .macroDecl, .template,
   .accessSpecifier, .directive, .comment, .root]

/-- The word for a kind. -/
def label : EntityKind → String
  | .namespaceDecl => "namespace"
  | .classDecl => "class"
  | .structDecl => "struct"
  | .enumDecl => "enum"
  | .function => "function"
  | .method => "method"
  | .constructor => "constructor"
  | .destructor => "destructor"
  | .variableDecl => "variable"
  | .field => "field"
  | .typedefDecl => "typedef"
  | .usingDecl => "using"
  | .macroDecl => "macro"
  | .template => "template"
  | .accessSpecifier => "access_specifier"
  | .directive => "preprocessor"
  | .comment => "comment"
  | .root => "unknown"

/-- Kinds whose members have access levels. -/
def isClassLike : EntityKind → Bool
  | .classDecl | .structDecl => true
  | _ => false

/-- Kinds through whose unnamed entities a path looks. -/
def isTransparent : EntityKind → Bool
  | .namespaceDecl | .classDecl | .structDecl => true
  | _ => false

/-- Kinds that documentation is written for. -/
def isDocumentable : EntityKind → Bool
  | .macroDecl | .template | .accessSpecifier | .directive | .comment | .root => false
  | _ => true

end EntityKind

/-- Who may use a member. -/
inductive Access
  | pub | prot | priv
deriving DecidableEq, Repr

namespace Access

/-- Every access level. -/
def all : List Access := [.pub, .prot, .priv]

/-- The keyword of an access level. -/
def label : Access → String
  | .pub => "public"
  | .prot => "protected"
  | .priv => "private"

end Access

/-- The specifiers of a declaration. -/
structure Flags where
  isStatic : Bool
  isConst : Bool
  isVirtual : Bool
  isPure : Bool
  isInline : Bool
deriving DecidableEq, Repr

/-- No specifier. -/
def Flags.none : Flags := ⟨false, false, false, false, false⟩

/-- The body of a function, its braces included. -/
structure Body where
  range : Span
  text : Text
deriving DecidableEq, Repr

/-- One construct of a header and its place among the others. -/
structure Entity where
  kind : EntityKind
  name : Text
  /-- The names from the outermost scope down, joined by `::`. -/
  fullName : Text
  /-- The head of the declaration as it is written, macros replaced. -/
  signature : Text
  access : Access
  flags : Flags
  /-- The parameters of a template, if the declaration is one. -/
  template : Option (List Text)
  sourceRange : Span
  headerRange : Span
  body : Option Body
  comment : Option DocComment
  parent : Option EntityId
  children : Array EntityId
deriving DecidableEq, Repr

namespace Entity

/-- An entity of which only kind, name and signature are known. -/
def bare (kind : EntityKind) (name signature : Text) : Entity where
  kind := kind
  name := name
  fullName := []
  signature := signature
  access := .pub
  flags := .none
  template := none
  sourceRange := .origin
  headerRange := .origin
  body := none
  comment := none
  parent := none
  children := #[]

instance : Inhabited Entity := ⟨bare .root [] []⟩

/-- Whether the entity is a template. -/
def isTemplate (e : Entity) : Bool := e.template.isSome

/-- The parameters of a template; none otherwise. -/
def templateParams (e : Entity) : List Text := e.template.getD []

/-- Whether the entity has a body. -/
def hasBody (e : Entity) : Bool := e.body.isSome

/-- The text of the body; nothing without one. -/
def bodyText (e : Entity) : Text := (e.body.map Body.text).getD []

/-- Whether the entity carries a documentation comment. -/
def hasComment (e : Entity) : Bool := e.comment.isSome

end Entity
end HeaderOutline
