import HeaderOutline.Diagnostic.Fault
import HeaderOutline.Entity
import HeaderOutline.Token.Front

/-! # Constructs

A construct is read from the front of a list of tokens.  What it amounts to is an
item; what it leaves is the rest of the tokens.  A construct that cannot be read
leaves a fault and the tokens at which the reading broke off, and no item.

The end of the input is the end of the list: no token stands for it.
-/
namespace HeaderOutline

/-- What a declaration turns out to be.  Whether a function or a variable is a member
is known only in the scope that it is put into. -/
inductive Form
  | plain (kind : EntityKind)
  | function
  | destructor
  | variableDecl
deriving DecidableEq, Repr

/-- The kind of an entity of a name in the scope of another entity. -/
def Form.kindIn (form : Form) (scope : Entity) (name : Text) : EntityKind :=
  match form with
  | .plain kind => kind
  | .destructor => .destructor
  | .variableDecl => if scope.kind.isClassLike then .field else .variableDecl
  | .function =>
    if scope.kind.isClassLike then
      if scope.name == name then .constructor else .method
    else .function

/-- An entity as it is read, before it has a place among others. -/
structure Draft where
  form : Form
  name : Text
  signature : Text
  flags : Flags
  template : Option (List Text)
  sourceRange : Span
  headerRange : Span
  body : Option Body
deriving DecidableEq, Repr

namespace Draft

/-- A draft without specifiers, parameters and body. -/
def simple (form : Form) (name signature : Text) (range : Span) : Draft where
  form := form
  name := name
  signature := signature
  flags := .none
  template := none
  sourceRange := range
  headerRange := range
  body := none

/-- The entity of a draft in the scope of another entity. -/
def toEntity (d : Draft) (scope : Entity) (access : Access) (comment : Option DocComment) :
    Entity :=
  { Entity.bare (d.form.kindIn scope d.name) d.name d.signature with
    access := access
    flags := d.flags
    template := d.template
    sourceRange := d.sourceRange
    headerRange := d.headerRange
    body := d.body
    comment := comment }

end Draft

/-- What a construct amounts to. -/
inductive Item
  /-- An entity by itself. -/
  | entity (draft : Draft)
  /-- An entity and the start of its scope. -/
  | scope (draft : Draft) (access : Access)
  /-- The start of a scope that leaves its members where they are. -/
  | linkage
  /-- The end of a scope. -/
  | close (brace : Token)
  /-- A change of the access level. -/
  | access (level : Access) (draft : Draft)
  /-- A macro. -/
  | definition (definition : Definition) (draft : Draft)
  /-- An entity that looks wrong. -/
  | suspect (warning : Warning) (draft : Draft)
  /-- Documentation of what comes next; it takes the place of any before it. -/
  | documentation (comment : Option DocComment)
  /-- Nothing. -/
  | nothing
deriving DecidableEq, Repr

/-- How the reading of a construct ends, and the tokens that it leaves. -/
inductive Outcome
  | read (item : Item) (rest : List Token)
  /-- The flag says whether the construct had come to its closing semicolon. -/
  | failed (fault : Fault) (ended : Bool) (rest : List Token)
deriving DecidableEq, Repr

/-- A reading that breaks off before the first of some tokens, which the construct
cannot hold. -/
def Outcome.unexpected (context : Context) (code : Code) (rest : List Token) : Outcome :=
  .failed (.unexpected context code rest) false rest

/-- The tokens at the end of a reading. -/
def Outcome.rest : Outcome → List Token
  | .read _ rest => rest
  | .failed _ _ rest => rest

@[simp] theorem Outcome.rest_read (item : Item) (rest : List Token) :
    (Outcome.read item rest).rest = rest := rfl

/-- The tokens that a part of a reading leaves: those after the part, or those at which the
whole reading breaks off. -/
def Outcome.leftBy {α : Type} (rest : α → List Token) : Except Outcome α → List Token
  | .ok a => rest a
  | .error outcome => outcome.rest

/-- What stands in front of a declaration: the token with which the whole construct
starts, the text that precedes its signature, and its template parameters. -/
structure Lead where
  first : Token
  text : Text
  template : Option (List Text)
deriving DecidableEq, Repr

namespace Lead

/-- Nothing in front of a declaration. -/
def none (first : Token) : Lead := ⟨first, [], Option.none⟩

/-- A signature with the text in front of it. -/
def onto (l : Lead) (signature : Text) : Text :=
  if l.text.isEmpty then signature else l.text ++ ' ' :: signature

end Lead

/-- The stretch from the start of one token to the end of another. -/
def Span.between (first last : Token) : Span := ⟨first.start, last.stop⟩

end HeaderOutline
