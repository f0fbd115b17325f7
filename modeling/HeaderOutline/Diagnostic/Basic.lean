import HeaderOutline.Position
import HeaderOutline.Diagnostic.Code
import HeaderOutline.Diagnostic.Context

/-! # Diagnostics

A diagnostic says what is amiss, where, and how much it matters; it may add a
hint and point to other places.
-/
namespace HeaderOutline

/-- How much a diagnostic matters. -/
inductive Severity
  /-- A construct could not be read and was passed over. -/
  | error
  /-- Something looks wrong but was read all the same. -/
  | warning
  /-- A remark. -/
  | hint
deriving DecidableEq, Repr

namespace Severity

/-- Every severity. -/
def all : List Severity := [.error, .warning, .hint]

/-- The word for a severity. -/
def label : Severity → String
  | .error => "error"
  | .warning => "warning"
  | .hint => "hint"

/-- Whether a construct was lost. -/
def isError (s : Severity) : Bool := s == .error

end Severity

/-- Another place that a diagnostic points to. -/
structure Related where
  message : String
  range : ByteRange
deriving DecidableEq, Repr

/-- What is amiss, where, and how much it matters. -/
structure Diagnostic where
  message : String
  range : ByteRange
  code : Code
  severity : Severity
  hint : Option String
  related : List Related
deriving DecidableEq, Repr

namespace Diagnostic

/-- An error that says no more than a message. -/
def error (message : String) (range : ByteRange) (code : Code) : Diagnostic :=
  ⟨message, range, code, .error, none, []⟩

/-- An error at an offset. -/
def errorAt (message : String) (offset : Nat) (code : Code) : Diagnostic :=
  error message (.empty offset) code

variable (d : Diagnostic)

/-- The diagnostic with a hint. -/
def withHint (hint : String) : Diagnostic := { d with hint := some hint }

/-- The diagnostic pointing to one more place. -/
def withRelated (related : Related) : Diagnostic := { d with related := d.related ++ [related] }

/-- The diagnostic with another severity. -/
def withSeverity (severity : Severity) : Diagnostic := { d with severity := severity }

/-- Whether a hint is given. -/
def hasHint : Bool := d.hint.isSome

/-- Whether other places are pointed to. -/
def hasRelated : Bool := !d.related.isEmpty

/-- The diagnostic on one line. -/
def summary : String := d.code.label ++ ": " ++ d.message

/-- The diagnostic with its hint on a line of its own. -/
def format : String :=
  match d.hint with
  | some hint => d.summary ++ "\n  hint: " ++ hint
  | none => d.summary

/-- A diagnostic of which only the code is certain. -/
structure Sketch where
  code : Code
  message : Option String
  range : Option ByteRange
  severity : Severity
  hint : Option String
  related : List Related
deriving DecidableEq, Repr

/-- The sketch of an error of which nothing else is known. -/
def Sketch.ofCode (code : Code) : Sketch := ⟨code, none, none, .error, none, []⟩

/-- The diagnostic of a sketch.  Without a message it says what its code stands for,
and without a range it lies at the start. -/
def Sketch.build (s : Sketch) : Diagnostic where
  message := s.message.getD s.code.defaultMessage
  range := s.range.getD (.empty 0)
  code := s.code
  severity := s.severity
  hint := s.hint
  related := s.related

/-- What is said about something found where something else was expected. -/
def unexpectedMessage (found : String) (context : Context) : String :=
  "unexpected " ++ found ++ " " ++ context.description ++ ", expected " ++ context.expectation

/-- An error about something found where something else was expected. -/
def unexpected (found : String) (context : Context) (code : Code) : Diagnostic :=
  error (unexpectedMessage found context) (.empty 0) code

end Diagnostic
end HeaderOutline
