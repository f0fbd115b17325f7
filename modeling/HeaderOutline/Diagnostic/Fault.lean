import HeaderOutline.Diagnostic.Basic
import HeaderOutline.Token.Basic

/-! # Faults and warnings

A fault ends the reading of a construct; a warning does not.  Both are kept as
causes, with the token at which they arose, and put into words only at the end.
-/
namespace HeaderOutline

/-- Why a construct could not be read. -/
inductive Cause
  /-- A token that the construct cannot hold at this place. -/
  | unexpected (context : Context) (code : Code)
  /-- A template keyword without a parameter list. -/
  | templateWithoutList (keyword : Token)
  | unclosedEnumBody
  | unclosedClassArguments
  | unclosedTemplateList
  | unclosedFunctionBody
  | namelessFunction
  | namelessDeclaration
  | namelessTypedef
  | namelessUsing
deriving DecidableEq, Repr

/-- The cause of a failure and the token at which it arose, none being the end of the
input. -/
structure Fault where
  cause : Cause
  token : Option Token
deriving DecidableEq, Repr

/-- What looks wrong but was read all the same. -/
inductive Warning
  /-- A closing brace that closes nothing. -/
  | strayBrace (brace : Token)
  /-- A macro definition with something else where its name should be. -/
  | namelessMacro (found : Option Token)
deriving DecidableEq, Repr

/-- How a token, or the end of the input, is named in a message. -/
def foundText : Option Token → String
  | none => "end of input"
  | some t => if t.kind == .newline then "end of line" else "'" ++ String.ofList t.text ++ "'"

/-- The bytes of a token, or the end of an input of the given size. -/
def rangeOr (size : Nat) : Option Token → ByteRange
  | none => .empty size
  | some t => t.range

namespace Fault

/-- The fault that the first of some tokens is not one that the construct can hold. -/
def unexpected (context : Context) (code : Code) (ts : List Token) : Fault :=
  ⟨.unexpected context code, ts.head?⟩

/-- The code of a fault. -/
def code (f : Fault) : Code :=
  match f.cause with
  | .unexpected _ code => code
  | .templateWithoutList _ => .missingAngle
  | .unclosedEnumBody | .unclosedFunctionBody => .unclosedBrace
  | .unclosedClassArguments | .unclosedTemplateList => .unclosedAngle
  | .namelessFunction | .namelessDeclaration | .namelessTypedef => .missingName
  | .namelessUsing => .invalidUsing

/-- What is said about a fault. -/
def message (f : Fault) : String :=
  match f.cause with
  | .unexpected context _ => Diagnostic.unexpectedMessage (foundText f.token) context
  | .templateWithoutList _ => Diagnostic.unexpectedMessage (foundText f.token) .template
  | .unclosedEnumBody => "unclosed '\x7b' in enum body"
  | .unclosedClassArguments => "unclosed '<' in class template arguments"
  | .unclosedTemplateList => "unclosed '<' in template parameter list"
  | .unclosedFunctionBody => "unclosed '\x7b' in function body"
  | .namelessFunction => "expected a function name before the parameter list"
  | .namelessDeclaration => "expected a name in declaration"
  | .namelessTypedef => "expected a name in typedef"
  | .namelessUsing => "expected a name in using declaration"

/-- The hint given with a fault. -/
def hint? (f : Fault) : Option String :=
  match f.cause with
  | .unclosedFunctionBody => some "the body runs to the end of the file"
  | _ => none

/-- The other places that a fault points to. -/
def related (f : Fault) : List Related :=
  match f.cause with
  | .templateWithoutList keyword => [⟨"template keyword here", keyword.range⟩]
  | _ => []

/-- A fault in words, in an input of the given size. -/
def diagnostic (size : Nat) (f : Fault) : Diagnostic :=
  ⟨f.message, rangeOr size f.token, f.code, .error, f.hint?, f.related⟩

end Fault

/-- A warning in words, in an input of the given size. -/
def Warning.diagnostic (size : Nat) : Warning → Diagnostic
  | .strayBrace brace =>
    ⟨"unmatched '\x7d' at file scope", brace.range, .unexpectedCloser, .warning, none, []⟩
  | .namelessMacro found =>
    ⟨Diagnostic.unexpectedMessage (foundText found) .directive, rangeOr size found,
      .missingMacroName, .warning, none, []⟩

end HeaderOutline
