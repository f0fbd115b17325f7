import HeaderOutline.Diagnostic.Code

/-! # Flaws

The reasons for which a token is a mistake.  Some lie in the token itself, some
in a limit on its length, and some in a limit on the whole input.
-/
namespace HeaderOutline

/-- Why a token is a mistake. -/
inductive Flaw
  | unexpectedCharacter
  | unterminatedString
  | unterminatedChar
  | unterminatedBlockComment
  | excessiveWhitespace
  | identifierTooLong
  | numberTooLong
  | literalTooLong
  | commentTooLong
  | tokenLimit
  | iterationLimit
  | positionLimit
  | stalled
deriving DecidableEq, Repr

namespace Flaw

/-- Every flaw. -/
def all : List Flaw :=
  [.unexpectedCharacter, .unterminatedString, .unterminatedChar, .unterminatedBlockComment,
   .excessiveWhitespace, .identifierTooLong, .numberTooLong, .literalTooLong, .commentTooLong,
   .tokenLimit, .iterationLimit, .positionLimit, .stalled]

/-- What a message says about a flaw. -/
def message : Flaw → String
  | .unexpectedCharacter => "unexpected character"
  | .unterminatedString => "unterminated string literal"
  | .unterminatedChar => "unterminated character literal"
  | .unterminatedBlockComment => "unterminated block comment"
  | .excessiveWhitespace => "excessive whitespace"
  | .identifierTooLong => "identifier too long"
  | .numberTooLong => "numeric literal too long"
  | .literalTooLong => "string or character literal too long"
  | .commentTooLong => "comment too long"
  | .tokenLimit => "token limit exceeded"
  | .iterationLimit => "scan iteration limit exceeded"
  | .positionLimit => "input position limit exceeded"
  | .stalled => "lexer failed to advance"

/-- The code under which a flaw is reported. -/
def code : Flaw → Code
  | .unexpectedCharacter | .stalled => .invalidCharacter
  | .unterminatedString | .unterminatedChar => .unterminatedLiteral
  | .unterminatedBlockComment => .unterminatedComment
  | .numberTooLong => .numberTooLong
  | .excessiveWhitespace | .identifierTooLong | .literalTooLong | .commentTooLong => .tokenTooLong
  | .tokenLimit | .iterationLimit | .positionLimit => .inputTooLarge

end Flaw
end HeaderOutline
