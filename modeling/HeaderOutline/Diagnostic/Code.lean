/-! # Diagnostic codes

Each code names one cause of trouble.  Its label sorts the codes into families:
`E01` for characters and tokens, `E02` for delimiters, `E03` for declarations,
`E05` for namespaces and using declarations, `E06` for directives and `E09` for
the rest.
-/
namespace HeaderOutline

/-- The cause of a diagnostic. -/
inductive Code
  | invalidCharacter
  | unterminatedLiteral
  | unterminatedComment
  | numberTooLong
  | tokenTooLong
  | inputTooLarge
  | missingSemicolon
  | unclosedBrace
  | unclosedParen
  | unclosedAngle
  | unexpectedCloser
  | missingColon
  | missingName
  | missingAngle
  | unsupportedTemplate
  | misplacedToken
  | invalidNamespace
  | invalidUsing
  | missingMacroName
  | unexpectedToken
  | expectedToken
  | internal
deriving DecidableEq, Repr

namespace Code

/-- Every code, in the order of the labels. -/
def all : List Code :=
  [.invalidCharacter, .unterminatedLiteral, .unterminatedComment, .numberTooLong, .tokenTooLong,
   .inputTooLarge, .missingSemicolon, .unclosedBrace, .unclosedParen, .unclosedAngle,
   .unexpectedCloser, .missingColon, .missingName, .missingAngle, .unsupportedTemplate,
   .misplacedToken, .invalidNamespace, .invalidUsing, .missingMacroName, .unexpectedToken,
   .expectedToken, .internal]

/-- The label by which messages quote a code. -/
def label : Code → String
  | .invalidCharacter => "E0101"
  | .unterminatedLiteral => "E0102"
  | .unterminatedComment => "E0103"
  | .numberTooLong => "E0104"
  | .tokenTooLong => "E0105"
  | .inputTooLarge => "E0106"
  | .missingSemicolon => "E0201"
  | .unclosedBrace => "E0202"
  | .unclosedParen => "E0203"
  | .unclosedAngle => "E0204"
  | .unexpectedCloser => "E0205"
  | .missingColon => "E0206"
  | .missingName => "E0301"
  | .missingAngle => "E0302"
  | .unsupportedTemplate => "E0303"
  | .misplacedToken => "E0304"
  | .invalidNamespace => "E0501"
  | .invalidUsing => "E0502"
  | .missingMacroName => "E0601"
  | .unexpectedToken => "E0901"
  | .expectedToken => "E0902"
  | .internal => "E0999"

/-- The family of a code. -/
def category : Code → String
  | .invalidCharacter | .unterminatedLiteral | .unterminatedComment | .numberTooLong
  | .tokenTooLong | .inputTooLarge => "lexical error"
  | .missingSemicolon | .unclosedBrace | .unclosedParen | .unclosedAngle | .unexpectedCloser
  | .missingColon => "structural error"
  | .missingName | .missingAngle | .unsupportedTemplate | .misplacedToken => "declaration error"
  | .invalidNamespace | .invalidUsing => "namespace error"
  | .missingMacroName => "preprocessor error"
  | .unexpectedToken | .expectedToken | .internal => "syntax error"

/-- What a diagnostic says that has no message of its own. -/
def defaultMessage : Code → String
  | .invalidCharacter => "invalid character"
  | .unterminatedLiteral => "unterminated literal"
  | .unterminatedComment => "unterminated block comment"
  | .numberTooLong => "numeric literal too long"
  | .tokenTooLong => "token too long"
  | .inputTooLarge => "input too large"
  | .missingSemicolon => "missing semicolon"
  | .unclosedBrace => "unclosed brace"
  | .unclosedParen => "unclosed parenthesis"
  | .unclosedAngle => "unclosed template bracket"
  | .unexpectedCloser => "unexpected closing delimiter"
  | .missingColon => "missing ':' after access specifier"
  | .missingName => "missing identifier"
  | .missingAngle => "missing '<' after 'template'"
  | .unsupportedTemplate => "unsupported templated declaration"
  | .misplacedToken => "unexpected token in declaration"
  | .invalidNamespace => "invalid namespace name"
  | .invalidUsing => "invalid using declaration"
  | .missingMacroName => "missing macro name"
  | .unexpectedToken => "unexpected token"
  | .expectedToken => "expected token"
  | .internal => "internal parser error"

/-- Codes that characters and tokens give rise to, before any construct is read. -/
def isLexical : Code → Bool
  | .invalidCharacter | .unterminatedLiteral | .unterminatedComment | .numberTooLong
  | .tokenTooLong | .inputTooLarge => true
  | _ => false

/-- Codes about delimiters that are missing or out of place. -/
def isStructural : Code → Bool
  | .missingSemicolon | .unclosedBrace | .unclosedParen | .unclosedAngle | .unexpectedCloser
  | .missingColon => true
  | _ => false

/-- Codes after which reading goes on. -/
def isRecoverable (c : Code) : Bool := !c.isLexical && c != .internal

end Code
end HeaderOutline
