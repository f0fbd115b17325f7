import HeaderOutline.Token.Keyword
import HeaderOutline.Token.Punct

/-! # Kinds of token

A token is trivia, a comment, a word, a literal, an operator or delimiter, a
mistake, or the end of the input.  Comments are no trivia: they are read like
declarations.
-/
namespace HeaderOutline

/-- The kind of a token. -/
inductive Kind
  | whitespace | newline
  | lineComment | blockComment | docComment
  | ident | number | string | char
  | punct (p : Punct)
  | keyword (k : Keyword)
  | error
  | eof
deriving DecidableEq, Repr

namespace Kind

/-- Every kind, in the order in which kinds are numbered. -/
def all : List Kind :=
  [.whitespace, .newline, .lineComment, .blockComment, .docComment, .ident, .number, .string,
    .char] ++ Punct.all.map .punct ++ Keyword.all.map .keyword ++ [.error, .eof]

/-- The number of a kind. -/
def code (k : Kind) : Nat := all.idxOf k

/-- White space and line ends. -/
def isTrivia : Kind → Bool
  | .whitespace | .newline => true
  | _ => false

/-- Comments of every form. -/
def isComment : Kind → Bool
  | .lineComment | .blockComment | .docComment => true
  | _ => false

/-- Reserved words. -/
def isKeyword : Kind → Bool
  | .keyword _ => true
  | _ => false

/-- Operators and delimiters. -/
def isPunct : Kind → Bool
  | .punct _ => true
  | _ => false

/-- Numbers, strings and characters. -/
def isLiteral : Kind → Bool
  | .number | .string | .char => true
  | _ => false

/-- Keywords that name a type on their own, alone or with others of them. -/
def isBuiltinType : Kind → Bool
  | .keyword k => k.isBuiltinType
  | _ => false

/-- Kinds between which a space is needed: identifiers, keywords and numbers. -/
def isWord : Kind → Bool
  | .ident | .number | .keyword _ => true
  | _ => false

/-- The name of a kind as a reader of messages knows it. -/
def label : Kind → String
  | .whitespace => "whitespace"
  | .newline => "newline"
  | .lineComment | .blockComment => "comment"
  | .docComment => "documentation comment"
  | .ident => "identifier"
  | .number => "number"
  | .string => "string literal"
  | .char => "character literal"
  | .punct .lParen => "'('"
  | .punct .rParen => "')'"
  | .punct .lBrace => "'\x7b'"
  | .punct .rBrace => "'\x7d'"
  | .punct .lBracket => "'['"
  | .punct .rBracket => "']'"
  | .punct .semicolon => "';'"
  | .punct .colon => "':'"
  | .punct .colonColon => "'::'"
  | .punct .comma => "','"
  | .punct .eq => "'='"
  | .punct .lt => "'<'"
  | .punct .gt => "'>'"
  | .punct .hash => "'#'"
  | .punct _ => "operator"
  | .keyword _ => "keyword"
  | .error => "invalid token"
  | .eof => "end of file"

end Kind
end HeaderOutline
