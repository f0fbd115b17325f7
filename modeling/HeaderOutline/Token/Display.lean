import HeaderOutline.Text.Quoted
import HeaderOutline.Token.Lexer

/-! # Tokens in words

Each kind has a name, and a token is shown on one line by the name of its kind, its text
between quotes and the place that it tells, or by the flaw if it is a mistake.
-/
namespace HeaderOutline

/-- The name of an operator or delimiter. -/
def Punct.name : Punct → String
  | .lParen => "L_PAREN"
  | .rParen => "R_PAREN"
  | .lBrace => "L_BRACE"
  | .rBrace => "R_BRACE"
  | .lBracket => "L_BRACKET"
  | .rBracket => "R_BRACKET"
  | .semicolon => "SEMICOLON"
  | .colon => "COLON"
  | .colonColon => "COLON_COLON"
  | .comma => "COMMA"
  | .dot => "DOT"
  | .arrow => "ARROW"
  | .eq => "EQ"
  | .eqEq => "EQ_EQ"
  | .bangEq => "BANG_EQ"
  | .lt => "LT"
  | .gt => "GT"
  | .ltEq => "LT_EQ"
  | .gtEq => "GT_EQ"
  | .amp => "AMP"
  | .ampAmp => "AMP_AMP"
  | .pipe => "PIPE"
  | .pipePipe => "PIPE_PIPE"
  | .caret => "CARET"
  | .tilde => "TILDE"
  | .bang => "BANG"
  | .question => "QUESTION"
  | .plus => "PLUS"
  | .minus => "MINUS"
  | .star => "STAR"
  | .slash => "SLASH"
  | .percent => "PERCENT"
  | .plusPlus => "PLUS_PLUS"
  | .minusMinus => "MINUS_MINUS"
  | .plusEq => "PLUS_EQ"
  | .minusEq => "MINUS_EQ"
  | .starEq => "STAR_EQ"
  | .slashEq => "SLASH_EQ"
  | .ltLt => "LT_LT"
  | .gtGt => "GT_GT"
  | .hash => "HASH"
  | .hashHash => "HASH_HASH"
  | .backslash => "BACKSLASH"

/-- The name of a keyword. -/
def Keyword.name (k : Keyword) : String :=
  String.ofList (k.spelling.map Char.toUpper) ++ "_KW"

/-- The name of a kind. -/
def Kind.name : Kind → String
  | .whitespace => "WHITESPACE"
  | .newline => "NEWLINE"
  | .lineComment => "LINE_COMMENT"
  | .blockComment => "BLOCK_COMMENT"
  | .docComment => "DOXYGEN_COMMENT"
  | .ident => "IDENT"
  | .number => "NUMBER"
  | .string => "STRING"
  | .char => "CHAR"
  | .punct p => p.name
  | .keyword k => k.name
  | .error => "ERROR"
  | .eof => "EOF"

/-- A token in words. -/
def CountedToken.display (t : CountedToken) : String :=
  let place := " at " ++ toString t.line ++ ":" ++ toString t.column
  match t.flaw with
  | some flaw => "ERROR(" ++ flaw.message ++ ")" ++ place
  | none => t.kind.name ++ ":" ++ String.ofList t.text.quote ++ place

/-- A keyword before all else. -/
example :
    (⟨⟨.keyword .intKw, "int".toList, .origin, none⟩, 1, 1, 0⟩ : CountedToken).display
      = "INT_KW:\"int\" at 1:1" := by
  decide +kernel

end HeaderOutline
