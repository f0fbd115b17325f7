import HeaderOutline.Text.Basic

/-! # Punctuation

The operators and delimiters.  Where several of them begin a text, the longest
one is read.
-/
namespace HeaderOutline

/-- An operator or a delimiter. -/
inductive Punct
  | lParen | rParen | lBrace | rBrace | lBracket | rBracket | semicolon | colon | colonColon
  | comma | dot | arrow | eq | eqEq | bangEq | lt | gt | ltEq | gtEq | amp | ampAmp | pipe
  | pipePipe | caret | tilde | bang | question | plus | minus | star | slash | percent
  | plusPlus | minusMinus | plusEq | minusEq | starEq | slashEq | ltLt | gtGt | hash | hashHash
  | backslash
deriving DecidableEq, Repr

namespace Punct

/-- Every operator and delimiter, in the order of declaration. -/
def all : List Punct :=
  [.lParen, .rParen, .lBrace, .rBrace, .lBracket, .rBracket, .semicolon, .colon, .colonColon,
   .comma, .dot, .arrow, .eq, .eqEq, .bangEq, .lt, .gt, .ltEq, .gtEq, .amp, .ampAmp, .pipe,
   .pipePipe, .caret, .tilde, .bang, .question, .plus, .minus, .star, .slash, .percent,
   .plusPlus, .minusMinus, .plusEq, .minusEq, .starEq, .slashEq, .ltLt, .gtGt, .hash,
   .hashHash, .backslash]

/-- The characters of an operator or delimiter. -/
def spelling : Punct → Text
  | .lParen => "(".toList
  | .rParen => ")".toList
  | .lBrace => "\x7b".toList
  | .rBrace => "\x7d".toList
  | .lBracket => "[".toList
  | .rBracket => "]".toList
  | .semicolon => ";".toList
  | .colon => ":".toList
  | .colonColon => "::".toList
  | .comma => ",".toList
  | .dot => ".".toList
  | .arrow => "->".toList
  | .eq => "=".toList
  | .eqEq => "==".toList
  | .bangEq => "!=".toList
  | .lt => "<".toList
  | .gt => ">".toList
  | .ltEq => "<=".toList
  | .gtEq => ">=".toList
  | .amp => "&".toList
  | .ampAmp => "&&".toList
  | .pipe => "|".toList
  | .pipePipe => "||".toList
  | .caret => "^".toList
  | .tilde => "~".toList
  | .bang => "!".toList
  | .question => "?".toList
  | .plus => "+".toList
  | .minus => "-".toList
  | .star => "*".toList
  | .slash => "/".toList
  | .percent => "%".toList
  | .plusPlus => "++".toList
  | .minusMinus => "--".toList
  | .plusEq => "+=".toList
  | .minusEq => "-=".toList
  | .starEq => "*=".toList
  | .slashEq => "/=".toList
  | .ltLt => "<<".toList
  | .gtGt => ">>".toList
  | .hash => "#".toList
  | .hashHash => "##".toList
  | .backslash => "\\".toList

/-- Those of two characters, then those of one. -/
def longestFirst : List Punct :=
  all.filter (·.spelling.length == 2) ++ all.filter (·.spelling.length == 1)

/-- The longest operator or delimiter that begins a text. -/
def read? (t : Text) : Option Punct := longestFirst.find? (·.spelling.isPrefixOf t)

/-- Every operator and delimiter is listed. -/
theorem mem_all (p : Punct) : p ∈ all := by
  cases p <;> decide

/-- What is read begins the text. -/
theorem spelling_prefix_of_read? {t : Text} {p : Punct} (h : read? t = some p) :
    p.spelling <+: t := by
  unfold read? at h
  have begins := List.find?_some h
  exact List.isPrefixOf_iff_prefix.mp begins

/-- No operator or delimiter is empty. -/
theorem spelling_ne_nil (p : Punct) : p.spelling ≠ [] := by
  cases p <;> decide

end Punct
end HeaderOutline
