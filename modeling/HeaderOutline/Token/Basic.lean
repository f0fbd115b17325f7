import HeaderOutline.Position
import HeaderOutline.Token.Lexeme

/-! # Tokens

A token is a lexeme at a place.
-/
namespace HeaderOutline

/-- A kind, the text of that kind, the place where it starts, and the flaw if the
kind is a mistake. -/
structure Token where
  kind : Kind
  text : Text
  start : Position
  flaw : Option Flaw
deriving DecidableEq, Repr

namespace Token

/-- A lexeme at a place. -/
def ofLexeme (x : Lexeme) (start : Position) : Token := ⟨x.kind, x.text, start, x.flaw⟩

/-- The end of the input. -/
def eof (start : Position) : Token := ⟨.eof, [], start, none⟩

/-- A mistake of no width: the input as a whole goes beyond a limit. -/
def halt (flaw : Flaw) (start : Position) : Token := ⟨.error, [], start, some flaw⟩

/-- The place just after a token. -/
def stop (t : Token) : Position := t.start.advance t.text

/-- The stretch that a token covers. -/
def span (t : Token) : Span := ⟨t.start, t.stop⟩

/-- The bytes that a token covers. -/
def range (t : Token) : ByteRange := ⟨t.start.offset, t.start.offset + t.text.size⟩

/-- Whether a token is a mistake. -/
def isError (t : Token) : Bool := t.kind == .error

/-- The text of several tokens, one after the other. -/
def textOf (ts : List Token) : Text := ts.flatMap text

end Token
end HeaderOutline
