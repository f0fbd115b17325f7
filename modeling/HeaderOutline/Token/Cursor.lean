import HeaderOutline.Token.Lexer

/-! # A cursor over tokens

A place in a list of tokens from which one can look around, move on and come
back.  Looking beyond the list shows the end of the input: its own last token, if
that is one, or else one without a place.
-/
namespace HeaderOutline

/-- A list of tokens and the index of the current one. -/
structure Cursor where
  tokens : List CountedToken
  index : Nat
deriving DecidableEq, Repr

namespace Cursor

variable (c : Cursor)

/-- A cursor on the first token. -/
def ofTokens (tokens : List CountedToken) : Cursor := ⟨tokens, 0⟩

/-- The end of an input that does not say where it ends. -/
def unplaced : CountedToken := ⟨.eof ⟨0, 0, 0⟩, 0, 0, 0⟩

/-- What is seen beyond the last token. -/
def beyond : CountedToken :=
  match c.tokens.getLast? with
  | some t => if t.kind == .eof then t else unplaced
  | none => unplaced

/-- The token of an index. -/
def tokenAt (n : Nat) : CountedToken := c.tokens[n]?.getD c.beyond

/-- The token `n` places ahead. -/
def peekAhead (n : Nat) : CountedToken := c.tokenAt (c.index + n)

/-- The current token. -/
def peek : CountedToken := c.peekAhead 0

/-- The token before the current one. -/
def previous : CountedToken :=
  match c.index with
  | 0 => unplaced
  | n + 1 => c.tokens[n]?.getD unplaced

/-- The kind of the current token. -/
def kind : Kind := c.peek.kind

/-- Whether no token is left but the end of the input. -/
def isAtEnd : Bool := c.tokens.length ≤ c.index || c.kind == .eof

/-- Whether the current token is of one of the kinds. -/
def isAtAny (kinds : List Kind) : Bool := kinds.contains c.kind

/-- The cursor one token further; at the end it stays. -/
def advance : Cursor := if c.isAtEnd then c else ⟨c.tokens, c.index + 1⟩

/-- Moves past the current token if it is of one of the kinds, and says whether it
was. -/
def eatAny (kinds : List Kind) : Bool × Cursor :=
  if c.isAtAny kinds then (true, c.advance) else (false, c)

/-- Moves past the tokens whose kinds satisfy a condition. -/
def skipWhile (p : Kind → Bool) : Cursor :=
  ⟨c.tokens, c.index + ((c.tokens.drop c.index).takeWhile (p ·.kind)).length⟩

/-- Moves past white space. -/
def skipWhitespace : Cursor := c.skipWhile (· == .whitespace)

/-- Moves past white space and line ends. -/
def skipTrivia : Cursor := c.skipWhile Kind.isTrivia

/-- Moves past white space, line ends and comments. -/
def skipTriviaAndComments : Cursor := c.skipWhile fun k => k.isTrivia || k.isComment

/-- The kind of the first token that is no trivia. -/
def nextSignificant : Kind := c.skipTrivia.kind

/-- The cursor on an index that it has been on. -/
def restore (mark : Nat) : Cursor := ⟨c.tokens, min mark c.tokens.length⟩

/-- The tokens from a mark up to the current one. -/
def consumedSince (mark : Nat) : List CountedToken :=
  (c.tokens.take c.index).drop (min mark c.index)

end Cursor
end HeaderOutline
