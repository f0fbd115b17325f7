import HeaderOutline.Token.Lexeme

/-! # Counting lines and columns

A lexer counts the line and the column that it has come to, both from one and in 32
bits each.  It counts in two ways: over one character after the other, or over a
stretch at once, from the number of the line feeds in it and of the characters behind
the last one.  A number that does not fit into 32 bits starts anew from zero.
-/
namespace HeaderOutline

/-- A line and a column as a lexer counts them. -/
structure Counter where
  line : UInt32
  column : UInt32
deriving DecidableEq, Repr

/-- Whether a lexeme is a comment, be it too long or without an end. -/
def Lexeme.isComment (x : Lexeme) : Bool :=
  x.kind.isComment || x.flaw == some .commentTooLong || x.flaw == some .unterminatedBlockComment

namespace Counter

/-- Before the first character. -/
def origin : Counter := ⟨1, 1⟩

/-- Behind a character. -/
def bump (k : Counter) (c : Char) : Counter :=
  if c == '\n' then ⟨k.line + 1, 1⟩ else ⟨k.line, k.column + 1⟩

/-- Behind a stretch, character by character. -/
def bumpEach (k : Counter) (t : Text) : Counter := t.foldl bump k

/-- The part of a stretch behind its last line feed. -/
def lastLine (t : Text) : Text := (t.reverse.takeWhile (· != '\n')).reverse

/-- Behind a stretch, at once. -/
def bumpAll (k : Counter) (t : Text) : Counter :=
  if t.contains '\n' then
    ⟨k.line + .ofNat (t.count '\n'), .ofNat (lastLine t).length + 1⟩
  else ⟨k.line, k.column + .ofNat t.length⟩

/-- Behind a lexeme.  Comments are passed at once, and all else character by
character. -/
def pass (k : Counter) (x : Lexeme) : Counter :=
  if x.isComment then k.bumpAll x.text else k.bumpEach x.text

end Counter
end HeaderOutline
