import HeaderOutline.Token.Basic

/-! # Limits

Limits bound the work that one input can ask for.  A limit on length only flags
the token that goes beyond it; a limit on the whole input ends the tokens early.
Neither changes where a token starts or ends.
-/
namespace HeaderOutline

/-- The most that is accepted of each thing. -/
structure Limits where
  /-- Tokens, the end of the input not counted. -/
  tokens : Nat
  /-- Steps, one for each token. -/
  iterations : Nat
  /-- Characters of an identifier or a keyword. -/
  identifier : Nat
  /-- Characters of a number. -/
  number : Nat
  /-- Characters of a string or character literal. -/
  literal : Nat
  /-- Characters of white space on end. -/
  whitespace : Nat
  /-- Bytes of a comment. -/
  comment : Nat
  /-- The last offset at which a token may start. -/
  position : Nat
deriving DecidableEq, Repr

namespace Limits

/-- The limits that hold unless others are asked for. -/
def standard : Limits where
  tokens := 1000000
  iterations := 2000000
  identifier := 1024
  number := 256
  literal := 65536
  whitespace := 10000
  comment := 100000
  position := 64 * 1024 * 1024

instance : Inhabited Limits := ⟨standard⟩

/-- The flaw of a sound lexeme that is too long for its kind. -/
def excess? (l : Limits) (x : Lexeme) : Option Flaw :=
  match x.kind with
  | .whitespace => if l.whitespace < x.text.length then some .excessiveWhitespace else none
  | .lineComment | .blockComment | .docComment =>
    if l.comment < x.text.size then some .commentTooLong else none
  | .string | .char => if l.literal < x.text.length then some .literalTooLong else none
  | .number => if l.number < x.text.length then some .numberTooLong else none
  | .ident | .keyword _ =>
    if l.identifier < x.text.length then some .identifierTooLong else none
  | _ => none

/-- A lexeme, turned into a mistake if it is too long. -/
def flag (l : Limits) (x : Lexeme) : Lexeme :=
  match l.excess? x with
  | some flaw => .flawed flaw x.text
  | none => x

/-- The flaw of the whole input if no token may follow the first `count` ones at a
place where more text is left. -/
def halt? (l : Limits) (count : Nat) (p : Position) : Option Flaw :=
  if l.tokens ≤ count then some .tokenLimit
  else if l.iterations ≤ count then some .iterationLimit
  else if l.position < p.offset then some .positionLimit
  else none

/-- Flagging keeps the text. -/
@[simp] theorem flag_text (l : Limits) (x : Lexeme) : (l.flag x).text = x.text := by
  unfold flag
  split <;> rfl

end Limits
end HeaderOutline
