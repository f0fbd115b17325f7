import HeaderOutline.Token.Counter
import HeaderOutline.Token.Limits

/-! # Tokens one at a time

A lexer gives the tokens of a text one after the other, as it is asked for them.  The
end of the input is the last one; a lexer that has given it gives nothing any more.
What it says of the place of a token are numbers of 32 bits, which it counts along.
-/
namespace HeaderOutline

/-- A token as a lexer gives it, with the line, the column and the offset at which it
starts in 32 bits each. -/
structure CountedToken extends Token where
  line : UInt32
  column : UInt32
  offset : UInt32
deriving DecidableEq, Repr

/-- How far a lexer has come. -/
inductive Lexer.Phase
  /-- There may be text left. -/
  | scanning
  /-- A limit on the whole input was met, and only the end of the input is left. -/
  | stopping
  /-- The end of the input was given. -/
  | done
deriving DecidableEq, Repr

/-- The text that a lexer has left, the place where it starts, the line and the column
counted so far, and the number of the tokens before it. -/
structure Lexer where
  limits : Limits
  rest : Text
  place : Position
  counter : Counter
  count : Nat
  phase : Lexer.Phase
deriving DecidableEq, Repr

namespace Lexer

/-- A lexer before the first token. -/
def ofText (limits : Limits) (source : Text) : Lexer :=
  ⟨limits, source, .origin, .origin, 0, .scanning⟩

/-- The lexeme at the start of a text and the rest.  A lexeme without text would keep the
lexer where it is, so that one character is passed over as a mistake instead. -/
def lexeme [Alphabet] (limits : Limits) (c : Char) (cs : Text) : Lexeme × Text :=
  let (x, rest) := Lexeme.next c cs
  if x.text.isEmpty then (.flawed .stalled [c], cs) else (limits.flag x, rest)

/-- What a lexer gives for a token that starts where it is. -/
def give (x : Lexer) (t : Token) : CountedToken :=
  ⟨t, x.counter.line, x.counter.column, .ofNat x.place.offset⟩

/-- The lexer behind a lexeme that starts where it is. -/
def behind (x : Lexer) (lexeme : Lexeme) (rest : Text) : Lexer :=
  { x with
    rest := rest
    place := x.place.advance lexeme.text
    counter := x.counter.pass lexeme
    count := x.count + 1 }

/-- The next token, if there is one, and the lexer behind it. -/
def next [Alphabet] (x : Lexer) : Option CountedToken × Lexer :=
  match x.phase with
  | .done => (none, x)
  | .stopping => (some (x.give (.eof x.place)), { x with phase := .done })
  | .scanning =>
    match x.rest with
    | [] => (some (x.give (.eof x.place)), { x with phase := .done })
    | c :: cs =>
      match x.limits.halt? x.count x.place with
      | some flaw => (some (x.give (.halt flaw x.place)), { x with phase := .stopping })
      | none =>
        let (lexeme, rest) := lexeme x.limits c cs
        (some (x.give (.ofLexeme lexeme x.place)), x.behind lexeme rest)

/-- A lexer that was asked a number of times. -/
def after [Alphabet] (x : Lexer) : (asked : Nat) → Lexer
  | 0 => x
  | n + 1 => x.next.2.after n

/-- The first answers of a lexer. -/
def answers [Alphabet] (x : Lexer) : (asked : Nat) → List (Option CountedToken)
  | 0 => []
  | n + 1 => x.next.1 :: x.next.2.answers n

/-- A bound on the tokens that a lexer has left. -/
def left (x : Lexer) : Nat :=
  match x.phase with
  | .done => 0
  | .stopping => 1
  | .scanning => x.rest.length + 2

/-- What remains after a lexeme is shorter than the text. -/
theorem lexeme_rest_length_lt [Alphabet] (limits : Limits) (c : Char) (cs : Text) :
    (lexeme limits c cs).2.length < (c :: cs).length := by
  unfold lexeme
  dsimp only
  split
  · exact Nat.lt_succ_self _
  · exact Lexeme.next_rest_length_lt c cs

/-- A lexer that gives a token has fewer left. -/
theorem left_lt_of_next [Alphabet] {x y : Lexer} {t : CountedToken}
    (h : x.next = (some t, y)) : y.left < x.left := by
  have hy : y = x.next.2 := by rw [h]
  subst hy
  unfold next at h ⊢
  cases hphase : x.phase with
  | done =>
    rw [hphase] at h
    cases h
  | stopping => simp only [left, hphase, Nat.zero_lt_one]
  | scanning =>
    cases hrest : x.rest with
    | nil => simp only [left, hphase]; omega
    | cons c cs =>
      dsimp only
      split
      · simp only [left, hphase]; omega
      · have hlt := lexeme_rest_length_lt x.limits c cs
        simp only [left, behind, hphase, hrest]
        omega

/-- All tokens that a lexer has left, put after `done`, which holds the earlier ones in
reverse. -/
def collectOnto [Alphabet] (done : List CountedToken) (x : Lexer) : List CountedToken :=
  match _h : x.next with
  | (none, _) => done.reverse
  | (some t, y) => collectOnto (t :: done) y
termination_by x.left
decreasing_by exact left_lt_of_next _h

end Lexer
end HeaderOutline
