import HeaderOutline.Text.Basic

/-! # Positions and spans

A position is a line and a column, both counted from one, and a byte offset
counted from zero.  Reading a character moves a position; a span is a pair of
positions, the second one just after the last character.
-/
namespace HeaderOutline

/-- A place in a header. -/
structure Position where
  line : Nat
  column : Nat
  offset : Nat
deriving DecidableEq, Repr, Inhabited

namespace Position

/-- The place before the first character. -/
def origin : Position := ⟨1, 1, 0⟩

/-- The place after a character. -/
def after (p : Position) (c : Char) : Position :=
  if c == '\n' then ⟨p.line + 1, 1, p.offset + 1⟩
  else ⟨p.line, p.column + 1, p.offset + c.utf8Size⟩

/-- The place after a text. -/
def advance (p : Position) (t : Text) : Position := t.foldl after p

@[simp] theorem advance_nil (p : Position) : p.advance [] = p := rfl

@[simp] theorem advance_cons (p : Position) (c : Char) (t : Text) :
    p.advance (c :: t) = (p.after c).advance t := rfl

theorem advance_append (p : Position) (s t : Text) :
    p.advance (s ++ t) = (p.advance s).advance t := by
  simp [advance, List.foldl_append]

theorem after_offset (p : Position) (c : Char) :
    (p.after c).offset = p.offset + c.utf8Size := by
  unfold after
  split
  · next h => simp_all; rfl
  · rfl

/-- A text moves the offset by its size. -/
theorem advance_offset (p : Position) (t : Text) :
    (p.advance t).offset = p.offset + t.size := by
  induction t generalizing p with
  | nil => rfl
  | cons c t ih => rw [advance_cons, ih, after_offset, Text.size_cons, Nat.add_assoc]

end Position

/-- A range of bytes, its end excluded. -/
structure ByteRange where
  start : Nat
  stop : Nat
deriving DecidableEq, Repr, Inhabited

/-- The empty range at an offset. -/
def ByteRange.empty (offset : Nat) : ByteRange := ⟨offset, offset⟩

/-- A stretch of a header, its end excluded. -/
structure Span where
  start : Position
  stop : Position
deriving DecidableEq, Repr

namespace Span

/-- The empty span before the first character. -/
def origin : Span := ⟨.origin, .origin⟩

instance : Inhabited Span := ⟨origin⟩

/-- A span of lines and columns alone, its offsets zero. -/
def ofCoordinates (startLine startColumn stopLine stopColumn : Nat) : Span :=
  ⟨⟨startLine, startColumn, 0⟩, ⟨stopLine, stopColumn, 0⟩⟩

/-- Whether a position lies in a span, both ends included, by lines and columns. -/
def contains (s : Span) (p : Position) : Bool :=
  !(p.line < s.start.line || s.stop.line < p.line
    || p.line == s.start.line && p.column < s.start.column
    || p.line == s.stop.line && s.stop.column < p.column)

/-- The bytes of a span; a span that ends before it starts has none. -/
def range (s : Span) : ByteRange := ⟨s.start.offset, max s.stop.offset s.start.offset⟩

/-- Whether a span has no bytes. -/
def isEmpty (s : Span) : Bool := s.stop.offset ≤ s.start.offset

end Span

namespace Text

/-- The number of characters, after `k` others, that fill exactly `n` bytes. -/
def charactersIn? (k : Nat) : (n : Nat) → Text → Option Nat
  | 0, _ => some k
  | _ + 1, [] => none
  | n + 1, c :: t =>
    if c.utf8Size ≤ n + 1 then charactersIn? (k + 1) (n + 1 - c.utf8Size) t else none

/-- The text of a range of bytes whose ends lie between characters. -/
def slice? (t : Text) (r : ByteRange) : Option Text := do
  let first ← charactersIn? 0 r.start t
  let last ← charactersIn? 0 r.stop t
  if r.start ≤ r.stop then some ((t.take last).drop first) else none

theorem charactersIn?_append (k : Nat) (s t : Text) :
    charactersIn? k s.size (s ++ t) = some (k + s.length) := by
  induction s generalizing k with
  | nil => simp [charactersIn?]
  | cons c s ih =>
    have hc := Char.utf8Size_pos c
    rw [size_cons, show c.utf8Size + size s = (c.utf8Size + size s - 1) + 1 by omega,
      List.cons_append, charactersIn?, if_pos (by omega),
      show c.utf8Size + size s - 1 + 1 - c.utf8Size = size s by omega, ih,
      List.length_cons, Nat.add_right_comm, Nat.add_assoc]

/-- The bytes between two pieces of a text hold what stands between them. -/
theorem slice?_append (s t u : Text) :
    (s ++ t ++ u).slice? ⟨s.size, (s ++ t).size⟩ = some t := by
  have h1 : charactersIn? 0 s.size (s ++ t ++ u) = some s.length := by
    rw [List.append_assoc, charactersIn?_append, Nat.zero_add]
  have h2 : charactersIn? 0 (s ++ t).size (s ++ t ++ u) = some (s ++ t).length := by
    rw [charactersIn?_append, Nat.zero_add]
  have hle : s.size ≤ (s ++ t).size := by simp
  simp only [slice?, h1, h2, Option.bind_eq_bind, Option.bind_some, if_pos hle,
    List.take_left, List.drop_left]

end Text

/-- The text that a span covers, or nothing where an end lies inside a character
or beyond the text. -/
def Span.slice (s : Span) (t : Text) : Text := (t.slice? s.range).getD []

end HeaderOutline
