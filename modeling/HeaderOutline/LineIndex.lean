import HeaderOutline.Position

/-! # Line index

The offsets at which the lines of a text start.  They turn a byte offset into a
line and a column without reading the text from its beginning.
-/
namespace HeaderOutline

/-- The offsets at which the lines start, and the size of the text. -/
structure LineIndex where
  starts : List Nat
  size : Nat
deriving DecidableEq, Repr

namespace LineIndex

/-- The starts of the lines after the one that reaches the offset, with those
found so far in reverse. -/
def startsOnto (found : List Nat) (offset : Nat) : Text → List Nat
  | [] => found.reverse
  | c :: t =>
    if c == '\n' then startsOnto ((offset + 1) :: found) (offset + 1) t
    else startsOnto found (offset + c.utf8Size) t

/-- The line index of a text. -/
def ofText (t : Text) : LineIndex := ⟨startsOnto [0] 0 t, t.size⟩

/-- The number of lines; a line feed at the end opens one more. -/
def lineCount (index : LineIndex) : Nat := index.starts.length

/-- The line and the column of an offset, both counted from one.  An offset past
the end counts as the end, and one inside a character is counted in bytes from
the start of its line. -/
def lineColumn (index : LineIndex) (t : Text) (offset : Nat) : Nat × Nat :=
  let offset := min offset index.size
  let passed := index.starts.takeWhile (· ≤ offset)
  let start := passed.getLastD 0
  let column := match t.slice? ⟨start, offset⟩ with
    | some s => s.length
    | none => offset - start
  (passed.length, column + 1)

/-- The position of an offset. -/
def position (index : LineIndex) (t : Text) (offset : Nat) : Position :=
  let (line, column) := index.lineColumn t offset
  ⟨line, column, min offset index.size⟩

end LineIndex
end HeaderOutline
