import HeaderOutline.Text.Blank

/-! # Text

Everything read from a header is kept as the list of its characters, so that a
reading can be cut, matched and put together again without any index.  Sizes
are counted in bytes of the UTF-8 form, because offsets into a header are byte
offsets; lines and columns are counted in characters.
-/
namespace HeaderOutline

/-- A piece of header text. -/
abbrev Text := List Char

namespace Text

/-- The number of bytes of the UTF-8 form. -/
def size (t : Text) : Nat := t.foldr (fun c n => c.utf8Size + n) 0

/-- Whether a text comes before another one, or is the same, in the order of code
points. -/
def precedes : Text → Text → Bool
  | [], _ => true
  | _ :: _, [] => false
  | c :: s, d :: t => c.toNat < d.toNat || c == d && precedes s t

/-- Removes the characters of a class from both ends. -/
def strip (p : Char → Bool) (t : Text) : Text :=
  ((t.dropWhile p).reverse.dropWhile p).reverse

/-- Removes blanks from both ends. -/
def trim (t : Text) : Text := strip isBlank t

/-- Removes blanks from the end. -/
def trimEnd (t : Text) : Text := (t.reverse.dropWhile isBlank).reverse

/-- The text after a given beginning, if it begins so. -/
def after? (t lead : Text) : Option Text :=
  if lead.isPrefixOf t then some (t.drop lead.length) else none

/-- The text before a given ending, if it ends so. -/
def before? (t tail : Text) : Option Text :=
  if tail.isSuffixOf t then some (t.take (t.length - tail.length)) else none

/-- The text after a given beginning, or all of it. -/
def dropLead (t lead : Text) : Text := (t.after? lead).getD t

/-- The text before a given ending, or all of it. -/
def dropTail (t tail : Text) : Text := (t.before? tail).getD t

/-- The pieces between line feeds; a text always has at least one. -/
def lines (t : Text) : List Text := t.splitOnP (· == '\n')

/-- The maximal pieces without blanks, in order. -/
def words (t : Text) : List Text := (t.splitOnP isBlank).filter (!·.isEmpty)

/-- The texts in order, a separator between each two. -/
def joinWith (separator : Text) (ts : List Text) : Text := separator.intercalate ts

/-- The double colon between the names of a path. -/
def colons : Text := "::".toList

/-- The words with one space between each two. -/
def collapse (t : Text) : Text := joinWith [' '] t.words

/-- The first word and what follows it without surrounding blanks.  A text that
starts with a blank has an empty first word. -/
def splitWord (t : Text) : Text × Text :=
  (t.takeWhile (!isBlank ·), trim (t.dropWhile (!isBlank ·)))

theorem joinWith_cons (separator t : Text) {ts : List Text} (h : ts ≠ []) :
    joinWith separator (t :: ts) = t ++ separator ++ joinWith separator ts := by
  obtain ⟨u, us, rfl⟩ := List.exists_cons_of_ne_nil h
  simp [joinWith, List.intercalate, List.intersperse]

@[simp] theorem size_nil : size [] = 0 := rfl

@[simp] theorem size_cons (c : Char) (t : Text) : size (c :: t) = c.utf8Size + size t := rfl

@[simp] theorem size_append (s t : Text) : size (s ++ t) = size s + size t := by
  induction s with
  | nil => simp
  | cons c s ih => rw [List.cons_append, size_cons, size_cons, ih, Nat.add_assoc]

/-- Every character takes a byte. -/
theorem length_le_size (t : Text) : t.length ≤ t.size := by
  induction t with
  | nil => exact Nat.le_refl 0
  | cons c t ih =>
    have hc := Char.utf8Size_pos c
    rw [List.length_cons, size_cons]
    omega

end Text
end HeaderOutline
