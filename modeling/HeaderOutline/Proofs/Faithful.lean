import HeaderOutline.Proofs.Words

/-! # Spelling lexemes

Some lexemes are faithful if their text is cut into them again (`Lexeme.Faithful`).  A lexeme
can be put in front of faithful ones if it is not continued by what they start with: a word by
no letter, blanks by no blank, and a delimiter by nothing at all.
-/
namespace HeaderOutline

namespace Keyword

/-- A keyword is read as a keyword. -/
theorem wordKind_spelling (k : Keyword) : Lexeme.wordKind k.spelling = .keyword k := by
  have hall : ∀ k ∈ all, Lexeme.wordKind k.spelling = .keyword k := by decide +kernel
  exact hall k k.mem_all

theorem isWord [Alphabet] (k : Keyword) : k.spelling.IsWord := by
  have hall : ∀ k ∈ all, k.spelling ≠ [] ∧ k.spelling.all Char.isAlpha = true := by
    decide +kernel
  obtain ⟨hne, hletters⟩ := hall k k.mem_all
  exact .of_letters hne hletters

end Keyword

namespace Lexeme

variable {x : Lexeme} {xs : List Lexeme} {t : Text}

/-- Some blanks. -/
def blanks (n : Nat) : Lexeme := sound .whitespace (List.replicate n ' ')

/-- A keyword. -/
def keyword (k : Keyword) : Lexeme := sound (.keyword k) k.spelling

/-- An operator or delimiter. -/
def punct (p : Punct) : Lexeme := sound (.punct p) p.spelling

theorem text_blanks_one : (blanks 1).text = [' '] := rfl

theorem text_keyword (k : Keyword) : (keyword k).text = k.spelling := rfl

theorem text_punct (p : Punct) : (punct p).text = p.spelling := rfl

/-- The text of some lexemes is cut into them again. -/
def Faithful [Alphabet] (xs : List Lexeme) : Prop := Cuts (textOf xs) xs []

namespace Faithful

theorem nil [Alphabet] : Faithful [] := .none []

theorem cons [Alphabet] (h : Faithful xs)
    (hx : ∃ c cs, x.text ++ textOf xs = c :: cs ∧ next c cs = (x, textOf xs)) :
    Faithful (x :: xs) := by
  obtain ⟨c, cs, htext, hnext⟩ := hx
  have hcut : Cuts (c :: cs) ((next c cs).1 :: xs) [] := .next (by rw [hnext]; exact h)
  rw [hnext] at hcut
  unfold Faithful
  rw [textOf_cons, htext]
  exact hcut

theorem word [Alphabet] (h : Faithful xs) (ht : t.IsWord)
    (hw : Stops Text.continuesIdentifier (textOf xs)) : Faithful (sound (wordKind t) t :: xs) :=
  h.cons (ht.next_append hw)

theorem keyword [Alphabet] (k : Keyword) (h : Faithful xs)
    (hw : Stops Text.continuesIdentifier (textOf xs)) : Faithful (keyword k :: xs) := by
  have hspelled := h.word k.isWord hw
  rwa [k.wordKind_spelling] at hspelled

theorem blanks [Alphabet] (n : Nat) (h : Faithful xs) (hw : Stops isSpace (textOf xs)) :
    Faithful (blanks (n + 1) :: xs) := by
  have hspace : ∀ c ∈ List.replicate n ' ', isSpace c = true := by
    intro c hc
    rw [List.eq_of_mem_replicate hc]
    rfl
  refine h.cons ⟨' ', List.replicate n ' ' ++ textOf xs, rfl, ?_⟩
  simp only [next, show (' ' == '\n') = false from rfl, show isSpace ' ' = true from rfl,
    Bool.false_eq_true, if_false, if_true, List.takeWhile_append_of_pos hspace,
    List.dropWhile_append_of_pos hspace, hw.takeWhile, hw.dropWhile, List.append_nil]
  rfl

/-- The delimiters that no operator of two characters starts with. -/
theorem delimiter [Alphabet] {p : Punct} (hp : p ∈ [.lBrace, .rBrace, .lBracket, .rBracket, .lParen,
    .rParen, .semicolon])
    (h : Faithful xs) : Faithful (punct p :: xs) := by
  refine h.cons ?_
  simp only [List.mem_cons, List.not_mem_nil, or_false] at hp
  rcases hp with rfl | rfl | rfl | rfl | rfl | rfl | rfl <;> exact ⟨_, _, rfl, rfl⟩

theorem colon [Alphabet] (n : Nat) (h : Faithful (Lexeme.blanks (n + 1) :: xs)) :
    Faithful (punct .colon :: Lexeme.blanks (n + 1) :: xs) :=
  h.cons ⟨':', _, rfl, rfl⟩

end Faithful

end Lexeme

end HeaderOutline
