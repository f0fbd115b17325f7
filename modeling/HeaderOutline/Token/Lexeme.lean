import HeaderOutline.Text.Identifier
import HeaderOutline.Token.Kind
import HeaderOutline.Token.Flaw

/-! # Lexemes

A lexeme is a token without a place.  `Lexeme.next` cuts the first one off a
text that is not empty; what it cuts off is never empty and, put back in front
of the rest, gives the text again.  Which lexeme comes first depends on nothing
but the text that starts there.
-/
namespace HeaderOutline

/-- A kind, the text of that kind, and the flaw if the kind is a mistake. -/
structure Lexeme where
  kind : Kind
  text : Text
  flaw : Option Flaw
deriving DecidableEq, Repr

namespace Lexeme

/-- A lexeme without a flaw. -/
def sound (kind : Kind) (text : Text) : Lexeme := ⟨kind, text, none⟩

/-- A lexeme that is a mistake. -/
def flawed (flaw : Flaw) (text : Text) : Lexeme := ⟨.error, text, some flaw⟩

/-- White space within a line, the byte order mark included. -/
def isSpace (c : Char) : Bool :=
  c == ' ' || c == '\t' || c == '\r' || c == '\x0B' || c == '\x0C' || c == '\uFEFF'

/-- The kind of a comment that runs to the end of its line. -/
def lineCommentKind (t : Text) : Kind :=
  if "///".toList.isPrefixOf t && !"////".toList.isPrefixOf t || "//!".toList.isPrefixOf t
  then .docComment else .lineComment

/-- The kind of a comment that is closed by a mark of its own. -/
def blockCommentKind (t : Text) : Kind :=
  if "/**".toList.isPrefixOf t && t != "/**/".toList || "/*!".toList.isPrefixOf t
  then .docComment else .blockComment

/-- A text up to and with the first `*/`, put after what is done in reverse, and
the rest; nothing if the mark is missing. -/
def closeComment (done : Text) : Text → Option (Text × Text)
  | '*' :: '/' :: cs => some (('/' :: '*' :: done).reverse, cs)
  | c :: cs => closeComment (c :: done) cs
  | [] => none

/-- A literal after its opening quote, put after what is done in reverse, and the
rest; the flag says whether the closing quote was found.  A backslash takes the
next character along, and a line end or the end of the text leaves the literal
open. -/
def closeQuote (quote : Char) (done : Text) : Text → Bool × Text × Text
  | [] => (false, done.reverse, [])
  | '\n' :: cs => (false, done.reverse, '\n' :: cs)
  | '\\' :: '\n' :: cs => (false, ('\\' :: done).reverse, '\n' :: cs)
  | '\\' :: c :: cs => closeQuote quote (c :: '\\' :: done) cs
  | c :: cs =>
    if c == quote then (true, (c :: done).reverse, cs) else closeQuote quote (c :: done) cs

/-- Whether a number, so far, is hexadecimal and has no exponent mark, so that an
`e` in it is a digit. -/
def isHexBody (number : Text) : Bool :=
  match number with
  | '0' :: x :: _ => (x == 'x' || x == 'X') && !number.any fun c => c == 'p' || c == 'P'
  | _ => false

/-- Whether a number, so far in reverse, ends in an exponent mark after which a sign
still belongs to it. -/
def takesSign (done : Text) : Bool :=
  match done with
  | c :: _ =>
    (c == 'e' || c == 'E' || c == 'p' || c == 'P') && !isHexBody done.reverse
  | [] => false

/-- Whether a quote mark separates digits: it must stand before a letter or digit. -/
def separates : Text → Bool
  | c :: _ => c.isAlphanum
  | [] => false

/-- A number, put after what is done in reverse, and the rest.  Numbers are taken
loosely: letters, digits, underscores, points, separating quote marks, and signs
after an exponent mark. -/
def closeNumber (done : Text) : Text → Text × Text
  | [] => (done.reverse, [])
  | c :: cs =>
    if c.isAlphanum || c == '_' || c == '.' || c == '\'' && separates cs
      || (c == '+' || c == '-') && takesSign done
    then closeNumber (c :: done) cs
    else (done.reverse, c :: cs)

/-- The kind of a word. -/
def wordKind (t : Text) : Kind :=
  match Keyword.ofText? t with
  | some k => .keyword k
  | none => .ident

/-- A string or character literal that opens with the given quote. -/
def literal (quote : Char) (kind : Kind) (unclosed : Flaw) (cs : Text) : Lexeme × Text :=
  match closeQuote quote [quote] cs with
  | (true, text, rest) => (sound kind text, rest)
  | (false, text, rest) => (flawed unclosed text, rest)

/-- An operator or delimiter, or a character that opens no lexeme. -/
def symbol (c : Char) (cs : Text) : Lexeme × Text :=
  match Punct.read? (c :: cs) with
  | some p => (sound (.punct p) p.spelling, (c :: cs).drop p.spelling.length)
  | none => (flawed .unexpectedCharacter [c], cs)

/-- The first lexeme of a text that starts with the given character, and the rest. -/
def next [Alphabet] (c : Char) (cs : Text) : Lexeme × Text :=
  if c == '\n' then (sound .newline [c], cs)
  else if isSpace c then (sound .whitespace (c :: cs.takeWhile isSpace), cs.dropWhile isSpace)
  else if c == '/' && cs.head? == some '/' then
    let text := c :: cs.takeWhile (· != '\n')
    (sound (lineCommentKind text) text, cs.dropWhile (· != '\n'))
  else if c == '/' && cs.head? == some '*' then
    match closeComment ['*', '/'] cs.tail with
    | some (text, rest) => (sound (blockCommentKind text) text, rest)
    | none => (flawed .unterminatedBlockComment (c :: cs), [])
  else if c == '"' then literal c .string .unterminatedString cs
  else if c == '\'' then literal c .char .unterminatedChar cs
  else if c.isDigit then
    let (text, rest) := closeNumber [c] cs
    (sound .number text, rest)
  else if Text.opensIdentifier c then
    let text := c :: cs.takeWhile Text.continuesIdentifier
    (sound (wordKind text) text, cs.dropWhile Text.continuesIdentifier)
  else symbol c cs

/-! ## Nothing is lost -/

theorem closeComment_append {done cs text rest : Text}
    (h : closeComment done cs = some (text, rest)) : text ++ rest = done.reverse ++ cs := by
  fun_induction closeComment done cs with
  | case1 done cs =>
    obtain ⟨rfl, rfl⟩ := by simpa using h
    simp
  | case2 done c cs _ ih => simpa using ih h
  | case3 => simp at h

theorem closeQuote_append (quote : Char) (done cs : Text) :
    (closeQuote quote done cs).2.1 ++ (closeQuote quote done cs).2.2 = done.reverse ++ cs := by
  fun_induction closeQuote quote done cs <;> simp_all

theorem closeNumber_append (done cs : Text) :
    (closeNumber done cs).1 ++ (closeNumber done cs).2 = done.reverse ++ cs := by
  fun_induction closeNumber done cs <;> simp_all

theorem literal_append (quote : Char) (kind : Kind) (unclosed : Flaw) (cs : Text) :
    (literal quote kind unclosed cs).1.text ++ (literal quote kind unclosed cs).2
      = quote :: cs := by
  have h := closeQuote_append quote [quote] cs
  unfold literal
  split <;> simp_all [sound, flawed]

theorem symbol_append (c : Char) (cs : Text) :
    (symbol c cs).1.text ++ (symbol c cs).2 = c :: cs := by
  unfold symbol
  split
  · next p h => exact List.prefix_iff_eq_append.mp (Punct.spelling_prefix_of_read? h)
  · rfl

/-- The lexeme and the rest make up the text. -/
theorem next_append [Alphabet] (c : Char) (cs : Text) : (next c cs).1.text ++
    (next c cs).2 = c :: cs := by
  unfold next
  split
  · rfl
  split
  · simp [sound]
  split
  · simp [sound]
  split
  · next h =>
    have hc : c = '/' ∧ cs.head? = some '*' := by simpa using h
    obtain ⟨rfl, hs⟩ := hc
    obtain ⟨cs, rfl⟩ := List.head?_eq_some_iff.mp hs
    split
    · next text rest hm => simpa [sound] using closeComment_append hm
    · simp [flawed]
  split
  · next h => simpa using literal_append c .string .unterminatedString cs
  split
  · next h => simpa using literal_append c .char .unterminatedChar cs
  split
  · simpa [sound] using closeNumber_append [c] cs
  split
  · simp [sound]
  · exact symbol_append c cs

theorem closeComment_text_ne_nil {done cs text rest : Text} (hd : done ≠ [])
    (h : closeComment done cs = some (text, rest)) : text ≠ [] := by
  fun_induction closeComment done cs with
  | case1 done cs =>
    obtain ⟨rfl, rfl⟩ := by simpa using h
    simp
  | case2 done c cs _ ih => exact ih (by simp) h
  | case3 => simp at h

theorem closeQuote_text_ne_nil (quote : Char) {done : Text} (cs : Text) (hd : done ≠ []) :
    (closeQuote quote done cs).2.1 ≠ [] := by
  fun_induction closeQuote quote done cs <;> simp_all

theorem closeNumber_text_ne_nil {done : Text} (cs : Text) (hd : done ≠ []) :
    (closeNumber done cs).1 ≠ [] := by
  fun_induction closeNumber done cs <;> simp_all

theorem literal_text_ne_nil (quote : Char) (kind : Kind) (unclosed : Flaw) (cs : Text) :
    (literal quote kind unclosed cs).1.text ≠ [] := by
  have h := closeQuote_text_ne_nil quote cs (List.cons_ne_nil quote [])
  unfold literal
  split <;> simp_all [sound, flawed]

theorem symbol_text_ne_nil (c : Char) (cs : Text) : (symbol c cs).1.text ≠ [] := by
  unfold symbol
  split
  · exact Punct.spelling_ne_nil _
  · simp [flawed]

/-- A lexeme is not empty. -/
theorem next_text_ne_nil [Alphabet] (c : Char) (cs : Text) : (next c cs).1.text ≠ [] := by
  unfold next
  split
  · simp [sound]
  split
  · simp [sound]
  split
  · simp [sound]
  split
  · split
    · next text rest hm => exact closeComment_text_ne_nil (by simp) hm
    · simp [flawed]
  split
  · exact literal_text_ne_nil _ _ _ cs
  split
  · exact literal_text_ne_nil _ _ _ cs
  split
  · exact closeNumber_text_ne_nil cs (List.cons_ne_nil c [])
  split
  · simp [sound]
  · exact symbol_text_ne_nil c cs

/-- What remains after a lexeme is shorter than the text. -/
theorem next_rest_length_lt [Alphabet] (c : Char) (cs : Text) :
    (next c cs).2.length < (c :: cs).length := by
  have h := congrArg List.length (next_append c cs)
  have hn := List.length_pos_iff.mpr (next_text_ne_nil c cs)
  simp only [List.length_append] at h
  omega

end Lexeme
end HeaderOutline
