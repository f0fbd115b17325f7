import HeaderOutline.Proofs.Scan

/-! # Cutting a text into lexemes

Without limits and places, scanning cuts a text into lexemes (`Lexeme.Cuts`).  A lexeme
depends on the text behind it by one character at most; so where a lexeme ends before a
slash or a line end, it is the same whatever follows that character (`Lexeme.next_local`), and a
block comment is the same whatever follows it.  Hence a block comment can be replaced by another
one with the other lexemes left as they are (`Lexeme.Cuts.replace`).  A text that stays
within the limits has its lexemes for tokens (`Token.scan_of_cuts`).
-/
namespace HeaderOutline

namespace Lexeme

variable {u v w y z : Text}

/-! ## What a lexeme depends on -/

/-- Characters of a class that end before a text are the same whatever follows the first
character of the text. -/
theorem takeWhile_local {p : Char → Bool} {c : Char}
    (h : (v ++ c :: y).dropWhile p = u ++ c :: y) (z : Text) :
    (v ++ c :: z).takeWhile p = (v ++ c :: y).takeWhile p := by
  induction v with
  | nil =>
    cases hc : p c with
    | false => simp [hc]
    | true =>
      have hlen := (List.dropWhile_suffix p (l := y)).length_le
      rw [List.nil_append, List.dropWhile_cons_of_pos hc] at h
      rw [h] at hlen
      simp at hlen
      omega
  | cons a v ih =>
    rw [List.cons_append, List.cons_append, List.takeWhile_cons, List.takeWhile_cons]
    cases ha : p a with
    | false => rfl
    | true =>
      rw [List.cons_append, List.dropWhile_cons_of_pos ha] at h
      rw [if_pos rfl, if_pos rfl, ih h]

theorem closeComment_cons_cons (done : Text) (a b : Char) (cs : Text) :
    closeComment done (a :: b :: cs) =
      if a = '*' ∧ b = '/' then some (('/' :: '*' :: done).reverse, cs)
      else closeComment (a :: done) (b :: cs) := by
  split
  · next h =>
    obtain ⟨rfl, rfl⟩ := h
    rfl
  · next h =>
    rw [closeComment]
    rintro us rfl hus
    exact h ⟨rfl, (List.cons.inj hus).1⟩

theorem closeComment_singleton (done : Text) (a : Char) : closeComment done [a] = none := by
  rw [closeComment]
  · rfl
  · simp

/-- A closing mark has two characters. -/
theorem closeComment_length {done cs text rest : Text}
    (h : closeComment done cs = some (text, rest)) : rest.length + 2 ≤ cs.length := by
  fun_induction closeComment done cs with
  | case1 done cs =>
    obtain ⟨rfl, rfl⟩ := by simpa using h
    simp
  | case2 done c cs _ ih =>
    have := ih h
    rw [List.length_cons]
    omega
  | case3 => cases h

/-- Behind the closing mark of a block comment anything may follow. -/
theorem closeComment_append_right {done t : Text} (h : closeComment done v = some (t, u))
    (w : Text) : closeComment done (v ++ w) = some (t, u ++ w) := by
  induction v generalizing done with
  | nil => cases h
  | cons a v ih =>
    cases v with
    | nil =>
      rw [closeComment_singleton] at h
      cases h
    | cons b v =>
      rw [closeComment_cons_cons] at h
      rw [List.cons_append, List.cons_append, closeComment_cons_cons]
      split at h
      · next hm =>
        obtain ⟨rfl, rfl⟩ := Prod.mk.inj (Option.some.inj h)
        rw [if_pos hm]
      · next hm =>
        rw [if_neg hm]
        exact ih h

/-- A block comment that is closed before a text is closed without it. -/
theorem closeComment_of_append {done t : Text} {c : Char}
    (h : closeComment done (v ++ c :: y) = some (t, u ++ c :: y)) :
    closeComment done v = some (t, u) := by
  induction v generalizing done with
  | nil =>
    have hlen := closeComment_length h
    simp at hlen
    omega
  | cons a v ih =>
    cases v with
    | nil =>
      have hlen := closeComment_length h
      simp at hlen
      omega
    | cons b v =>
      rw [List.cons_append, List.cons_append, closeComment_cons_cons] at h
      rw [closeComment_cons_cons]
      split at h
      · next hm =>
        obtain ⟨rfl, hu⟩ := Prod.mk.inj (Option.some.inj h)
        rw [if_pos hm, List.append_cancel_right hu]
      · next hm =>
        rw [if_neg hm]
        exact ih h

theorem closeQuote_length (quote : Char) (done cs : Text) :
    (closeQuote quote done cs).2.2.length ≤ cs.length := by
  fun_induction closeQuote quote done cs with
  | case1 => exact Nat.le_refl _
  | case2 => exact Nat.le_refl _
  | case3 => simp
  | case4 _ _ _ _ ih => simp only [List.length_cons]; omega
  | case5 => simp
  | case6 _ _ _ _ _ _ ih => simp only [List.length_cons]; omega

theorem closeQuote_escape (quote : Char) (done cs : Text) {c : Char} (hc : c ≠ '\n') :
    closeQuote quote done ('\\' :: c :: cs) = closeQuote quote (c :: '\\' :: done) cs := by
  rw [closeQuote]
  exact hc

theorem closeQuote_plain (quote : Char) (done cs : Text) {c : Char} (hn : c ≠ '\n')
    (he : c ≠ '\\') :
    closeQuote quote done (c :: cs) =
      if c == quote then (true, (c :: done).reverse, cs)
      else closeQuote quote (c :: done) cs := by
  rw [closeQuote]
  · exact hn
  · exact fun _ h => absurd h he
  · exact fun _ _ h => absurd h he

/-- A literal does not go on behind a line end. -/
theorem closeQuote_newline (quote : Char) (done v y z : Text) :
    (closeQuote quote done (v ++ '\n' :: z)).1 = (closeQuote quote done (v ++ '\n' :: y)).1 ∧
    (closeQuote quote done (v ++ '\n' :: z)).2.1
      = (closeQuote quote done (v ++ '\n' :: y)).2.1 := by
  fun_induction closeQuote quote done v with
  | case1 => exact ⟨rfl, rfl⟩
  | case2 => exact ⟨rfl, rfl⟩
  | case3 => exact ⟨rfl, rfl⟩
  | case4 done c cs hc ih =>
    simp only [List.cons_append, closeQuote_escape quote done _ hc]
    exact ih
  | case5 done c cs hn _ hesc hquote =>
    by_cases he : c = '\\'
    · subst he
      cases cs with
      | nil => exact ⟨rfl, rfl⟩
      | cons d ds => exact (hesc d ds rfl rfl).elim
    · simp only [List.cons_append, closeQuote_plain quote done _ hn he, hquote]
      exact ⟨rfl, rfl⟩
  | case6 done c cs hn _ hesc hquote ih =>
    by_cases he : c = '\\'
    · subst he
      cases cs with
      | nil => exact ⟨rfl, rfl⟩
      | cons d ds => exact (hesc d ds rfl rfl).elim
    · simp only [List.cons_append, closeQuote_plain quote done _ hn he, hquote]
      exact ih

/-- A literal that ends before a character without a meaning in it ends there whatever follows that
character. -/
theorem closeQuote_local {quote d : Char} (hq : quote ≠ d) (hd : d ≠ '\\') {done : Text}
    (h : (closeQuote quote done (v ++ d :: y)).2.2 = u ++ d :: y) (z : Text) :
    (closeQuote quote done (v ++ d :: z)).1 = (closeQuote quote done (v ++ d :: y)).1 ∧
    (closeQuote quote done (v ++ d :: z)).2.1
      = (closeQuote quote done (v ++ d :: y)).2.1 := by
  by_cases hline : d = '\n'
  · subst hline
    exact closeQuote_newline quote done v y z
  -- a literal that takes the character leaves too little
  have hlong : ∀ done : Text, (closeQuote quote done y).2.2 ≠ u ++ d :: y := by
    intro done heq
    have hlen := closeQuote_length quote done y
    rw [heq] at hlen
    simp at hlen
    omega
  -- nor does a backslash stand in front of the character, which it would take along
  have hplain : ∀ {done : Text} {c : Char} {cs : Text},
      (∀ d ds, c = '\\' → cs = d :: ds → False) →
      (closeQuote quote done (c :: cs ++ d :: y)).2.2 = u ++ d :: y → c ≠ '\\' := by
    rintro done c cs hesc h rfl
    cases cs with
    | nil =>
      rw [List.singleton_append, closeQuote_escape quote done y hline] at h
      exact hlong _ h
    | cons d ds => exact hesc d ds rfl rfl
  fun_induction closeQuote quote done v with
  | case1 done =>
    rw [List.nil_append, closeQuote_plain quote done y hline hd,
      if_neg (by simpa using hq.symm)] at h
    exact absurd h (hlong _)
  | case2 => exact ⟨rfl, rfl⟩
  | case3 => exact ⟨rfl, rfl⟩
  | case4 done c cs hc ih =>
    simp only [List.cons_append, closeQuote_escape quote done _ hc] at h ⊢
    exact ih h
  | case5 done c cs hn _ hesc hquote =>
    have he := hplain hesc h
    simp only [List.cons_append, closeQuote_plain quote done _ hn he, hquote]
    exact ⟨rfl, rfl⟩
  | case6 done c cs hn _ hesc hquote ih =>
    have he := hplain hesc h
    simp only [List.cons_append, closeQuote_plain quote done _ hn he, hquote] at h ⊢
    exact ih h

theorem literal_eq (quote : Char) (kind : Kind) (unclosed : Flaw) (cs : Text) :
    literal quote kind unclosed cs =
      if (closeQuote quote [quote] cs).1 then
        (sound kind (closeQuote quote [quote] cs).2.1, (closeQuote quote [quote] cs).2.2)
      else
        (flawed unclosed (closeQuote quote [quote] cs).2.1, (closeQuote quote [quote] cs).2.2) := by
  unfold literal
  split <;> simp_all

theorem literal_rest (quote : Char) (kind : Kind) (unclosed : Flaw) (cs : Text) :
    (literal quote kind unclosed cs).2 = (closeQuote quote [quote] cs).2.2 := by
  rw [literal_eq]
  split <;> rfl

theorem literal_local {quote d : Char} {kind : Kind} {unclosed : Flaw} (hq : quote ≠ d)
    (hd : d ≠ '\\') (h : (literal quote kind unclosed (v ++ d :: y)).2 = u ++ d :: y)
    (z : Text) :
    (literal quote kind unclosed (v ++ d :: z)).1
      = (literal quote kind unclosed (v ++ d :: y)).1 := by
  rw [literal_rest] at h
  obtain ⟨hclosed, hsame⟩ := closeQuote_local hq hd h z
  rw [literal_eq, literal_eq, hclosed, hsame]
  split <;> rfl

/-- Whether a character may belong to a number. -/
def mayContinueNumber (c : Char) : Bool :=
  c.isAlphanum || c == '_' || c == '.' || c == '\'' || c == '+' || c == '-'

/-- A character that belongs to no number, and has no meaning in a literal. -/
structure Apart (d : Char) : Prop where
  number : mayContinueNumber d = false
  marks : d ∉ ['"', '\'', '\\']

theorem apart_slash : Apart '/' := ⟨by decide, by decide⟩

theorem apart_newline : Apart '\n' := ⟨by decide, by decide⟩

/-- A number does not depend on what comes from a character on that cannot belong to it. -/
theorem closeNumber_append_stop {d : Char} (hd : mayContinueNumber d = false)
    (done v y : Text) : (closeNumber done (v ++ d :: y)).1 = (closeNumber done v).1 := by
  simp only [mayContinueNumber, Bool.or_eq_false_iff] at hd
  obtain ⟨⟨⟨⟨⟨hletter, hline⟩, hpoint⟩, hquote⟩, hplus⟩, hminus⟩ := hd
  induction v generalizing done with
  | nil => simp [closeNumber, hletter, hline, hpoint, hquote, hplus, hminus]
  | cons c v ih =>
    have hsep : separates (v ++ d :: y) = separates v := by
      cases v with
      | nil => exact hletter
      | cons a v => rfl
    rw [List.cons_append, closeNumber, closeNumber, hsep]
    split
    · exact ih _
    · rfl

/-- What is read depends on which operators and delimiters a text starts with. -/
theorem read?_congr {t u : Text} (h : ∀ p ∈ Punct.longestFirst,
    p.spelling.isPrefixOf t = p.spelling.isPrefixOf u) : Punct.read? t = Punct.read? u := by
  unfold Punct.read?
  generalize Punct.longestFirst = ps at h
  induction ps with
  | nil => rfl
  | cons p ps ih =>
    rw [List.find?_cons, List.find?_cons, h p List.mem_cons_self,
      ih fun q hq => h q (List.mem_cons_of_mem p hq)]

/-- Operators and delimiters have two characters at most. -/
theorem read?_take (t : Text) : Punct.read? (t.take 2) = Punct.read? t := by
  have hlen : ∀ p ∈ Punct.longestFirst, p.spelling.length ≤ 2 := by decide
  refine read?_congr fun p hp => ?_
  rw [Bool.eq_iff_iff, List.isPrefixOf_iff_prefix, List.isPrefixOf_iff_prefix,
    List.prefix_take_iff]
  exact and_iff_left (hlen p hp)

theorem symbol_congr {c : Char} {cs ds : Text} (h : (c :: cs).take 2 = (c :: ds).take 2) :
    (symbol c cs).1 = (symbol c ds).1 := by
  unfold symbol
  rw [← read?_take (c :: cs), ← read?_take (c :: ds), h]
  cases Punct.read? ((c :: ds).take 2) <;> rfl

/-- **A lexeme that ends before a slash or a line end** is the same whatever follows that
character. -/
theorem next_local [Alphabet] {c d : Char} (hd : Apart d)
    (h : (next c (v ++ d :: y)).2 = u ++ d :: y)
    (z : Text) : next c (v ++ d :: z) = ((next c (v ++ d :: y)).1, u ++ d :: z) := by
  have hhead : (v ++ d :: z).head? = (v ++ d :: y).head? := by
    cases v <;> rfl
  have htake : (c :: (v ++ d :: z)).take 2 = (c :: (v ++ d :: y)).take 2 := by
    cases v <;> simp
  obtain ⟨hnumber, hmarks⟩ := hd
  simp only [List.mem_cons, List.not_mem_nil, or_false, not_or] at hmarks
  obtain ⟨hstring, hchar, hescape⟩ := hmarks
  -- it is enough that the lexeme is the same, since with the rest it makes up the text
  suffices hfst : (next c (v ++ d :: z)).1 = (next c (v ++ d :: y)).1 by
    have hy := next_append c (v ++ d :: y)
    have hz := next_append c (v ++ d :: z)
    rw [h, ← List.append_assoc] at hy
    have hcut : (next c (v ++ d :: y)).1.text ++ u = c :: v := List.append_cancel_right hy
    rw [hfst, ← List.cons_append, ← hcut, List.append_assoc] at hz
    exact Prod.ext hfst (List.append_cancel_left hz)
  revert h
  unfold next
  rw [hhead]
  split
  · exact fun _ => rfl
  split
  · intro h
    rw [takeWhile_local h z]
  split
  · intro h
    rw [takeWhile_local h z]
  split
  · next hc =>
    simp only [Bool.and_eq_true, beq_iff_eq] at hc
    intro h
    cases v with
    | nil =>
      -- the star would be the character that is left
      cases hm : closeComment ['*', '/'] y with
      | none => simp [hm] at h
      | some m =>
        obtain ⟨text, rest⟩ := m
        have hlen := closeComment_length hm
        simp only [List.nil_append, List.tail_cons, hm] at h
        rw [h] at hlen
        simp at hlen
        omega
    | cons a v =>
      simp only [List.cons_append, List.tail_cons] at h ⊢
      cases hm : closeComment ['*', '/'] (v ++ d :: y) with
      | none => simp [hm] at h
      | some m =>
        obtain ⟨text, rest⟩ := m
        rw [hm] at h
        obtain rfl : rest = u ++ d :: y := h
        rw [closeComment_append_right (closeComment_of_append hm) (d :: z)]
  split
  · next hc =>
    exact fun h => literal_local (by rw [eq_of_beq hc]; exact Ne.symm hstring) hescape h z
  split
  · next hc =>
    exact fun h => literal_local (by rw [eq_of_beq hc]; exact Ne.symm hchar) hescape h z
  split
  · intro _
    show sound .number (closeNumber [c] _).1 = sound .number (closeNumber [c] _).1
    rw [closeNumber_append_stop hnumber, closeNumber_append_stop hnumber]
  split
  · intro h
    rw [takeWhile_local h z]
  · exact fun _ => symbol_congr htake

/-! ## Cutting -/

/-- Some lexemes are cut off a text one after the other, and leave another text. -/
inductive Cuts [Alphabet] : Text → List Lexeme → Text → Prop
  | none (w : Text) : Cuts w [] w
  | next {c : Char} {cs w : Text} {xs : List Lexeme} (more : Cuts (next c cs).2 xs w) :
      Cuts (c :: cs) ((next c cs).1 :: xs) w

/-- The texts of some lexemes. -/
def textOf (xs : List Lexeme) : Text := xs.flatMap text

@[simp] theorem textOf_nil : textOf [] = [] := rfl

@[simp] theorem textOf_cons (x : Lexeme) (xs : List Lexeme) :
    textOf (x :: xs) = x.text ++ textOf xs := rfl

@[simp] theorem textOf_append (xs ys : List Lexeme) :
    textOf (xs ++ ys) = textOf xs ++ textOf ys := List.flatMap_append

namespace Cuts

variable {xs ys : List Lexeme}

/-- Nothing is lost in cutting. -/
theorem append_eq [Alphabet] (h : Cuts v xs w) : textOf xs ++ w = v := by
  induction h with
  | none => rfl
  | @next c cs w xs _ ih => rw [textOf_cons, List.append_assoc, ih, next_append]

theorem append [Alphabet] (h : Cuts u xs v) (h' : Cuts v ys w) : Cuts u (xs ++ ys) w := by
  induction h with
  | none => exact h'
  | next _ ih => exact .next (ih h')

theorem split [Alphabet] (h : Cuts u (xs ++ ys) w) : ∃ v, Cuts u xs v ∧ Cuts v ys w := by
  induction xs generalizing u with
  | nil => exact ⟨u, .none u, h⟩
  | cons x xs ih =>
    cases h with
    | next more =>
      obtain ⟨v, hx, hy⟩ := ih more
      exact ⟨v, .next hx, hy⟩

/-- A text is cut to its end in one way. -/
theorem unique [Alphabet] (h : Cuts v xs []) (h' : Cuts v ys []) : xs = ys := by
  generalize hw : ([] : Text) = w at h
  induction h generalizing ys with
  | none =>
    subst hw
    cases h'
    rfl
  | next _ ih =>
    cases h' with
    | next more => rw [ih more hw]

/-- What is cut off before a slash or a line end is the same whatever follows that character. -/
theorem change [Alphabet] {d : Char} (hd : Apart d) (h : Cuts v xs (d :: y)) (z : Text) :
    Cuts (textOf xs ++ d :: z) xs (d :: z) := by
  generalize hw : d :: y = w at h
  induction h with
  | none => exact .none _
  | @next c cs w xs more ih =>
    subst hw
    -- the lexeme and those after it are what stands in front of the character
    have hrest : (Lexeme.next c cs).2 = textOf xs ++ d :: y := more.append_eq.symm
    have happ := Lexeme.next_append c cs
    obtain ⟨a, t, ht⟩ := List.exists_cons_of_ne_nil (next_text_ne_nil c cs)
    rw [hrest, ht, List.cons_append] at happ
    obtain ⟨rfl, rfl⟩ := List.cons.inj happ
    rw [← List.append_assoc] at hrest ht ⊢
    have hlocal := next_local hd hrest z
    have hnext : Cuts (a :: (t ++ textOf xs ++ d :: z))
        ((Lexeme.next a (t ++ textOf xs ++ d :: z)).1 :: xs) (d :: z) :=
      .next (by rw [hlocal]; exact ih rfl)
    rw [hlocal] at hnext
    rw [textOf_cons, ht]
    exact hnext

end Cuts

theorem next_block [Alphabet] (cs : Text) :
    next '/' ('*' :: cs) =
      match closeComment ['*', '/'] cs with
      | some (text, rest) => (sound (blockCommentKind text) text, rest)
      | none => (flawed .unterminatedBlockComment ('/' :: '*' :: cs), []) := by
  simp only [next]
  rfl

/-- A text begins like a block comment. -/
def OpensBlock (t : Text) : Prop := "/*".toList <+: t

theorem OpensBlock.exists_eq {t : Text} (h : OpensBlock t) : ∃ cs, t = '/' :: '*' :: cs := by
  obtain ⟨cs, rfl⟩ := h
  exact ⟨cs, rfl⟩

/-- A text that begins like a block comment and is a comment by itself is one whatever
follows it. -/
theorem Cuts.block [Alphabet] {t : Text} {x : Lexeme} (ht : OpensBlock t) (h : Cuts t [x] [])
    (hx : x.kind.isComment = true) (w : Text) : Cuts (t ++ w) [x] w := by
  obtain ⟨cs, rfl⟩ := ht.exists_eq
  obtain ⟨hrest, rfl⟩ : (Lexeme.next '/' ('*' :: cs)).2 = [] ∧
      (Lexeme.next '/' ('*' :: cs)).1 = x := by
    cases h with
    | next more => exact ⟨by simpa using more.append_eq.symm, rfl⟩
  rw [next_block] at hrest hx
  cases hm : closeComment ['*', '/'] cs with
  | none =>
    rw [hm] at hx
    cases hx
  | some m =>
    obtain ⟨text, rest⟩ := m
    rw [hm] at hrest
    obtain rfl : rest = [] := hrest
    have happ : Lexeme.next '/' ('*' :: (cs ++ w)) = (sound (blockCommentKind text) text, w) := by
      rw [next_block, closeComment_append_right hm w]
      rfl
    have hnext : Cuts ('/' :: '*' :: (cs ++ w)) [(Lexeme.next '/' ('*' :: (cs ++ w))).1] w :=
      .next (by rw [happ]; exact .none w)
    rw [next_block, hm]
    rw [happ] at hnext
    exact hnext

/-- **A block comment can be replaced by another one** with the lexemes around it left as
they are. -/
theorem Cuts.replace [Alphabet] {source t : Text} {xs ys : List Lexeme} {x x' : Lexeme}
    (h : Cuts source (xs ++ x :: ys) []) (hx : OpensBlock x.text) (ht : OpensBlock t)
    (hcut : Cuts t [x'] []) (hx' : x'.kind.isComment = true) :
    Cuts (textOf xs ++ t ++ textOf ys) (xs ++ x' :: ys) [] := by
  obtain ⟨v, hxs, hv⟩ := h.split
  obtain ⟨w, hx₁, hys⟩ := (show Cuts v ([x] ++ ys) [] from hv).split
  obtain rfl : textOf ys = w := by simpa using hys.append_eq
  have hblock := Cuts.block ht hcut hx' (textOf ys)
  obtain ⟨cs, hcs⟩ := hx.exists_eq
  obtain ⟨ds, rfl⟩ := ht.exists_eq
  have hvs : v = '/' :: ('*' :: cs ++ textOf ys) := by
    rw [← hx₁.append_eq, textOf_cons, textOf_nil, hcs]
    simp
  rw [hvs] at hxs
  rw [List.append_assoc]
  exact (hxs.change apart_slash ('*' :: ds ++ textOf ys)).append (hblock.append hys)

/-- What is cut off is what comes first of some text. -/
theorem Cuts.mem [Alphabet] {xs : List Lexeme} {x : Lexeme} (h : Cuts v xs w) (hx : x ∈ xs) :
    ∃ c cs, x = (Lexeme.next c cs).1 := by
  induction h with
  | none => cases hx
  | next _ ih =>
    rcases List.mem_cons.mp hx with rfl | hx
    · exact ⟨_, _, rfl⟩
    · exact ih hx

theorem slashes_of_lineCommentKind {t : Text} (h : lineCommentKind t = .docComment) :
    "//".toList <+: t := by
  unfold lineCommentKind at h
  split at h
  · next hm =>
    simp only [Bool.or_eq_true, Bool.and_eq_true, List.isPrefixOf_iff_prefix] at hm
    rcases hm with ⟨hm, -⟩ | hm
    · exact List.IsPrefix.trans ⟨['/'], rfl⟩ hm
    · exact List.IsPrefix.trans ⟨['!'], rfl⟩ hm
  · cases h

theorem opensBlock_of_blockCommentKind {t : Text} (h : blockCommentKind t = .docComment) :
    OpensBlock t := by
  unfold blockCommentKind at h
  split at h
  · next hm =>
    simp only [Bool.or_eq_true, Bool.and_eq_true, List.isPrefixOf_iff_prefix] at hm
    rcases hm with ⟨hm, -⟩ | hm
    · exact List.IsPrefix.trans ⟨['*'], rfl⟩ hm
    · exact List.IsPrefix.trans ⟨['!'], rfl⟩ hm
  · cases h

/-- Documentation has no flaw, and its first characters show how it ends. -/
theorem next_docComment [Alphabet] (c : Char) (cs : Text) :
    (next c cs).1.kind = .docComment → (next c cs).1.flaw = none ∧
      ("//".toList <+: (next c cs).1.text ∨ OpensBlock (next c cs).1.text) := by
  have hliteral : ∀ quote kind unclosed, kind ≠ Kind.docComment →
      (literal quote kind unclosed cs).1.kind ≠ .docComment := by
    intro quote kind unclosed hk
    unfold literal
    split
    · exact hk
    · exact nofun
  have hword : ∀ t, wordKind t ≠ .docComment := by
    intro t
    unfold wordKind
    split <;> exact nofun
  unfold next
  split
  · exact nofun
  split
  · exact nofun
  split
  · exact fun h => ⟨rfl, .inl (slashes_of_lineCommentKind h)⟩
  split
  · split
    · exact fun h => ⟨rfl, .inr (opensBlock_of_blockCommentKind h)⟩
    · exact nofun
  split
  · exact fun h => (hliteral c .string _ nofun h).elim
  split
  · exact fun h => (hliteral c .char _ nofun h).elim
  split
  · exact nofun
  split
  · exact fun h => (hword _ h).elim
  · unfold symbol
    split <;> exact nofun

end Lexeme

namespace Token

/-- Lexemes put one after the other, the first one at a place. -/
def placed (p : Position) : List Lexeme → List Token
  | [] => []
  | x :: xs => ofLexeme x p :: placed (p.advance x.text) xs

@[simp] theorem length_placed (p : Position) (xs : List Lexeme) :
    (placed p xs).length = xs.length := by
  induction xs generalizing p with
  | nil => rfl
  | cons x xs ih => rw [placed, List.length_cons, List.length_cons, ih]

theorem placed_append (p : Position) (xs ys : List Lexeme) :
    placed p (xs ++ ys) = placed p xs ++ placed (p.advance (Lexeme.textOf xs)) ys := by
  induction xs generalizing p with
  | nil => rfl
  | cons x xs ih =>
    simp only [List.cons_append, placed, ih, Lexeme.textOf_cons, Position.advance_append]

/-- The lexemes of some tokens, of which each starts where the ones before it end. -/
theorem exists_of_placed_eq_append {p : Position} {xs : List Lexeme} {ts us : List Token}
    (h : placed p xs = ts ++ us) :
    ∃ ys zs, xs = ys ++ zs ∧ ts = placed p ys ∧ us = placed (p.advance (Lexeme.textOf ys)) zs := by
  induction ts generalizing p xs with
  | nil => exact ⟨[], xs, rfl, rfl, h.symm⟩
  | cons t ts ih =>
    cases xs with
    | nil => cases h
    | cons x xs =>
      obtain ⟨rfl, hrest⟩ := List.cons.inj h
      obtain ⟨ys, zs, rfl, rfl, rfl⟩ := ih hrest
      exact ⟨x :: ys, zs, rfl, rfl, by rw [Lexeme.textOf_cons, Position.advance_append]⟩

/-- Without mistakes, the tokens of a text are its lexemes put one after the other. -/
theorem scanFrom_eq_placed [Alphabet] {l : Limits} {n : Nat} {p : Position} {cs : Text}
    (h : (scanFrom l n p cs).any isError = false) :
    ∃ xs, Lexeme.Cuts cs xs [] ∧
      scanFrom l n p cs = placed p xs ++ [eof (p.advance cs)] := by
  induction n, p, cs using scan_induction l with
  | nil n p => exact ⟨[], .none [], scanFrom_nil⟩
  | halt n p c cs f hf =>
    rw [scanFrom_halt hf] at h
    simp [isError, halt] at h
  | cons n p c cs hn ih =>
    rw [scanFrom_cons hn, List.any_cons, Bool.or_eq_false_iff] at h
    obtain ⟨xs, hcuts, heq⟩ := ih h.2
    -- a lexeme that is no mistake was not flagged
    have hflag : l.flag (Lexeme.next c cs).1 = (Lexeme.next c cs).1 := by
      have hsound := h.1
      unfold first Limits.flag at hsound
      unfold Limits.flag
      split
      · next f hf =>
        rw [hf] at hsound
        cases hsound
      · rfl
    refine ⟨(Lexeme.next c cs).1 :: xs, .next hcuts, ?_⟩
    rw [scanFrom_cons hn, heq, first_stop, ← Position.advance_append, Lexeme.next_append,
      first, hflag]
    rfl

/-- **A text without mistakes has its lexemes for tokens**, and the end of the input. -/
theorem scan_eq_placed [Alphabet] {l : Limits} {source : Text}
    (h : (scan l source).any isError = false) :
    ∃ xs, Lexeme.Cuts source xs [] ∧
      scan l source = placed .origin xs ++ [eof (Position.origin.advance source)] := by
  rw [scan_eq] at h ⊢
  exact scanFrom_eq_placed h

end Token

/-! ## Limits -/

/-- Whether a flaw is that of going beyond a limit. -/
def Flaw.isLimit : Flaw → Bool
  | .excessiveWhitespace | .identifierTooLong | .numberTooLong | .literalTooLong
  | .commentTooLong | .tokenLimit | .iterationLimit | .positionLimit => true
  | _ => false

/-- A text stays within some limits: no token of it goes beyond one, nor does the text. -/
def Limits.Admits [Alphabet] (l : Limits) (source : Text) : Prop :=
  ∀ t ∈ Token.scan l source, ∀ f ∈ t.flaw, f.isLimit = false

theorem Flaw.isLimit_of_endsInput {f : Flaw} (h : f.endsInput = true) : f.isLimit = true := by
  cases f <;> first | rfl | cases h

theorem Limits.isLimit_of_excess? {l : Limits} {x : Lexeme} {f : Flaw}
    (h : l.excess? x = some f) : f.isLimit = true := by
  unfold excess? at h
  split at h
  all_goals first
    | (split at h <;> cases h <;> rfl)
    | cases h

namespace Token

variable {l : Limits} {n : Nat} {p : Position} {cs : Text} {xs : List Lexeme}

theorem any_isError_of_cuts [Alphabet] (h : Lexeme.Cuts cs xs [])
    (hs : xs.all (·.kind != .error) = true)
    (hl : ∀ t ∈ scanFrom l n p cs, ∀ f ∈ t.flaw, f.isLimit = false) :
    (scanFrom l n p cs).any isError = false := by
  induction n, p, cs using scan_induction l generalizing xs with
  | nil n p =>
    rw [scanFrom_nil]
    rfl
  | halt n p c cs f hf =>
    have hlimit := Flaw.isLimit_of_endsInput (Flaw.endsInput_of_halt? hf)
    have hno := hl (halt f p) (by rw [scanFrom_halt hf]; exact List.mem_cons_self) f rfl
    cases hlimit.symm.trans hno
  | cons n p c cs hn ih =>
    rw [scanFrom_cons hn] at hl ⊢
    cases h with
    | @next _ _ _ xs more =>
      rw [List.all_cons, Bool.and_eq_true, bne_iff_ne] at hs
      have hrest := ih more hs.2 fun t ht => hl t (List.mem_cons_of_mem _ ht)
      rw [List.any_cons, hrest, Bool.or_false]
      refine beq_false_of_ne ?_
      have hfirst := hl _ List.mem_cons_self
      unfold first Limits.flag at hfirst ⊢
      split
      · next f hf =>
        rw [hf] at hfirst
        cases (hfirst f rfl).symm.trans (Limits.isLimit_of_excess? hf)
      · exact hs.1

/-- **A text without mistakes that stays within the limits** has its lexemes, one behind the
other, for tokens. -/
theorem scan_of_cuts [Alphabet] {source : Text} (h : Lexeme.Cuts source xs [])
    (hs : xs.all (·.kind != .error) = true) (hl : l.Admits source) :
    (scan l source).any isError = false ∧ (scan l source).dropLast = placed .origin xs := by
  have hany : (scan l source).any isError = false := by
    rw [Limits.Admits, scan_eq] at hl
    rw [scan_eq]
    exact any_isError_of_cuts h hs hl
  obtain ⟨ys, hcuts, hscan⟩ := scan_eq_placed hany
  refine ⟨hany, ?_⟩
  rw [hscan, List.dropLast_concat, h.unique hcuts]

end Token
end HeaderOutline
