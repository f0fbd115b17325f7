import HeaderOutline.Proofs.Faithful
import HeaderOutline.Proofs.Limits
import HeaderOutline.Proofs.Revision.Scan
import HeaderOutline.Text.Unicode

/-! # Lexing is local

What is cut off in front of a text is also cut off where the text in front ends, and no lexeme is
a different one because of that: each lexeme has looked ahead only as far as to see that it is
over (`Lexeme.next_front`).  So every stretch of the lexemes of a text is cut from its own
text (`Lexeme.Cuts.faithful`), and the tokens from one to another are those of the text between
them, moved back to its start (`Token.scan_between`).
-/
namespace HeaderOutline

namespace Lexeme

variable {u v w y : Text} {c d : Char}

/-! ## One lexeme -/

/-- Characters of a class that end before a text end there without it. -/
theorem takeWhile_front {p : Char → Bool} (h : (v ++ w).dropWhile p = u ++ w) :
    v.takeWhile p = (v ++ w).takeWhile p := by
  have hsplit := List.takeWhile_append_dropWhile (p := p) (l := v ++ w)
  rw [h, ← List.append_assoc] at hsplit
  have hv : (v ++ w).takeWhile p ++ u = v := List.append_cancel_right hsplit
  have hu : u.takeWhile p = [] := by
    cases u with
    | nil => rfl
    | cons a u =>
      have hhead := List.head?_dropWhile_not p (v ++ w)
      rw [h, List.cons_append, List.head?_cons] at hhead
      exact List.takeWhile_cons_of_neg (by simpa using hhead)
  conv => lhs; rw [← hv]
  rw [List.takeWhile_append_of_pos fun c hc => List.all_eq_true.mp List.all_takeWhile c hc, hu,
    List.append_nil]

/-- A literal takes every character but a line end. -/
theorem closeQuote_length_le (quote : Char) (done cs : Text) (hc : c ≠ '\n') :
    (closeQuote quote done (c :: cs)).2.2.length ≤ cs.length := by
  rw [closeQuote.eq_def]
  split
  · exact Nat.zero_le _
  · next heq => exact absurd (List.cons.inj heq).1 hc
  · next heq =>
    obtain ⟨-, rfl⟩ := List.cons.inj heq
    exact Nat.le_refl _
  · next heq =>
    obtain ⟨-, rfl⟩ := List.cons.inj heq
    exact Nat.le_succ_of_le (closeQuote_length ..)
  · next heq =>
    obtain ⟨-, rfl⟩ := List.cons.inj heq
    split
    · exact Nat.le_refl _
    · exact closeQuote_length ..

/-- A literal that ends before a text ends there without it, and is closed or not as before. -/
theorem closeQuote_front {quote : Char} (hq : quote ≠ '\\') {done : Text}
    (h : (closeQuote quote done (v ++ d :: y)).2.2 = u ++ d :: y) :
    (closeQuote quote done v).1 = (closeQuote quote done (v ++ d :: y)).1 ∧
      (closeQuote quote done v).2.1 = (closeQuote quote done (v ++ d :: y)).2.1 := by
  fun_induction closeQuote quote done v with
  | case1 done =>
    -- only a line end is not taken
    by_cases hn : d = '\n'
    · subst hn
      exact ⟨rfl, rfl⟩
    · have hlen := closeQuote_length_le quote done y hn
      rw [List.nil_append] at h
      rw [h] at hlen
      simp at hlen
      omega
  | case2 => exact ⟨rfl, rfl⟩
  | case3 => exact ⟨rfl, rfl⟩
  | case4 done c cs hc ih =>
    simp only [List.cons_append, closeQuote_escape quote done _ hc] at h ⊢
    exact ih h
  | case5 done c cs hn _ _ hquote =>
    have he : c ≠ '\\' := by
      rw [eq_of_beq hquote]
      exact hq
    simp only [List.cons_append, closeQuote_plain quote done _ hn he, hquote]
    exact ⟨rfl, rfl⟩
  | case6 done c cs hn _ hesc hquote ih =>
    by_cases he : c = '\\'
    · subst he
      cases cs with
      | cons d ds => exact (hesc d ds rfl rfl).elim
      | nil =>
        -- a backslash takes the first character of the text along, unless that is a line end
        by_cases hd : d = '\n'
        · subst hd
          exact ⟨rfl, rfl⟩
        · have hlen := closeQuote_length quote (d :: '\\' :: done) y
          rw [List.singleton_append, closeQuote_escape quote done y hd] at h
          rw [h] at hlen
          simp at hlen
          omega
    · simp only [List.cons_append, closeQuote_plain quote done _ hn he, hquote] at h ⊢
      exact ih h

theorem literal_front {quote : Char} {kind : Kind} {unclosed : Flaw} (hq : quote ≠ '\\')
    (h : (literal quote kind unclosed (v ++ d :: y)).2 = u ++ d :: y) :
    (literal quote kind unclosed v).1 = (literal quote kind unclosed (v ++ d :: y)).1 := by
  rw [literal_rest] at h
  obtain ⟨hclosed, hsame⟩ := closeQuote_front hq h
  rw [literal_eq, literal_eq, hclosed, hsame]
  split <;> rfl

theorem closeNumber_length (done cs : Text) : (closeNumber done cs).2.length ≤ cs.length := by
  fun_induction closeNumber done cs with
  | case1 => exact Nat.le_refl _
  | case2 _ _ _ _ ih => exact Nat.le_succ_of_le ih
  | case3 => exact Nat.le_refl _

/-- A number that ends before a text ends there without it. -/
theorem closeNumber_front {done : Text}
    (h : (closeNumber done (v ++ d :: y)).2 = u ++ d :: y) :
    (closeNumber done v).1 = (closeNumber done (v ++ d :: y)).1 := by
  -- a number that takes the first character of the text leaves too little
  have hlong : ∀ done : Text, (closeNumber done y).2 ≠ u ++ d :: y := by
    intro done heq
    have hlen := closeNumber_length done y
    rw [heq] at hlen
    simp at hlen
    omega
  induction v generalizing done with
  | nil =>
    simp only [List.nil_append, closeNumber] at h ⊢
    split at h
    · exact absurd h (hlong _)
    · next hd => rw [if_neg hd]
  | cons c v ih =>
    have hsep : c = '\'' → separates (v ++ d :: y) = separates v := by
      rintro rfl
      cases v with
      | cons a v => rfl
      | nil =>
        cases hd : d.isAlphanum with
        | false => exact hd
        | true =>
          -- a quote mark before a letter or digit, which the number would take along
          simp only [List.singleton_append, closeNumber, separates, hd] at h
          simp at h
          exact absurd h (hlong _)
    have hcond : (c == '\'' && separates (v ++ d :: y)) = (c == '\'' && separates v) := by
      by_cases hc : c = '\''
      · rw [hsep hc]
      · rw [beq_false_of_ne hc]
        rfl
    simp only [List.cons_append, closeNumber, hcond] at h ⊢
    split at h
    · next hc =>
      rw [if_pos hc, if_pos hc]
      exact ih h
    · next hc => rw [if_neg hc, if_neg hc]

/-- What is read at the start of a text is read without what follows it. -/
theorem read?_front {t : Text} (h : ∀ p, Punct.read? (t ++ w) = some p → p.spelling <+: t) :
    Punct.read? t = Punct.read? (t ++ w) := by
  unfold Punct.read? at h ⊢
  generalize Punct.longestFirst = ps at h
  induction ps with
  | nil => rfl
  | cons p ps ih =>
    simp only [List.find?_cons] at h ⊢
    cases hp : p.spelling.isPrefixOf (t ++ w) with
    | true =>
      rw [hp] at h
      have hfront := List.isPrefixOf_iff_prefix.mpr (h p rfl)
      rw [hfront]
    | false =>
      have hfront : p.spelling.isPrefixOf t = false := by
        rw [← Bool.not_eq_true, List.isPrefixOf_iff_prefix] at hp ⊢
        exact fun hno => hp (hno.trans (List.prefix_append t w))
      rw [hp] at h
      rw [hfront]
      exact ih h

theorem symbol_front (h : (symbol c (v ++ w)).2 = u ++ w) :
    (symbol c v).1 = (symbol c (v ++ w)).1 := by
  have hread : Punct.read? (c :: v) = Punct.read? (c :: v ++ w) := by
    refine read?_front fun p hp => ?_
    have happ := symbol_append c (v ++ w)
    have hpre := Punct.spelling_prefix_of_read? hp
    unfold symbol at h happ
    rw [← List.cons_append, hp] at h happ
    have hv : p.spelling ++ u = c :: v := by
      simp only [sound] at h happ
      rw [h, ← List.append_assoc] at happ
      exact List.append_cancel_right happ
    exact ⟨u, hv⟩
  unfold symbol
  rw [hread, List.cons_append]
  cases Punct.read? (c :: (v ++ w)) <;> rfl

/-- A comment takes both characters of the mark that opens it. -/
theorem next_comment_length [Alphabet] {a : Char} (ha : a ∈ ['/', '*']) (cs : Text) :
    (next '/' (a :: cs)).2.length ≤ cs.length := by
  simp only [List.mem_cons, List.not_mem_nil, or_false] at ha
  rcases ha with rfl | rfl
  · exact (List.dropWhile_suffix (· != '\n') (l := cs)).length_le
  · rw [next_block]
    split
    · next hm => exact Nat.le_trans (Nat.le_add_right _ 2) (closeComment_length hm)
    · exact Nat.zero_le _

/-- **A lexeme that ends before a text** ends there without it and is the same. -/
theorem next_front [Alphabet] (h : (next c (v ++ w)).2 = u ++ w) :
    next c v = ((next c (v ++ w)).1, u) := by
  cases w with
  | nil =>
    rw [List.append_nil, List.append_nil] at *
    exact Prod.ext rfl h
  | cons d y =>
    -- it is enough that the lexeme is the same, since with the rest it makes up the text
    suffices hfst : (next c v).1 = (next c (v ++ d :: y)).1 by
      have hv := next_append c v
      have hw := next_append c (v ++ d :: y)
      rw [h, ← List.append_assoc, ← List.cons_append] at hw
      have hcut : (next c (v ++ d :: y)).1.text ++ u = c :: v := List.append_cancel_right hw
      rw [hfst, ← hcut] at hv
      exact Prod.ext hfst (List.append_cancel_left hv)
    have hslash : ∀ a ∈ ['/', '*'],
        (c == '/' && v.head? == some a) = (c == '/' && (v ++ d :: y).head? == some a) := by
      intro a ha
      cases v with
      | cons b v => rfl
      | nil =>
        by_cases hd : c = '/' ∧ d = a
        · obtain ⟨rfl, rfl⟩ := hd
          have hlen := next_comment_length ha y
          rw [List.nil_append] at h
          rw [h] at hlen
          simp at hlen
          omega
        · have hno : ¬(c == '/' && ([] ++ d :: y).head? == some a) = true := by simpa using hd
          rw [Bool.not_eq_true] at hno
          rw [hno]
          cases c == '/' <;> rfl
    revert h
    unfold next
    rw [hslash '/' (by decide), hslash '*' (by decide)]
    split
    · exact fun _ => rfl
    split
    · intro h
      rw [takeWhile_front h]
    split
    · intro h
      rw [takeWhile_front h]
    split
    · next hc =>
      intro h
      obtain ⟨a, v, rfl⟩ : ∃ a v', v = a :: v' := by
        cases v with
        | cons a v => exact ⟨a, v, rfl⟩
        | nil =>
          have hno := hslash '*' (by decide)
          rw [hc] at hno
          simp at hno
      simp only [List.cons_append, List.tail_cons] at h ⊢
      cases hm : closeComment ['*', '/'] (v ++ d :: y) with
      | none => simp [hm] at h
      | some m =>
        obtain ⟨text, rest⟩ := m
        rw [hm] at h
        obtain rfl : rest = u ++ d :: y := h
        rw [closeComment_of_append hm]
    split
    · next hc => exact fun h => literal_front (by rw [eq_of_beq hc]; decide) h
    split
    · next hc => exact fun h => literal_front (by rw [eq_of_beq hc]; decide) h
    split
    · intro h
      show sound .number (closeNumber [c] _).1 = sound .number (closeNumber [c] _).1
      rw [closeNumber_front h]
    split
    · intro h
      rw [takeWhile_front h]
    · exact fun h => symbol_front h

/-! ## Stretches of lexemes -/

variable {xs ys zs : List Lexeme}

/-- **What is cut off a text** is cut from its own text too. -/
theorem Cuts.faithful [Alphabet] (h : Cuts v xs w) : Faithful xs := by
  unfold Faithful
  induction h with
  | none => exact .none []
  | @next c cs w xs more ih =>
    -- the lexeme and those after it are what stands in front of the text that is left
    have hrest : (Lexeme.next c cs).2 = textOf xs ++ w := more.append_eq.symm
    have happ := Lexeme.next_append c cs
    obtain ⟨a, t, ht⟩ := List.exists_cons_of_ne_nil (next_text_ne_nil c cs)
    rw [hrest, ht, List.cons_append] at happ
    obtain ⟨rfl, rfl⟩ := List.cons.inj happ
    rw [← List.append_assoc] at hrest ht ⊢
    have hfront := next_front hrest
    have hcut : Cuts (a :: (t ++ textOf xs)) ((Lexeme.next a (t ++ textOf xs)).1 :: xs) [] :=
      .next (by rw [hfront]; exact ih)
    rw [hfront] at hcut
    rw [textOf_cons, ht]
    exact hcut

/-- Every stretch of the lexemes of a text is cut from its own text. -/
theorem Cuts.faithful_between [Alphabet] (h : Cuts v (xs ++ ys ++ zs) w) : Faithful ys := by
  obtain ⟨_, hfront, -⟩ := h.split
  obtain ⟨_, -, hys⟩ := hfront.split
  exact hys.faithful

end Lexeme

/-! ## Limits -/

namespace Limits

variable {l : Limits} {n : Nat} {stop : Position} {ts us : List Token}

/-- Whether a token is too long does not hang on where it stands. -/
theorem Exceeded.move {t u : Token} {f : Flaw} (h : l.Exceeded t f) (hk : u.kind = t.kind)
    (ht : u.text = t.text) : l.Exceeded u f := by
  cases h with
  | whitespace kind long => exact .whitespace (hk ▸ kind) (ht ▸ long)
  | comment kind long => exact .comment (hk ▸ kind) (ht ▸ long)
  | literal kind long => exact .literal (hk ▸ kind) (ht ▸ long)
  | number kind long => exact .number (hk ▸ kind) (ht ▸ long)
  | word kind long => exact .word (hk ▸ kind) (ht ▸ long)

/-- Where tokens end before one, some tokens end before a later one too. -/
theorem Ends.later {t u : Token} {m k : Nat} {f : Flaw} (h : l.Ends m t f) (hk : m ≤ k)
    (ht : t.start.offset ≤ u.start.offset) : ∃ g, l.Ends k u g := by
  cases hhalt : l.halt? k u.start with
  | some g => exact ⟨g, halt?_eq_some_iff.mp hhalt⟩
  | none =>
    unfold halt? at hhalt
    split at hhalt
    · cases hhalt
    split at hhalt
    · cases hhalt
    split at hhalt
    · cases hhalt
    cases h <;> omega

end Limits

/-! ## Stretches of tokens -/

namespace Token

variable {l : Limits} {source : Text}

/-- The tokens of a text that stays within the limits are its lexemes. -/
theorem exists_cuts_of_admits [Alphabet] (h : l.Admits source) :
    ∃ xs, Lexeme.Cuts source xs [] ∧
      scan l source = placed .origin xs ++ [eof (Position.origin.advance source)] := by
  obtain ⟨xs, hcuts⟩ := Lexeme.exists_cuts source
  exact ⟨xs, hcuts, (l.leaves_scan hcuts).eq_of_isLimit h⟩

end Token
end HeaderOutline
