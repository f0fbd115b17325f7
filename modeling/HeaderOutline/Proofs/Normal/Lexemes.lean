import HeaderOutline.Proofs.LexicalGrammar
import HeaderOutline.Proofs.Respaced.Scan
import HeaderOutline.Proofs.Written.Heads

/-! # Lexemes that count

A lexeme counts for the value of a macro if it is neither white space nor a comment
(`Lexeme.Counts`).  It does not start or end in a blank, so that it can be written between spaces,
and some of them with one space between each two at most are cut into the same ones
(`Lexeme.Joined`).
-/
namespace HeaderOutline

/-- No blank continues an identifier. -/
theorem Text.continuesIdentifier_of_isBlank [Alphabet] {c : Char} (h : isBlank c = true) :
    continuesIdentifier c = false := by
  unfold continuesIdentifier
  split
  · next hascii =>
    -- of ASCII the tables of blanks and of letters are compared
    have hno := eq_false_of_isBlank (p := fun c => decide (c.toNat < 0x80) &&
      (c.isAlphanum || c == '_')) (by decide +kernel) h
    rwa [decide_eq_true hascii, Bool.true_and] at hno
  · exact Alphabet.continues_of_isBlank c h

theorem Kind.exists_keyword {k : Kind} (h : k.isKeyword = true) : ∃ r, k = .keyword r := by
  unfold isKeyword at h
  split at h
  · exact ⟨_, rfl⟩
  · cases h

namespace Lexeme

variable {w : Text} {x : Lexeme} {xs ys : List Lexeme} {c : Char} {cs : Text}

/-- A lexeme is neither a mistake nor left out of the value of a macro. -/
structure Counts (x : Lexeme) : Prop where
  sound : x.kind ≠ .error
  solid : x.kind.isTrivia = false
  plain : x.kind.isComment = false

/-- Characters of which something holds that holds of no blank end a text that is solid. -/
theorem endsSolid_of_forall {p : Char → Bool} (hp : ∀ c, Text.isBlank c = true → p c = false)
    (ht : x.kind.isTrivia = false) (hne : x.text ≠ []) (h : ∀ c ∈ x.text, p c = true) :
    EndsSolid [x] := by
  rcases List.eq_nil_or_concat x.text with hnil | ⟨init, last, heq⟩
  · exact absurd hnil hne
  · rw [List.concat_eq_append] at heq
    have hlast : p last = true := h last (by rw [heq]; simp)
    refine ⟨[], x, init, last, rfl, ht, heq, ?_⟩
    rw [← Bool.not_eq_true]
    intro hblank
    cases hlast.symm.trans (hp last hblank)

/-- A comment that runs to the end of its line, or to that of the text. -/
structure IsLine (w : Text) (x : Lexeme) : Prop where
  opens : "//".toList <+: x.text
  inside : '\n' ∉ x.text
  stops : w = x.text ∨ ∃ more, w = x.text ++ '\n' :: more
  shape : x = Lexeme.sound (lineCommentKind x.text) x.text

/-- Only white space, line ends and comments that run to the end of their line end in a blank. -/
theorem Form.endsSolid_or_isLine [Alphabet] (h : Form w x) (hs : x.kind ≠ .error)
    (ht : x.kind.isTrivia = false) : EndsSolid [x] ∨ IsLine w x := by
  have hquoted : ∀ {quote : Char} {t : Text} {k : Kind}, k.isTrivia = false →
      Text.isBlank quote = false → Text.Quoted quote t → EndsSolid [Lexeme.sound k t] := by
    rintro quote t k hk hq ⟨body, -, rfl⟩
    exact ⟨[], _, quote :: body, quote, rfl, hk, rfl, hq⟩
  cases h with
  | newline | whitespace => cases ht
  | line opens inside stops => exact .inr ⟨opens, inside, stops, rfl⟩
  | @block t shortest =>
    obtain ⟨body, htext⟩ := shortest.holds
    refine .inl ⟨[], _, "/*".toList ++ body ++ ['*'], '/', rfl, ?_, ?_, by decide⟩
    · have hc := blockCommentKind_isComment t
      show (blockCommentKind t).isTrivia = false
      cases hk : blockCommentKind t <;> rw [hk] at hc <;> first | rfl | cases hc
    · show t = _
      rw [htext]
      simp
  | unclosedBlock | unclosedString | unclosedChar | stray => exact absurd rfl hs
  | string _ quoted => exact .inl (hquoted rfl (by decide) quoted)
  | char _ quoted => exact .inl (hquoted rfl (by decide) quoted)
  | number _ opens inside =>
    obtain ⟨c, cs, rfl, -⟩ := opens
    have hnumber : Text.blanks.all (!mayContinueNumber ·) = true := by decide +kernel
    exact .inl (endsSolid_of_forall (fun _ => Text.eq_false_of_isBlank hnumber) rfl
      (List.cons_ne_nil c cs) inside)
  | word opens longest =>
    obtain ⟨c, cs, rfl, -⟩ := opens
    exact .inl (endsSolid_of_forall (fun _ => Text.continuesIdentifier_of_isBlank) ht
      (List.cons_ne_nil c cs) longest.holds)
  | @punct p =>
    have hp : Text.blanks.all (fun c => !Punct.all.any (·.spelling.contains c)) = true := by
      decide +kernel
    refine .inl (endsSolid_of_forall (fun _ => Text.eq_false_of_isBlank hp) rfl p.spelling_ne_nil
      fun c hc => ?_)
    exact List.any_eq_true.mpr ⟨p, p.mem_all, List.contains_iff_mem.mpr hc⟩

/-- White space is made of blanks of a line. -/
theorem Form.forall_isSpace [Alphabet] (h : Form w x) (hk : x.kind = .whitespace) :
    ∀ c ∈ x.text, isSpace c = true := by
  have hno : ∀ {k : Kind}, k.isComment = true → k ≠ .whitespace := by
    rintro _ hc rfl
    cases hc
  cases h with
  | whitespace _ longest => exact longest.holds
  | line => exact absurd hk (hno (lineCommentKind_isComment _))
  | block => exact absurd hk (hno (blockCommentKind_isComment _))
  | word _ _ kind =>
    rcases kind with rfl | kind
    · cases hk
    · obtain rfl : _ = Kind.whitespace := hk
      cases kind
  | newline | unclosedBlock | string | unclosedString | char | unclosedChar | number | punct
  | stray => cases hk

/-- A lexeme that counts does not end in a blank. -/
theorem Form.endsSolid [Alphabet] (h : Form w x) (hx : x.Counts) : EndsSolid [x] := by
  rcases h.endsSolid_or_isLine hx.sound hx.solid with hends | hline
  · exact hends
  · have hplain := hx.plain
    rw [hline.shape] at hplain
    cases hplain.symm.trans (lineCommentKind_isComment _)

theorem Form.eq_punct [Alphabet] {p : Punct} (h : Form w x) (hk : x.kind = .punct p) :
    x = Lexeme.punct p := by
  have hno : ∀ {k : Kind}, k.isComment = true → k ≠ .punct p := by
    rintro _ hc rfl
    cases hc
  cases h with
  | @punct q =>
    obtain rfl := Kind.punct.inj hk
    rfl
  | line => exact absurd hk (hno (lineCommentKind_isComment _))
  | block => exact absurd hk (hno (blockCommentKind_isComment _))
  | word _ _ kind =>
    rcases kind with rfl | kind
    · cases hk
    · obtain rfl : _ = Kind.punct p := hk
      cases kind
  | newline | whitespace | unclosedBlock | string | unclosedString | char | unclosedChar | number
  | stray => cases hk

/-- An identifier or a keyword is a word, and its text tells which of the two it is. -/
theorem Form.eq_word [Alphabet] (h : Form w x) (hk : x.kind = .ident ∨ x.kind.isKeyword = true) :
    x.text.IsWord ∧ x = sound (wordKind x.text) x.text := by
  have hno : ∀ {k : Kind}, k.isComment = true → ¬(k = .ident ∨ k.isKeyword = true) := by
    rintro _ hc (rfl | hk)
    · cases hc
    · obtain ⟨r, rfl⟩ := Kind.exists_keyword hk
      cases hc
  cases h with
  | @word t k opens longest kind reserved =>
    refine ⟨⟨opens, longest.holds⟩, ?_⟩
    have hwhole : k = wordKind t := by
      rcases kind with rfl | kind
      · rcases wordKind_cases t with ht | ht
        · exact ht.symm
        · obtain ⟨r, hr⟩ := Kind.exists_keyword ht
          cases (reserved r).mpr (wordKind_eq_keyword_iff.mp hr)
      · obtain ⟨r, rfl⟩ := Kind.exists_keyword kind
        exact (wordKind_eq_keyword_iff.mpr ((reserved r).mp rfl)).symm
    rw [hwhole]
    rfl
  | line => exact absurd hk (hno (lineCommentKind_isComment _))
  | block => exact absurd hk (hno (blockCommentKind_isComment _))
  | newline | whitespace | unclosedBlock | string | unclosedString | char | unclosedChar | number
  | punct | stray => rcases hk with hk | hk <;> cases hk

/-- What does not start white space starts with no blank of a line. -/
theorem not_isSpace_of_next [Alphabet] (h : (next c cs).1.kind ≠ .whitespace) :
    isSpace c = false := by
  rw [← Bool.not_eq_true]
  intro hc
  have hline : (c == '\n') = false := beq_false_of_ne fun hn => by
    rw [hn] at hc
    cases hc
  refine h ?_
  simp only [next, hline, hc, Bool.false_eq_true, if_false, if_true]
  rfl

theorem Counts.of_word (h : x.kind = .ident ∨ x.kind.isKeyword = true) : x.Counts := by
  rcases h with h | h
  · exact ⟨by rw [h]; nofun, by rw [h]; rfl, by rw [h]; rfl⟩
  · obtain ⟨k, h⟩ := Kind.exists_keyword h
    exact ⟨by rw [h]; nofun, by rw [h]; rfl, by rw [h]; rfl⟩

theorem Counts.not_whitespace (h : x.Counts) : x.kind ≠ .whitespace := by
  intro hk
  have hsolid := h.solid
  rw [hk] at hsolid
  cases hsolid

namespace Faithful

theorem append_left [Alphabet] (h : Faithful (xs ++ ys)) : Faithful xs := by
  obtain ⟨_, hxs, -⟩ := (show Cuts (textOf (xs ++ ys)) (xs ++ ys) [] from h).split
  exact hxs.faithful

theorem append_right [Alphabet] (h : Faithful (xs ++ ys)) : Faithful ys := by
  obtain ⟨_, -, hys⟩ := (show Cuts (textOf (xs ++ ys)) (xs ++ ys) [] from h).split
  exact hys.faithful

theorem tail [Alphabet] (h : Faithful (x :: xs)) : Faithful xs :=
  append_right (show Faithful ([x] ++ xs) from h)

theorem eq_punct [Alphabet] (h : Faithful xs) (hx : x ∈ xs) {p : Punct} (hk : x.kind = .punct p) :
    x = Lexeme.punct p := by
  obtain ⟨c, cs, hnext⟩ := h.mem hx
  have hform := form_next c cs
  rw [← hnext] at hform
  exact hform.eq_punct hk

/-- The first of some faithful lexemes is cut off the text of all. -/
theorem cuts_head [Alphabet] (h : Faithful (x :: xs)) : Cuts (textOf (x :: xs)) [x]
    (textOf xs) := by
  obtain ⟨u, hone, hrest⟩ := (show Cuts (textOf (x :: xs)) ([x] ++ xs) [] from h).split
  have heq := hrest.append_eq
  rw [List.append_nil] at heq
  exact heq ▸ hone

theorem textOf_ne_nil [Alphabet] (h : Faithful xs) (hne : xs ≠ []) : textOf xs ≠ [] := by
  unfold Faithful at h
  intro hnil
  rw [hnil] at h
  cases h
  exact hne rfl

theorem stops_isSpace [Alphabet] (h : Faithful (x :: xs)) (hx : x.kind ≠ .whitespace) :
    Stops isSpace (textOf (x :: xs)) := by
  unfold Faithful at h
  generalize textOf (x :: xs) = t at h
  cases h with
  | next more => exact .cons (not_isSpace_of_next hx)

end Faithful

/-- One space in front of something that starts with no blank is a lexeme of its own. -/
theorem next_blank [Alphabet] (h : Stops isSpace w) : next ' ' w = (blanks 1, w) := by
  simp only [next, show (' ' == '\n') = false from rfl, show isSpace ' ' = true from rfl,
    Bool.false_eq_true, if_false, if_true, h.takeWhile, h.dropWhile]
  rfl

/-- Lexemes that count, of which any two that follow each other may have one space between them. -/
inductive Joined : List Lexeme → Prop
  | nil : Joined []
  | next {xs : List Lexeme} {x : Lexeme} (h : Joined xs) (hx : x.Counts) : Joined (xs ++ [x])
  | behind {xs : List Lexeme} {x : Lexeme} (h : Joined xs) (hne : xs ≠ []) (hx : x.Counts) :
    Joined (xs ++ [blanks 1, x])

namespace Joined

theorem kinds (h : Joined xs) : ∀ x ∈ xs, x.kind = .whitespace ∨ x.Counts := by
  induction h with
  | nil => exact nofun
  | next _ hx ih =>
    intro y hy
    rcases List.mem_append.mp hy with hy | hy
    · exact ih y hy
    · exact .inr (List.mem_singleton.mp hy ▸ hx)
  | behind _ _ hx ih =>
    intro y hy
    simp only [List.mem_append, List.mem_cons, List.not_mem_nil, or_false] at hy
    rcases hy with hy | rfl | rfl
    · exact ih y hy
    · exact .inl rfl
    · exact .inr hx

/-- None of them is a mistake, a comment or a line end. -/
theorem plain (h : Joined xs) : ∀ x ∈ xs, x.kind ≠ .error ∧ x.kind.isComment = false := by
  intro x hx
  rcases h.kinds x hx with hk | hk
  · rw [hk]
    exact ⟨nofun, rfl⟩
  · exact ⟨hk.sound, hk.plain⟩

theorem not_newline (h : Joined xs) : ∀ x ∈ xs, x.kind ≠ .newline := by
  intro x hx hn
  rcases h.kinds x hx with hk | hk
  · cases hk.symm.trans hn
  · have hsolid := hk.solid
    rw [hn] at hsolid
    cases hsolid

theorem getLast_counts (h : Joined xs) : ∀ x ∈ xs.getLast?, x.Counts := by
  cases h with
  | nil => exact nofun
  | next _ hx =>
    intro y hy
    rw [List.getLast?_concat] at hy
    exact Option.some.inj hy ▸ hx
  | @behind xs x _ _ hx =>
    intro y hy
    rw [show xs ++ [blanks 1, x] = (xs ++ [blanks 1]) ++ [x] by simp, List.getLast?_concat] at hy
    exact Option.some.inj hy ▸ hx

/-- The first one counts. -/
theorem head_counts (h : Joined xs) : ∀ x ∈ xs.head?, x.Counts := by
  induction h with
  | nil => exact nofun
  | @next xs x _ hx ih =>
    cases xs with
    | nil =>
      intro y hy
      exact Option.some.inj hy ▸ hx
    | cons a xs => exact ih
  | @behind xs x _ hne _ ih =>
    cases xs with
    | nil => exact absurd rfl hne
    | cons a xs => exact ih

theorem stops_isSpace [Alphabet] (h : Joined xs) (hf : Faithful xs) : Stops isSpace
    (textOf xs) := by
  cases xs with
  | nil => exact .nil
  | cons x xs => exact Faithful.stops_isSpace hf (h.head_counts x rfl).not_whitespace

/-- They are cut in front of a space as they are by themselves. -/
theorem cuts_blank [Alphabet] (h : Joined xs) (hf : Faithful xs) (w : Text) :
    Cuts (textOf xs ++ ' ' :: w) xs (' ' :: w) := by
  have hends : Ends ' ' := (IsBlank.ends (.inl rfl))
  refine hf.cuts_ends hends h.plain (.inr fun x hx hk => ?_) w
  have hsolid := (h.getLast_counts x hx).solid
  rw [hk] at hsolid
  cases hsolid

/-- The text of such lexemes does not end in a blank. -/
theorem endsSolid [Alphabet] (h : Joined xs) (hne : xs ≠ []) (hf : Faithful xs) : EndsSolid xs := by
  obtain ⟨init, last, rfl⟩ : ∃ init last, xs = init ++ [last] :=
    ⟨_, _, (List.dropLast_append_getLast hne).symm⟩
  obtain ⟨c, cs, hlast⟩ := hf.mem (x := last) (by simp)
  have hform := form_next c cs
  rw [← hlast] at hform
  exact (hform.endsSolid (h.getLast_counts last (by simp))).append init

end Joined

end Lexeme
end HeaderOutline
