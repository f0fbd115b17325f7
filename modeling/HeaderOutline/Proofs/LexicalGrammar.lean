import HeaderOutline.Proofs.Locality
import HeaderOutline.Text.Unicode

/-! # The lexical grammar

The loops that close a literal or a comment and the order in which the kinds of lexeme are tried
are not needed to say what a lexeme is.  `Lexeme.Form` says it by what the text at its start is
like: a literal and a block comment are the first that is closed, a line comment goes on to the
end of its line, and a word and an operator are the longest that fit.  What is cut off first has
the form of its kind (`Lexeme.form_next`), and so has every token of a text where it starts
(`Token.scan_forms`).
-/
namespace HeaderOutline

namespace Text

/-- What may stand between the quotes of a literal: characters other than the quote, a backslash
and a line end, and pairs of a backslash and any character but a line end. -/
inductive QuotedBody (quote : Char) : Text → Prop
  | nil : QuotedBody quote []
  | plain {c : Char} {cs : Text} (apart : c ≠ quote) (unescaped : c ≠ '\\') (line : c ≠ '\n')
      (more : QuotedBody quote cs) : QuotedBody quote (c :: cs)
  | escaped {c : Char} {cs : Text} (line : c ≠ '\n') (more : QuotedBody quote cs) :
      QuotedBody quote ('\\' :: c :: cs)

/-- A literal with both its quotes. -/
def Quoted (quote : Char) (t : Text) : Prop :=
  ∃ body, QuotedBody quote body ∧ t = quote :: (body ++ [quote])

/-- A comment with both its marks, which do not overlap. -/
def BlockCommented (t : Text) : Prop := ∃ body, t = "/*".toList ++ body ++ "*/".toList

/-- The shortest one of some kind that a text starts with. -/
structure IsShortest (P : Text → Prop) (w t : Text) : Prop where
  holds : P t
  starts : t <+: w
  least : ∀ u, P u → u <+: w → t.length ≤ u.length

/-- The longest one of some kind that a text starts with. -/
structure IsLongest (P : Text → Prop) (w t : Text) : Prop where
  holds : P t
  starts : t <+: w
  most : ∀ u, P u → u <+: w → u.length ≤ t.length

theorem isLongest_takeWhile (p : Char → Bool) (w : Text) :
    IsLongest (fun t => ∀ c ∈ t, p c = true) w (w.takeWhile p) where
  holds := fun c hc => List.all_eq_true.mp List.all_takeWhile c hc
  starts := List.takeWhile_prefix p
  most := by
    rintro u hu ⟨more, rfl⟩
    rw [List.takeWhile_append_of_pos hu, List.length_append]
    exact Nat.le_add_right _ _

end Text

namespace Lexeme

open Text

/-- What a lexeme is at the start of a text. -/
inductive Form [Alphabet] (w : Text) : Lexeme → Prop
  /-- A line end. -/
  | newline (starts : ['\n'] <+: w) : Form w (sound .newline ['\n'])
  /-- All white space up to something else. -/
  | whitespace {t : Text} (inside : t ≠ []) (longest : IsLongest (∀ c ∈ ·, isSpace c = true) w t) :
      Form w (sound .whitespace t)
  /-- A comment up to the line end or the end of the text. -/
  | line {t : Text} (opens : "//".toList <+: t) (inside : '\n' ∉ t)
      (stops : w = t ∨ ∃ more, w = t ++ '\n' :: more) : Form w (sound (lineCommentKind t) t)
  /-- A comment up to the first mark that closes it. -/
  | block {t : Text} (shortest : IsShortest BlockCommented w t) :
    Form w (sound (blockCommentKind t) t)
  /-- A comment that no mark closes. -/
  | unclosedBlock (opens : "/*".toList <+: w) (never : ∀ u, u <+: w → ¬BlockCommented u) :
      Form w (flawed .unterminatedBlockComment w)
  | string {t : Text} (starts : t <+: w) (quoted : Quoted '"' t) : Form w (sound .string t)
  | unclosedString {t : Text} (starts : t <+: w) (opens : ['"'] <+: t)
      (never : ∀ u, u <+: w → ¬Quoted '"' u) : Form w (flawed .unterminatedString t)
  | char {t : Text} (starts : t <+: w) (quoted : Quoted '\'' t) : Form w (sound .char t)
  | unclosedChar {t : Text} (starts : t <+: w) (opens : ['\''] <+: t)
      (never : ∀ u, u <+: w → ¬Quoted '\'' u) : Form w (flawed .unterminatedChar t)
  | number {t : Text} (starts : t <+: w) (opens : ∃ c cs, t = c :: cs ∧ c.isDigit = true)
      (inside : ∀ c ∈ t, mayContinueNumber c = true) : Form w (sound .number t)
  /-- All characters of an identifier; the reserved words are keywords. -/
  | word {t : Text} {k : Kind} (opens : ∃ c cs, t = c :: cs ∧ opensIdentifier c = true)
      (longest : IsLongest (∀ c ∈ ·, continuesIdentifier c = true) w t)
      (kind : k = .ident ∨ k.isKeyword = true) (reserved : ∀ r, k = .keyword r ↔ t = r.spelling) :
      Form w (sound k t)
  /-- The longest operator or delimiter. -/
  | punct {p : Punct} (longest : IsLongest (∃ q : Punct, · = q.spelling) w p.spelling) :
      Form w (sound (.punct p) p.spelling)
  /-- A character that opens nothing. -/
  | stray {c : Char} (starts : [c] <+: w) (never : ∀ p : Punct, ¬p.spelling <+: w) :
      Form w (flawed .unexpectedCharacter [c])

variable {c : Char} {cs done t rest : Text} {quote : Char}

/-! ## Literals -/

/-- A literal that is closed has the form of one. -/
theorem closeQuote_closed (h : (closeQuote quote done cs).1 = true) :
    ∃ body, QuotedBody quote body ∧
      (closeQuote quote done cs).2.1 = done.reverse ++ (body ++ [quote]) := by
  fun_induction closeQuote quote done cs with
  | case1 | case2 | case3 => cases h
  | case4 done c cs hc ih =>
    obtain ⟨body, hbody, htext⟩ := ih h
    exact ⟨'\\' :: c :: body, .escaped hc hbody, by simp [htext]⟩
  | case5 done c cs hn _ _ hquote =>
    rw [eq_of_beq hquote]
    exact ⟨[], .nil, by simp⟩
  | case6 done c cs hn _ hesc hquote ih =>
    have he : c ≠ '\\' := by
      rintro rfl
      cases cs with
      | nil => cases h
      | cons d ds => exact hesc d ds rfl rfl
    obtain ⟨body, hbody, htext⟩ := ih h
    exact ⟨c :: body, .plain (by simpa using hquote) he hn hbody, by simp [htext]⟩

/-- A literal is closed where a text of its form stands. -/
theorem closeQuote_of_body {body : Text} (hq : quote ≠ '\\') (hn : quote ≠ '\n')
    (hb : QuotedBody quote body) (h : body ++ [quote] <+: cs) :
    (closeQuote quote done cs).1 = true := by
  obtain ⟨more, rfl⟩ := h
  induction hb generalizing done with
  | nil =>
    rw [List.nil_append, List.singleton_append, closeQuote_plain quote done more hn hq]
    simp
  | plain apart unescaped line _ ih =>
    rw [List.cons_append, List.cons_append, closeQuote_plain quote done _ line unescaped,
      if_neg (by simpa using apart)]
    exact ih
  | escaped line _ ih =>
    rw [List.cons_append, List.cons_append, List.cons_append, List.cons_append,
      closeQuote_escape quote done _ line]
    exact ih

/-- A literal has its form, or it is a mistake and the text starts with none of the form. -/
theorem literal_form (quote : Char) (kind : Kind) (unclosed : Flaw) (hq : quote ≠ '\\')
    (hn : quote ≠ '\n') (cs : Text) :
    (∃ t, (literal quote kind unclosed cs).1 = sound kind t ∧ Quoted quote t) ∨
      (∃ t, (literal quote kind unclosed cs).1 = flawed unclosed t) ∧
        ∀ u, u <+: quote :: cs → ¬Quoted quote u := by
  rw [literal_eq]
  split
  · next hc =>
    obtain ⟨body, hbody, htext⟩ := closeQuote_closed hc
    exact .inl ⟨_, rfl, body, hbody, htext⟩
  · next hc =>
    refine .inr ⟨⟨_, rfl⟩, ?_⟩
    rintro u hu ⟨body, hbody, rfl⟩
    exact hc (closeQuote_of_body hq hn hbody ((List.prefix_cons_inj quote).mp hu))

/-! ## Comments -/

/-- A block comment that is closed has the form of one. -/
theorem closeComment_closed (h : closeComment done cs = some (t, rest)) :
    ∃ body, t = done.reverse ++ (body ++ "*/".toList) := by
  fun_induction closeComment done cs with
  | case1 done cs =>
    obtain ⟨rfl, -⟩ := Prod.mk.inj (Option.some.inj h)
    exact ⟨[], by simp⟩
  | case2 done c cs _ ih =>
    obtain ⟨body, rfl⟩ := ih h
    exact ⟨c :: body, by simp⟩
  | case3 => cases h

/-- A block comment is closed by the first mark. -/
theorem closeComment_of_body (done : Text) {body : Text} (h : body ++ "*/".toList <+: cs) :
    ∃ t rest, closeComment done cs = some (t, rest) ∧
      t.length ≤ done.length + (body.length + 2) := by
  fun_induction closeComment done cs generalizing body with
  | case1 done cs => exact ⟨_, _, rfl, by simp⟩
  | case2 done c cs hmark ih =>
    cases body with
    | nil =>
      obtain ⟨more, hmore⟩ := h
      obtain ⟨rfl, rfl⟩ := List.cons.inj hmore
      exact (hmark more rfl rfl).elim
    | cons b body =>
      obtain ⟨t, rest, heq, hlen⟩ := ih (List.cons_prefix_cons.mp h).2
      refine ⟨t, rest, heq, ?_⟩
      simp only [List.length_cons] at hlen ⊢
      omega
  | case3 => simp at h

theorem block_form (hm : closeComment ['*', '/'] cs = some (t, rest)) :
    IsShortest BlockCommented ('/' :: '*' :: cs) t where
  holds := closeComment_closed hm
  starts := ⟨rest, by simpa using closeComment_append hm⟩
  least := by
    rintro u ⟨body, rfl⟩ hu
    have hbody : body ++ "*/".toList <+: cs := by simpa using hu
    obtain ⟨t', rest', heq, hlen⟩ := closeComment_of_body ['*', '/'] hbody
    obtain ⟨rfl, -⟩ := Prod.mk.inj (Option.some.inj (hm.symm.trans heq))
    simp at hlen ⊢
    omega

theorem unclosed_form (hm : closeComment ['*', '/'] cs = none) {u : Text}
    (hu : u <+: '/' :: '*' :: cs) : ¬BlockCommented u := by
  rintro ⟨body, rfl⟩
  have hbody : body ++ "*/".toList <+: cs := by simpa using hu
  obtain ⟨t, rest, heq, -⟩ := closeComment_of_body ['*', '/'] hbody
  cases hm.symm.trans heq

theorem line_form (w : Text) : '\n' ∉ w.takeWhile (· != '\n') ∧
    (w = w.takeWhile (· != '\n') ∨ ∃ more, w = w.takeWhile (· != '\n') ++ '\n' :: more) := by
  refine ⟨fun hn => ?_, ?_⟩
  · have hno := List.all_eq_true.mp List.all_takeWhile _ hn
    simp at hno
  · have hsplit := List.takeWhile_append_dropWhile (p := (· != '\n')) (l := w)
    have hstops := List.head?_dropWhile_not (· != '\n') w
    cases hdrop : w.dropWhile (· != '\n') with
    | nil =>
      rw [hdrop, List.append_nil] at hsplit
      exact .inl hsplit.symm
    | cons c more =>
      rw [hdrop] at hstops hsplit
      obtain rfl : c = '\n' := by simpa using hstops
      exact .inr ⟨more, hsplit.symm⟩

/-! ## Words, numbers and operators -/

/-- A number is made of characters that may belong to one. -/
theorem closeNumber_inside (hd : ∀ c ∈ done, mayContinueNumber c = true) :
    ∀ c ∈ (closeNumber done cs).1, mayContinueNumber c = true := by
  fun_induction closeNumber done cs with
  | case1 done => simpa using hd
  | case2 done c cs hc ih =>
    refine ih fun d hmem => ?_
    rcases List.mem_cons.mp hmem with rfl | hmem
    · unfold mayContinueNumber
      simp only [Bool.or_eq_true, Bool.and_eq_true] at hc ⊢
      tauto
    · exact hd d hmem
  | case3 done => simpa using hd

/-- A word is a keyword exactly if it is the spelling of one. -/
theorem wordKind_eq_keyword_iff {r : Keyword} : wordKind t = .keyword r ↔ t = r.spelling := by
  constructor
  · intro h
    unfold wordKind Keyword.ofText? at h
    split at h
    · next k hk =>
      obtain rfl := Kind.keyword.inj h
      have hspelled := (List.find?_eq_some_iff_append.mp hk).1
      exact (eq_of_beq hspelled).symm
    · cases h
  · rintro rfl
    exact r.wordKind_spelling

theorem wordKind_cases (t : Text) : wordKind t = .ident ∨ (wordKind t).isKeyword = true := by
  unfold wordKind
  split
  · exact .inr rfl
  · exact .inl rfl

theorem mem_longestFirst (p : Punct) : p ∈ Punct.longestFirst := by
  have hall : ∀ p ∈ Punct.all, p ∈ Punct.longestFirst := by decide +kernel
  exact hall p p.mem_all

/-- What is read is the longest operator or delimiter that begins the text. -/
theorem isLongest_of_read? {w : Text} {p : Punct} (h : Punct.read? w = some p) :
    IsLongest (∃ q : Punct, · = q.spelling) w p.spelling where
  holds := ⟨p, rfl⟩
  starts := Punct.spelling_prefix_of_read? h
  most := by
    rintro _ ⟨q, rfl⟩ hq
    have hsorted : Punct.longestFirst.Pairwise fun p q => q.spelling.length ≤ p.spelling.length :=
      by decide +kernel
    obtain ⟨-, front, back, hsplit, hfront⟩ := List.find?_eq_some_iff_append.mp h
    have hmem := mem_longestFirst q
    rw [hsplit] at hmem hsorted
    rcases List.mem_append.mp hmem with hmem | hmem
    · have hno := hfront q hmem
      rw [List.isPrefixOf_iff_prefix.mpr hq] at hno
      cases hno
    · rcases List.mem_cons.mp hmem with rfl | hmem
      · exact Nat.le_refl _
      · exact (List.pairwise_cons.mp (List.pairwise_append.mp hsorted).2.1).1 q hmem

/-! ## Every lexeme -/

/-- **What is cut off first** has the form of its kind. -/
theorem form_next [Alphabet] (c : Char) (cs : Text) : Form (c :: cs) (next c cs).1 := by
  have hstarts : (next c cs).1.text <+: c :: cs := ⟨_, next_append c cs⟩
  have hopens : ∃ t, (next c cs).1.text = c :: t := by
    obtain ⟨a, t, ht⟩ := List.exists_cons_of_ne_nil (next_text_ne_nil c cs)
    rw [ht] at hstarts ⊢
    exact ⟨t, by rw [(List.cons_prefix_cons.mp hstarts).1]⟩
  revert hstarts hopens
  unfold next
  split
  · next hc =>
    intro hstarts _
    obtain rfl := eq_of_beq hc
    exact .newline hstarts
  split
  · next hc =>
    intro _ _
    have hlongest := isLongest_takeWhile isSpace (c :: cs)
    rw [List.takeWhile_cons_of_pos hc] at hlongest
    exact .whitespace (List.cons_ne_nil _ _) hlongest
  split
  · next hc =>
    intro _ _
    obtain ⟨rfl, hhead⟩ : c = '/' ∧ cs.head? = some '/' := by simpa using hc
    obtain ⟨cs, rfl⟩ := List.head?_eq_some_iff.mp hhead
    obtain ⟨hinside, hstops⟩ := line_form ('/' :: '/' :: cs)
    exact .line ⟨cs.takeWhile (· != '\n'), rfl⟩ hinside hstops
  split
  · next hc =>
    intro _ _
    obtain ⟨rfl, hhead⟩ : c = '/' ∧ cs.head? = some '*' := by simpa using hc
    obtain ⟨cs, rfl⟩ := List.head?_eq_some_iff.mp hhead
    cases hm : closeComment ['*', '/'] cs with
    | none =>
      rw [List.tail_cons, hm]
      exact .unclosedBlock ⟨cs, rfl⟩ fun u hu => unclosed_form hm hu
    | some m =>
      rw [List.tail_cons, hm]
      exact .block (block_form hm)
  split
  · next hc =>
    obtain rfl := eq_of_beq hc
    rcases literal_form '"' .string .unterminatedString (by decide) (by decide) cs with
      ⟨t, ht, hquoted⟩ | ⟨⟨t, ht⟩, hnever⟩
    · rw [ht]
      exact fun hstarts _ => .string hstarts hquoted
    · rw [ht]
      rintro hstarts ⟨u, hu⟩
      exact .unclosedString hstarts ⟨u, hu.symm⟩ hnever
  split
  · next hc =>
    obtain rfl := eq_of_beq hc
    rcases literal_form '\'' .char .unterminatedChar (by decide) (by decide) cs with
      ⟨t, ht, hquoted⟩ | ⟨⟨t, ht⟩, hnever⟩
    · rw [ht]
      exact fun hstarts _ => .char hstarts hquoted
    · rw [ht]
      rintro hstarts ⟨u, hu⟩
      exact .unclosedChar hstarts ⟨u, hu.symm⟩ hnever
  split
  · next hc =>
    rintro hstarts ⟨u, hu⟩
    refine .number hstarts ⟨c, u, hu, hc⟩ (closeNumber_inside ?_)
    simp [mayContinueNumber, Char.isAlphanum, hc]
  split
  · next hc =>
    intro _ _
    have hlongest := isLongest_takeWhile continuesIdentifier (c :: cs)
    rw [List.takeWhile_cons_of_pos (continuesIdentifier_of_opens hc)] at hlongest
    exact .word ⟨c, _, rfl, hc⟩ hlongest (wordKind_cases _) fun r => wordKind_eq_keyword_iff
  · unfold symbol
    split
    · next p hp => exact fun _ _ => .punct (isLongest_of_read? hp)
    · next hp =>
      refine fun hstarts _ => .stray hstarts fun p hpre => ?_
      have hno := List.find?_eq_none.mp hp p (mem_longestFirst p)
      exact hno (List.isPrefixOf_iff_prefix.mpr hpre)

end Lexeme

namespace Token

variable {l : Limits} {source : Text} {t : Token}

/-- **Tokens match the lexical grammar.**  In a text that stays within the limits, every token is
of the form of its kind where it starts: a literal is closed as one, or nothing that starts there
is; a block comment goes on to the first mark that closes it, or there is none; a line comment
goes on to the end of its line; a word is as long as can be, and a keyword exactly if it is
reserved; and an operator or delimiter is the longest that starts there. -/
theorem scan_forms [Alphabet] (h : l.Admits source) (ht : t ∈ (scan l source).dropLast) :
    ∃ rest, source.slice? ⟨t.start.offset, source.size⟩ = some rest ∧
      Lexeme.Form rest ⟨t.kind, t.text, t.flaw⟩ := by
  obtain ⟨zs, hcuts, hscan⟩ := exists_cuts_of_admits h
  rw [hscan, List.dropLast_concat] at ht
  obtain ⟨front, behind, hsplit⟩ := List.append_of_mem ht
  obtain ⟨xs, ys, rfl, -, hys⟩ := exists_of_placed_eq_append hsplit
  cases ys with
  | nil => cases hys
  | cons x ys =>
    obtain ⟨rfl, -⟩ := List.cons.inj hys
    obtain ⟨rest, hxs, hrest⟩ := hcuts.split
    obtain rfl : Lexeme.textOf xs ++ rest = source := hxs.append_eq
    refine ⟨rest, ?_, ?_⟩
    · have hslice := Text.slice?_append (Lexeme.textOf xs) rest []
      rw [List.append_nil, ← Position.origin_advance_offset (Lexeme.textOf xs)] at hslice
      exact hslice
    · cases hrest with
      | next more => exact Lexeme.form_next _ _

/-- A comment that its own opening does not close, before a string that its escaped quote does not
close. -/
theorem scan_forms_overlapping :
    Limits.standard.Admits "/*/*/\"\\\"".toList ∧
      (∃ rest, Text.slice? "/*/*/\"\\\"".toList ⟨0, 8⟩ = some rest ∧
        Lexeme.Form rest ⟨.blockComment, "/*/*/".toList, none⟩) ∧
      ∃ rest, Text.slice? "/*/*/\"\\\"".toList ⟨5, 8⟩ = some rest ∧
        Lexeme.Form rest ⟨.error, "\"\\\"".toList, some .unterminatedString⟩ := by
  have hadmits : Limits.standard.Admits "/*/*/\"\\\"".toList := by
    unfold Limits.Admits
    decide +kernel
  have hcomment : (⟨.blockComment, "/*/*/".toList, .origin, none⟩ : Token) ∈
      (scan .standard "/*/*/\"\\\"".toList).dropLast := by decide +kernel
  have hstring : (⟨.error, "\"\\\"".toList, ⟨1, 6, 5⟩, some .unterminatedString⟩ : Token) ∈
      (scan .standard "/*/*/\"\\\"".toList).dropLast := by decide +kernel
  exact ⟨hadmits, scan_forms hadmits hcomment, scan_forms hadmits hstring⟩

end Token
end HeaderOutline
