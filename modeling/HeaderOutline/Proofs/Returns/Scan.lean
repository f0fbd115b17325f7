import HeaderOutline.Proofs.Returns.Tokens
import HeaderOutline.Proofs.Revision.Scan

/-! # Lexemes of texts with carriage returns

Where a line ends in a carriage return, the lexeme in front takes it if it is white space or a
comment up to the end of the line; otherwise the carriage return is white space of its own.  All
other lexemes stay as they are, but for the line ends in block comments
(`Lexeme.Cuts.withReturns`).
-/
namespace HeaderOutline

open Text

namespace Lexeme

variable {s u v y z t rest done done' : Text} {c : Char} {cs : Text} {x : Lexeme}

/-! ## Lexemes in one line -/

theorem closeQuote_notMem {quote : Char} (hd : '\n' ∉ done)
    (h : (closeQuote quote done cs).1 = true) : '\n' ∉ (closeQuote quote done cs).2.1 := by
  fun_induction closeQuote quote done cs with
  | case1 => cases h
  | case2 => cases h
  | case3 => cases h
  | case4 done c cs hc ih =>
    refine ih ?_ h
    simpa [hd] using fun he => hc he.symm
  | case5 done c cs hc _ _ hcq =>
    simpa [hd] using fun he => hc he.symm
  | case6 done c cs hc _ _ _ ih =>
    refine ih ?_ h
    simpa [hd] using fun he => hc he.symm

theorem closeNumber_notMem (hd : '\n' ∉ done) : '\n' ∉ (closeNumber done cs).1 := by
  fun_induction closeNumber done cs with
  | case1 => simpa using hd
  | case2 done c cs hc ih =>
    refine ih ?_
    have hne : c ≠ '\n' := by
      rintro rfl
      revert hc
      simp
    simpa [hd] using hne.symm
  | case3 => simpa using hd

theorem notMem_takeWhile {p : Char → Bool} {d : Char} (h : p d = false) (t : Text) :
    d ∉ t.takeWhile p := by
  intro hd
  have hp := List.all_eq_true.mp List.all_takeWhile d hd
  cases h.symm.trans hp

/-- A lexeme that is no line end, no comment and no mistake is in one line. -/
theorem notMem_newline_of_next [Alphabet] (hc : c ≠ '\n') (he : (next c cs).1.kind ≠ .error)
    (hk : (next c cs).1.kind.isComment = false) : '\n' ∉ (next c cs).1.text := by
  have hspelling : ∀ p ∈ Punct.all, '\n' ∉ p.spelling := by decide +kernel
  have hliteral : ∀ quote kind unclosed, quote ≠ '\n' →
      (literal quote kind unclosed cs).1.kind ≠ .error →
      '\n' ∉ (literal quote kind unclosed cs).1.text := by
    intro quote kind unclosed hq hsound
    rw [literal_eq] at hsound ⊢
    split
    · next hclosed => exact closeQuote_notMem (by simpa using hq.symm) hclosed
    · next hclosed =>
      rw [if_neg hclosed] at hsound
      exact absurd rfl hsound
  have hfirst : ∀ p : Char → Bool, p '\n' = false → '\n' ∉ c :: cs.takeWhile p := fun p hp => by
    simpa using ⟨hc.symm, fun h => notMem_takeWhile hp cs h⟩
  revert he hk
  unfold next
  split
  · next h => exact absurd (eq_of_beq h) hc
  split
  · exact fun _ _ => hfirst _ (by decide)
  split
  · exact fun _ hk => by cases hk.symm.trans (lineCommentKind_isComment _)
  split
  · split
    · exact fun _ hk => by cases hk.symm.trans (blockCommentKind_isComment _)
    · exact fun he => absurd rfl he
  split
  · next hq => exact fun he _ => hliteral c _ _ hc (eq_of_beq hq ▸ he)
  split
  · next hq => exact fun he _ => hliteral c _ _ hc (eq_of_beq hq ▸ he)
  split
  · exact fun _ _ => closeNumber_notMem (by simpa using hc.symm)
  split
  · exact fun _ _ => hfirst _ rfl
  · unfold symbol
    split
    · next p hp => exact fun _ _ => hspelling p (Punct.mem_all p)
    · exact fun he => absurd rfl he

/-! ## Comments -/

theorem closeComment_cons (h : c = '*' → cs.head? ≠ some '/') (done : Text) :
    closeComment done (c :: cs) = closeComment (c :: done) cs := by
  rw [closeComment]
  rintro us rfl rfl
  exact h rfl rfl

theorem head?_withReturns (h : cs.head? ≠ some '/') : cs.withReturns.head? ≠ some '/' := by
  cases cs with
  | nil => exact h
  | cons d cs =>
    by_cases hd : d = '\n'
    · subst hd
      rw [withReturns_newline, List.head?_cons]
      decide
    · rwa [withReturns_cons_of_ne hd]

/-- A block comment is closed at the same mark. -/
theorem closeComment_withReturns (h : closeComment done cs = some (t, rest))
    (hd : done'.reverse = withReturns done.reverse) :
    closeComment done' cs.withReturns = some (t.withReturns, rest.withReturns) := by
  fun_induction closeComment done cs generalizing done' with
  | case1 done cs =>
    obtain ⟨rfl, rfl⟩ := Prod.mk.inj (Option.some.inj h)
    have htext : ('/' :: '*' :: done').reverse = withReturns ('/' :: '*' :: done).reverse := by
      simp only [List.reverse_cons, withReturns_append, hd]
      rfl
    rw [withReturns_cons_of_ne (by decide), withReturns_cons_of_ne (by decide), ← htext]
    rfl
  | case2 done c cs hne ih =>
    by_cases hc : c = '\n'
    · subst hc
      rw [withReturns_newline, closeComment_cons fun h => absurd h (by decide),
        closeComment_cons fun h => absurd h (by decide)]
      refine ih h ?_
      simp only [List.reverse_cons, withReturns_append, hd, withReturns_newline]
      simp
    · have hslash : c = '*' → cs.head? ≠ some '/' := by
        rintro rfl hs
        obtain ⟨us, rfl⟩ := List.head?_eq_some_iff.mp hs
        exact hne us rfl rfl
      rw [withReturns_cons_of_ne hc,
        closeComment_cons fun hstar => head?_withReturns (hslash hstar)]
      refine ih h ?_
      simp only [List.reverse_cons, withReturns_append, hd, withReturns_cons_of_ne hc]
      rfl
  | case3 => cases h

theorem lineCommentKind_of_isPrefixOf {t u : Text}
    (h : ∀ mark ∈ ["///".toList, "////".toList, "//!".toList],
      mark.isPrefixOf u = mark.isPrefixOf t) : lineCommentKind u = lineCommentKind t := by
  unfold lineCommentKind
  rw [h _ (by simp), h _ (by simp), h _ (by simp)]

theorem lineCommentKind_append_return (h : '\n' ∉ t) (hr : '\r' ∉ t) :
    lineCommentKind (t ++ ['\r']) = lineCommentKind t := by
  refine lineCommentKind_of_isPrefixOf fun mark hm => ?_
  have hplain : '\r' ∉ mark ∧ '\n' ∉ mark := by
    revert mark
    decide
  exact (Commented.line h).isPrefixOf hr hplain.1 hplain.2

theorem lineCommentKind_of_ne (h : lineCommentKind t ≠ .docComment) :
    lineCommentKind t = .lineComment := by
  unfold lineCommentKind at h ⊢
  split
  · next hm => exact absurd (if_pos hm) h
  · rfl

theorem blockCommentKind_withReturns (hr : '\r' ∉ t) :
    blockCommentKind t.withReturns = blockCommentKind t := by
  have hmark : ∀ mark ∈ ["/**".toList, "/*!".toList],
      mark.isPrefixOf t.withReturns = mark.isPrefixOf t := by
    intro mark hm
    have hplain : '\r' ∉ mark ∧ '\n' ∉ mark := by
      revert mark
      decide
    exact Commented.block.isPrefixOf hr hplain.1 hplain.2
  have hempty : (t.withReturns != "/**/".toList) = (t != "/**/".toList) := by
    rw [Bool.eq_iff_iff, bne_iff_ne, bne_iff_ne, not_iff_not]
    constructor
    · intro h
      have hfilter := (Returned.withReturns t).withoutReturns_eq
      rw [h, withoutReturns_of_notMem hr] at hfilter
      exact hfilter.symm
    · rintro rfl
      rfl
  unfold blockCommentKind
  rw [hmark _ (by simp), hmark _ (by simp), hempty]

/-! ## One lexeme -/

/-- The mark of another kind of comment at the end of this one counts as it does with a carriage
return behind it: the comment has the same name. -/
def KeepsName (t : Text) : Prop :=
  "*/".toList <:+ t → Construct.Comment.name (t ++ ['\r']) = Construct.Comment.name t

/-- A lexeme and the one that takes its place. -/
structure Returned (x y : Lexeme) : Prop where
  kind : y.kind = x.kind
  space : x.kind = .whitespace → Text.Returned x.text y.text
  text : x.kind ≠ .whitespace → x.kind.isComment = false → y.text = x.text
  comment : x.kind.isComment = true → Commented x.text y.text
  name : x.kind.isComment = true → x.kind ≠ .docComment →
    Construct.Comment.name y.text = Construct.Comment.name x.text

theorem Returned.refl (h : x.kind.isComment = true → '\n' ∉ x.text) : x.Returned x where
  kind := rfl
  space _ := .refl _
  text _ _ := rfl
  comment hk := by
    have hblock : Commented x.text x.text.withReturns := .block
    rwa [withReturns_of_notMem (h hk)] at hblock
  name _ _ := rfl

theorem Returned.of_comment {k : Kind} {t u : Text} (hk : k.isComment = true)
    (comment : Commented t u) (name : k ≠ .docComment →
      Construct.Comment.name u = Construct.Comment.name t) : (sound k t).Returned (sound k u) where
  kind := rfl
  space hs := by
    rw [show k = .whitespace from hs] at hk
    cases hk
  text _ hc := by cases hc.symm.trans hk
  comment _ := comment
  name _ := name

/-- What the first lexeme of a text becomes: it ends where it ended, or it takes the carriage
return of the line that it ends. -/
def Turns [Alphabet] (c : Char) (cs : Text) : Prop :=
  (∃ y, (next c cs).1.Returned y ∧ next c cs.withReturns = (y, (next c cs).2.withReturns)) ∨
    ∃ (y : Lexeme) (rest : Text), (next c cs).2 = '\n' :: rest ∧
      next c cs.withReturns = (y, '\n' :: rest.withReturns) ∧
      (((next c cs).1.kind = .lineComment → KeepsName (next c cs).1.text) →
        (next c cs).1.Returned y)

theorem turns_of_notMem [Alphabet] (hc : c ≠ '\n') (h : '\n' ∉ cs) : Turns c cs := by
  have happ := next_append c cs
  have hplain : '\n' ∉ (next c cs).1.text ++ (next c cs).2 := by
    rw [happ]
    simpa [h] using hc.symm
  rw [List.mem_append, not_or] at hplain
  refine .inl ⟨_, .refl fun _ => hplain.1, ?_⟩
  rw [withReturns_of_notMem h, withReturns_of_notMem hplain.2]

theorem next_line [Alphabet] (cs : Text) :
    next '/' ('/' :: cs) =
      (sound (lineCommentKind ('/' :: '/' :: cs.takeWhile (· != '\n')))
        ('/' :: '/' :: cs.takeWhile (· != '\n')), cs.dropWhile (· != '\n')) := by
  simp only [next]
  rfl

/-- Characters of a class in front of one that is not. -/
theorem takeWhile_append_cons {p : Char → Bool} {d : Char} (hv : ∀ c ∈ v, p c = true)
    (hd : p d = false) (y : Text) :
    (v ++ d :: y).takeWhile p = v ∧ (v ++ d :: y).dropWhile p = d :: y := by
  rw [List.takeWhile_append_of_pos hv, List.dropWhile_append_of_pos hv,
    List.takeWhile_cons_of_neg (by simp [hd]), List.dropWhile_cons_of_neg (by simp [hd]),
    List.append_nil]
  exact ⟨rfl, rfl⟩

/-- A comment up to the end of its line takes the carriage return. -/
theorem turns_line [Alphabet] (hv : '\n' ∉ v) (hr : '\r' ∉ v) (y : Text) :
    Turns '/' ('/' :: (v ++ '\n' :: y)) := by
  have hcut : ∀ {v : Text}, '\n' ∉ v → ∀ y : Text, next '/' ('/' :: (v ++ '\n' :: y)) =
      (sound (lineCommentKind ('/' :: '/' :: v)) ('/' :: '/' :: v), '\n' :: y) := by
    intro v hv y
    have hclass : ∀ c ∈ v, (c != '\n') = true := fun c hc =>
      bne_iff_ne.mpr fun he => hv (he ▸ hc)
    obtain ⟨htake, hdrop⟩ := takeWhile_append_cons hclass (d := '\n') (by simp) y
    rw [next_line, htake, hdrop]
  have hreturns : withReturns ('/' :: (v ++ '\n' :: y))
      = '/' :: (v ++ ['\r'] ++ '\n' :: y.withReturns) := by
    rw [withReturns_cons_of_ne (by decide), withReturns_append, withReturns_of_notMem hv,
      withReturns_newline]
    simp
  have hmem : '\n' ∉ '/' :: '/' :: v := by simpa using hv
  have hkind := lineCommentKind_append_return hmem (by simpa using hr)
  have hcut' : next '/' ('/' :: (v ++ ['\r'] ++ '\n' :: y.withReturns))
      = (sound (lineCommentKind ('/' :: '/' :: v)) ('/' :: '/' :: v ++ ['\r']),
        '\n' :: y.withReturns) := by
    rw [hcut (by simpa using hv), ← hkind]
    rfl
  refine .inr ⟨_, y, by rw [hcut hv], by rw [hreturns, hcut'], ?_⟩
  rw [hcut hv]
  refine fun hname => .of_comment (lineCommentKind_isComment _) (.line hmem) fun hd => ?_
  by_cases hs : "*/".toList <:+ '/' :: '/' :: v
  · exact hname (lineCommentKind_of_ne hd) hs
  · exact Construct.Comment.name_line ⟨v, rfl⟩ hs (by simpa using hr)

/-- A block comment goes on to its mark. -/
theorem turns_block [Alphabet] (hr : '\r' ∉ cs) (he : (next '/' ('*' :: cs)).1.kind ≠ .error) :
    Turns '/' ('*' :: cs) := by
  have hreturns : withReturns ('*' :: cs) = '*' :: cs.withReturns :=
    withReturns_cons_of_ne (by decide) cs
  have hstart : List.reverse ['*', '/'] = withReturns (List.reverse ['*', '/']) := rfl
  unfold Turns
  rw [next_block, hreturns, next_block]
  rw [next_block] at he
  cases hm : closeComment ['*', '/'] cs with
  | none =>
    rw [hm] at he
    exact absurd rfl he
  | some m =>
    obtain ⟨text, rest⟩ := m
    have hplain : '\r' ∉ text := by
      have happ := closeComment_append hm
      have hmem : '\r' ∉ text ++ rest := by
        rw [happ]
        simpa using hr
      exact fun ht => hmem (List.mem_append_left _ ht)
    rw [closeComment_withReturns hm hstart]
    dsimp only
    rw [blockCommentKind_withReturns hplain]
    exact .inl ⟨_, .of_comment (blockCommentKind_isComment _) .block
      fun _ => Construct.Comment.name_withReturns hplain, rfl⟩

/-- The first characters of a lexeme show whether it is trivia or a comment. -/
theorem kind_cases [Alphabet] (c : Char) (cs : Text) :
    c = '\n' ∨ (next c cs).1.kind = .whitespace ∨
      (next c cs).1.kind.isTrivia = false ∧ ((next c cs).1.kind.isComment = true →
        c = '/' ∧ ((∃ ds, cs = '/' :: ds) ∨ ∃ ds, cs = '*' :: ds)) := by
  have hplain : ∀ {k : Kind} {q : Prop}, k.isTrivia = false → k.isComment = false →
      k.isTrivia = false ∧ (k.isComment = true → q) :=
    fun ht hc => ⟨ht, fun h => by cases hc.symm.trans h⟩
  have hcomment : ∀ {k : Kind} {q : Prop}, k.isComment = true → q →
      k.isTrivia = false ∧ (k.isComment = true → q) := by
    intro k q hk hq
    refine ⟨?_, fun _ => hq⟩
    cases k <;> first | rfl | cases hk
  have hliteral : ∀ {quote kind unclosed} {q : Prop}, kind.isTrivia = false →
      kind.isComment = false → (literal quote kind unclosed cs).1.kind.isTrivia = false ∧
        ((literal quote kind unclosed cs).1.kind.isComment = true → q) := by
    intro quote kind unclosed q ht hc
    rw [literal_eq]
    split
    · exact hplain ht hc
    · exact hplain rfl rfl
  refine or_iff_not_imp_left.mpr fun hn => ?_
  unfold next
  rw [if_neg (by simpa using hn)]
  split
  · exact .inl rfl
  refine .inr ?_
  split
  · next h =>
    obtain ⟨hc, hs⟩ := by simpa using h
    exact hcomment (lineCommentKind_isComment _) ⟨hc, .inl (List.head?_eq_some_iff.mp hs)⟩
  split
  · next h =>
    obtain ⟨hc, hs⟩ := by simpa using h
    split
    · exact hcomment (blockCommentKind_isComment _) ⟨hc, .inr (List.head?_eq_some_iff.mp hs)⟩
    · exact hplain rfl rfl
  split
  · exact hliteral rfl rfl
  split
  · exact hliteral rfl rfl
  split
  · exact hplain rfl rfl
  split
  · have hword : ∀ t, (wordKind t).isTrivia = false ∧ (wordKind t).isComment = false := by
      intro t
      unfold wordKind
      split <;> exact ⟨rfl, rfl⟩
    exact hplain (hword _).1 (hword _).2
  · unfold symbol
    split <;> exact hplain rfl rfl

/-- White space up to the end of a line takes the carriage return. -/
theorem turns_space [Alphabet] (hv : '\n' ∉ v) (hk : (next c (v ++ '\n' :: y)).1.kind = .whitespace)
    (h : (next c (v ++ '\n' :: y)).2 = '\n' :: y) : Turns c (v ++ '\n' :: y) := by
  obtain ⟨hc, hdrop⟩ := next_whitespace hk
  have hspace : ∀ cs : Text, next c cs
      = (sound .whitespace (c :: cs.takeWhile isSpace), cs.dropWhile isSpace) := by
    intro cs
    have hne : (c == '\n') = false := by
      rw [beq_eq_false_iff_ne]
      rintro rfl
      cases hc
    rw [next, if_neg (by simp [hne]), if_pos hc]
  rw [h] at hdrop
  have hsplit := List.takeWhile_append_dropWhile (p := isSpace) (l := v ++ '\n' :: y)
  rw [← hdrop] at hsplit
  have htake : (v ++ '\n' :: y).takeWhile isSpace = v := List.append_cancel_right hsplit
  have hall : ∀ d ∈ v ++ ['\r'], isSpace d = true := by
    intro d hd
    rcases List.mem_append.mp hd with hd | hd
    · rw [← htake] at hd
      exact List.all_eq_true.mp List.all_takeWhile d hd
    · rw [List.mem_singleton.mp hd]
      rfl
  obtain ⟨htake', hdrop'⟩ := takeWhile_append_cons hall (d := '\n') rfl y.withReturns
  have hreturns : withReturns (v ++ '\n' :: y) = v ++ ['\r'] ++ '\n' :: y.withReturns := by
    rw [withReturns_append, withReturns_of_notMem hv, withReturns_newline]
    simp
  refine .inr ⟨_, y, h, by rw [hreturns, hspace, hdrop'], fun _ => ?_⟩
  rw [hspace, htake, htake']
  exact
    { kind := rfl
      space := fun _ => .cons c (by simpa using (Text.Returned.refl v).append (.insert .nil))
      text := fun hne => absurd rfl hne
      comment := fun h => by cases h
      name := fun h => by cases h }

/-- **The first lexeme of a text with carriage returns.** -/
theorem turns [Alphabet] (hc : c ≠ '\n') (hr : '\r' ∉ cs) (he : (next c cs).1.kind ≠ .error) :
    Turns c cs := by
  by_cases hn : '\n' ∈ cs
  · obtain ⟨v, y, rfl, hv⟩ := List.eq_append_cons_of_mem hn
    by_cases hk : (next c (v ++ '\n' :: y)).1.kind.isComment = true
    · have hslash := (kind_cases c (v ++ '\n' :: y)).resolve_left hc
      obtain ⟨rfl, ⟨ds, hds⟩ | ⟨ds, hds⟩⟩ :=
        (hslash.resolve_left fun hw => by rw [hw] at hk; cases hk).2 hk
      · obtain ⟨v, rfl⟩ : ∃ w, v = '/' :: w := by
          cases v with
          | nil => cases hds
          | cons d v => exact ⟨v, by rw [(List.cons.inj hds).1]⟩
        exact turns_line (fun h => hv (List.mem_cons_of_mem _ h))
          (fun h => hr (List.mem_append_left _ (List.mem_cons_of_mem _ h))) y
      · rw [hds] at hr he ⊢
        exact turns_block (fun h => hr (List.mem_cons_of_mem _ h)) he
    · have hk : (next c (v ++ '\n' :: y)).1.kind.isComment = false := by simpa using hk
      -- the lexeme ends before the line does
      have hline := notMem_newline_of_next hc he hk
      have happ : (c :: v) ++ '\n' :: y = _ := (next_append c (v ++ '\n' :: y)).symm
      obtain ⟨u, hcut, hrest⟩ : ∃ u, c :: v = (next c (v ++ '\n' :: y)).1.text ++ u ∧
          (next c (v ++ '\n' :: y)).2 = u ++ '\n' :: y := by
        rcases List.append_eq_append_iff.mp happ with ⟨u, hcut, hrest⟩ | ⟨u, hcut, hrest⟩
        · cases u with
          | nil => exact ⟨[], by simpa using hcut.symm, by simpa using hrest.symm⟩
          | cons d u =>
            obtain ⟨rfl, -⟩ := List.cons.inj hrest
            exact absurd (hcut ▸ List.mem_append_right _ List.mem_cons_self) hline
        · exact ⟨u, hcut, hrest⟩
      have hu : '\n' ∉ u := fun h => by
        have hmem : '\n' ∈ c :: v := hcut ▸ List.mem_append_right _ h
        exact (List.mem_cons.mp hmem).elim (fun he => hc he.symm) hv
      by_cases hspace : (next c (v ++ '\n' :: y)).1.kind = .whitespace ∧ u = []
      · obtain ⟨hspace, rfl⟩ := hspace
        exact turns_space hv hspace hrest
      · have hbefore := next_before_blank (.inr rfl)
          (IsBlank.ends (.inl rfl : IsBlank '\r')).breaks hrest he
          (fun hc => by cases hk.symm.trans hc) (fun hs hnil => hspace ⟨hs, hnil⟩)
          ('\n' :: withReturns y)
        refine .inl ⟨_, .refl (fun h => by cases hk.symm.trans h), ?_⟩
        rw [withReturns_append, withReturns_of_notMem hv, withReturns_newline, hbefore, hrest,
          withReturns_append, withReturns_of_notMem hu, withReturns_newline]
  · exact turns_of_notMem hc hn

/-! ## All lexemes -/

/-- A lexeme that is no trivia, at two places. -/
theorem Returned.token {x y : Lexeme} (h : x.Returned y) (ht : x.kind.isTrivia = false)
    (hr : '\r' ∉ x.text) (p q : Position) : (Token.ofLexeme x p).Returned (Token.ofLexeme y q) where
  kind := h.kind
  not_trivia := ht
  plain := hr
  text hc := h.text (fun hk => by rw [hk] at ht; cases ht) hc
  comment := h.comment
  name := h.name

/-- White space, a comment or another lexeme stands in front of the others. -/
theorem Returned.placed_cons {x y : Lexeme} {xs ys : List Lexeme} (h : x.Returned y)
    (hk : x.kind = .whitespace ∨ x.kind.isTrivia = false) (hr : '\r' ∉ x.text)
    (he : (textOf (y :: ys)).EndsLines) {p q : Position}
    (more : Tokens.Returned (Token.placed (p.advance x.text) xs)
      (Token.placed (q.advance y.text) ys)) :
    Tokens.Returned (Token.placed p (x :: xs)) (Token.placed q (y :: ys)) := by
  rcases hk with hk | hk
  · exact .space hk (h.kind.trans hk) (h.space hk) more
  · refine .token ?_ (h.token hk hr p q) more
    rw [← Token.textOf_placed q] at he
    exact he

end Lexeme

/-- Comments in front of line ends keep their names. -/
def Tokens.KeepNames (ts : List Token) : Prop :=
  ∀ t u, [t, u] <:+: ts → t.kind = .lineComment → u.kind = .newline → Lexeme.KeepsName t.text

theorem Tokens.KeepNames.of_infix {ts us : List Token} (h : KeepNames ts) (hs : us <:+: ts) :
    KeepNames us :=
  fun t u htu => h t u (htu.trans hs)

/-- Comments that do not end in the mark of another kind keep their names. -/
theorem Tokens.keepNames_of_marks {ts : List Token}
    (h : ∀ t ∈ ts, t.kind = .lineComment → ¬"*/".toList <:+ t.text) : KeepNames ts :=
  fun t _ htu hk _ hs => absurd hs (h t (htu.mem List.mem_cons_self) hk)

namespace Lexeme

variable {s : Text}

/-- **The lexemes of a text with carriage returns.** -/
theorem Cuts.withReturns [Alphabet] {xs : List Lexeme} (h : Cuts s xs []) (hr : '\r' ∉ s)
    (hs : ∀ x ∈ xs, x.kind ≠ .error) {p : Position}
    (hnames : Tokens.KeepNames (Token.placed p xs)) :
    ∃ ys, Cuts s.withReturns ys [] ∧
      ∀ q, Tokens.Returned (Token.placed p xs) (Token.placed q ys) := by
  induction hn : xs.length using Nat.strongRecOn generalizing s xs p with
  | ind n ih =>
    subst hn
    cases h with
    | none => exact ⟨[], .none [], fun _ => .nil⟩
    | @next c cs _ xs more =>
      have he := hs _ List.mem_cons_self
      have hcs : '\r' ∉ cs := fun h => hr (List.mem_cons_of_mem c h)
      by_cases hc : c = '\n'
      · subst hc
        obtain ⟨ys, hys, hmore⟩ := ih _ (Nat.lt_succ_self _) more hcs
          (fun x hx => hs x (List.mem_cons_of_mem _ hx))
          (hnames.of_infix (List.suffix_cons _ _).isInfix) rfl
        refine ⟨sound .whitespace ['\r'] :: sound .newline ['\n'] :: ys, ?_, fun q =>
          .carriage rfl rfl rfl rfl rfl (hmore _)⟩
        rw [withReturns_newline]
        have hline : Cuts ('\n' :: Text.withReturns cs) (_ :: ys) [] := .next hys
        have hblank : Cuts ('\r' :: '\n' :: Text.withReturns cs) (_ :: _) [] := .next hline
        exact hblank
      have hpieces : '\r' ∉ (Lexeme.next c cs).1.text ++ (Lexeme.next c cs).2 := by
        rwa [next_append]
      rw [List.mem_append, not_or] at hpieces
      have hkind := ((kind_cases c cs).resolve_left hc).imp_right And.left
      have hends := endsLines_withReturns hr
      have hcons : ∀ {y : Lexeme} {w : Text} {ys : List Lexeme},
          Lexeme.next c (Text.withReturns cs) = (y, w) → Cuts w ys [] →
          Cuts (Text.withReturns (c :: cs)) (y :: ys) [] := by
        intro y w ys hy hys
        have hnext : Cuts (c :: Text.withReturns cs) (_ :: ys) [] := .next (hy ▸ hys)
        rwa [hy, ← withReturns_cons_of_ne hc] at hnext
      have hwhole : ∀ {zs : List Lexeme}, Cuts (Text.withReturns (c :: cs)) zs [] →
          (textOf zs).EndsLines := fun hzs => by
        have heq := hzs.append_eq
        rw [List.append_nil] at heq
        exact heq ▸ hends
      rcases turns hc hcs he with ⟨y, hy, hnext⟩ | ⟨y, rest, hrest, hnext, hy⟩
      · obtain ⟨ys, hys, hmore⟩ := ih _ (Nat.lt_succ_self _) more hpieces.2
          (fun x hx => hs x (List.mem_cons_of_mem _ hx))
          (hnames.of_infix (List.suffix_cons _ _).isInfix) rfl
        have hcuts := hcons hnext hys
        exact ⟨y :: ys, hcuts, fun q => hy.placed_cons hkind hpieces.1 (hwhole hcuts) (hmore _)⟩
      · rw [hrest] at more hpieces
        cases more with
        | @next _ _ _ xs more =>
          obtain ⟨ys, hys, hmore⟩ := ih _ (Nat.lt_succ_of_lt (Nat.lt_succ_self _)) more
            (fun h => hpieces.2 (List.mem_cons_of_mem _ h))
            (fun x hx => hs x (List.mem_cons_of_mem _ (List.mem_cons_of_mem _ hx)))
            (hnames.of_infix
              ((List.suffix_cons _ _).trans (List.suffix_cons _ _)).isInfix) rfl
          have hline : Cuts ('\n' :: Text.withReturns rest) (sound .newline ['\n'] :: ys) [] :=
            .next hys
          have hcuts := hcons hnext hline
          have hreturned := hy fun hk => hnames _ _ ⟨[], _, rfl⟩ hk rfl
          exact ⟨_, hcuts, fun q => hreturned.placed_cons hkind hpieces.1 (hwhole hcuts)
            (.line rfl rfl rfl (hmore _))⟩

end Lexeme
end HeaderOutline
