import HeaderOutline.Proofs.Attribute.Scan
import HeaderOutline.Proofs.Respaced.Run

/-! # Texts with other gaps

A blank ends every lexeme but white space, so that what stands in front of white space is cut alike
in front of any other blank, and in front of a backslash (`Lexeme.Cuts.change_blank`).  Hence a text
in which one piece of white space is replaced by other lexemes that start so has the same tokens but
there.
-/
namespace HeaderOutline

namespace Lexeme

variable {u v w y z : Text} {c d : Char} {zs : List Lexeme}

/-! ## Lexemes before a blank -/

/-- White space or a line end. -/
def IsBlank (d : Char) : Prop := isSpace d = true ∨ d = '\n'

theorem IsBlank.cases (h : IsBlank d) :
    d ∈ [' ', '\t', '\r', '\x0B', '\x0C', '\uFEFF', '\n'] := by
  rcases h with h | h
  · simp only [isSpace, Bool.or_eq_true, beq_iff_eq] at h
    rcases h with ((((h | h) | h) | h) | h) | h <;> simp [h]
  · simp [h]

/-- A character that goes on no number, no word and no operator, and makes no comment of a slash. -/
structure Breaks [Alphabet] (d : Char) : Prop where
  number : mayContinueNumber d = false
  word : Text.continuesIdentifier d = false
  punct : ∀ p ∈ Punct.longestFirst, d ∉ p.spelling.tail
  comment : d ∉ ['/', '*']

theorem Ends.breaks [Alphabet] (h : Ends d) : Breaks d :=
  ⟨h.number, h.word, h.punct, fun hd => h.marks (List.mem_append_left ['"', '\'', '\\'] hd)⟩

theorem breaks_backslash [Alphabet] : Breaks '\\' := ⟨by decide, rfl, by decide, by decide⟩

/-- A blank belongs to nothing but white space. -/
theorem IsBlank.ends [Alphabet] (h : IsBlank d) : Ends d := by
  -- over lists, so that only the blanks are tried and not every character
  have hnumber : [' ', '\t', '\r', '\x0B', '\x0C', '\uFEFF', '\n'].all
      (fun d => !mayContinueNumber d) = true := by decide +kernel
  have hpunct : [' ', '\t', '\r', '\x0B', '\x0C', '\uFEFF', '\n'].all
      (fun d => Punct.longestFirst.all fun p => !p.spelling.tail.contains d) = true := by
    decide +kernel
  have hmarks : [' ', '\t', '\r', '\x0B', '\x0C', '\uFEFF', '\n'].all
      (fun d => ['/', '*', '"', '\'', '\\'].contains d == false) = true := by decide +kernel
  have hd := h.cases
  constructor
  · simpa using List.all_eq_true.mp hnumber d hd
  · simp only [List.mem_cons, List.not_mem_nil, or_false] at hd
    rcases hd with rfl | rfl | rfl | rfl | rfl | rfl | rfl
    -- of these only the byte order mark is beyond ASCII
    all_goals first | rfl | exact Text.continuesIdentifier_mark
  · intro p hp
    simpa using List.all_eq_true.mp (List.all_eq_true.mp hpunct d hd) p hp
  · simpa using List.all_eq_true.mp hmarks d hd

/-- A literal that is closed before some character, which does not close it, is closed without
that character. -/
theorem closeQuote_of_append {quote : Char} (hq : d ≠ quote) (hn : d ≠ '\\') {done : Text}
    (hc : (closeQuote quote done (v ++ d :: y)).1 = true)
    (h : (closeQuote quote done (v ++ d :: y)).2.2 = u ++ d :: y) :
    (closeQuote quote done v).1 = true := by
  -- a literal that takes the character leaves too little
  have hlong : ∀ done : Text, (closeQuote quote done y).2.2 ≠ u ++ d :: y := by
    intro done heq
    have hlen := closeQuote_length quote done y
    rw [heq] at hlen
    simp at hlen
    omega
  have hplain : ∀ {done : Text} {c : Char} {cs : Text},
      (∀ d ds, c = '\\' → cs = d :: ds → False) →
      (closeQuote quote done (c :: cs ++ d :: y)).1 = true →
      (closeQuote quote done (c :: cs ++ d :: y)).2.2 = u ++ d :: y → c ≠ '\\' := by
    rintro done c cs hesc hc h rfl
    cases cs with
    | nil =>
      by_cases hd : d = '\n'
      · subst hd
        cases hc
      · rw [List.singleton_append, closeQuote_escape quote done y hd] at h
        exact hlong _ h
    | cons d ds => exact hesc d ds rfl rfl
  fun_induction closeQuote quote done v with
  | case1 done =>
    by_cases hd : d = '\n'
    · subst hd
      cases hc
    · rw [List.nil_append, closeQuote_plain quote done y hd hn, if_neg (by simpa using hq)] at h
      exact absurd h (hlong _)
  | case2 => cases hc
  | case3 => cases hc
  | case4 done c cs hcn ih =>
    simp only [List.cons_append, closeQuote_escape quote done _ hcn] at hc h
    exact ih hc h
  | case5 => rfl
  | case6 done c cs hcn _ hesc hquote ih =>
    have he := hplain hesc hc h
    simp only [List.cons_append, closeQuote_plain quote done _ hcn he, hquote] at hc h
    exact ih hc h

theorem literal_before {quote : Char} {kind : Kind} {unclosed : Flaw} (hb : quote ≠ '\\')
    (hq : d ≠ quote) (hn : d ≠ '\\')
    (hk : (literal quote kind unclosed (v ++ d :: y)).1.kind ≠ .error)
    (h : (literal quote kind unclosed (v ++ d :: y)).2 = u ++ d :: y) (w : Text) :
    (literal quote kind unclosed (v ++ w)).1
      = (literal quote kind unclosed (v ++ d :: y)).1 := by
  have hclosed : (closeQuote quote [quote] (v ++ d :: y)).1 = true := by
    rw [← Bool.not_eq_false]
    intro hf
    rw [literal_eq, hf] at hk
    exact hk rfl
  have hrest : (closeQuote quote [quote] (v ++ d :: y)).2.2 = u ++ d :: y := by
    rw [literal_eq, hclosed] at h
    exact h
  have hv := closeQuote_of_append hq hn hclosed hrest
  rw [literal_eq, literal_eq, closeQuote_append_right hb hv, closeQuote_append_right hb hv]
  rfl

/-- White space that ends within a text is the same whatever follows the text. -/
theorem takeWhile_before {p : Char → Bool} (h : (v ++ y).dropWhile p = u ++ y) (hu : u ≠ [])
    (w : Text) : (v ++ w).takeWhile p = (v ++ y).takeWhile p := by
  have hsplit := List.takeWhile_append_dropWhile (p := p) (l := v ++ y)
  rw [h, ← List.append_assoc] at hsplit
  have hv : (v ++ y).takeWhile p ++ u = v := List.append_cancel_right hsplit
  obtain ⟨a, u, rfl⟩ := List.exists_cons_of_ne_nil hu
  have ha : p a = false := by
    have hhead := List.head?_dropWhile_not p (v ++ y)
    rw [h, List.cons_append, List.head?_cons] at hhead
    simpa using hhead
  conv => lhs; rw [← hv]
  rw [List.append_assoc, List.takeWhile_append_of_pos fun c hc =>
    List.all_eq_true.mp List.all_takeWhile c hc, List.cons_append,
    List.takeWhile_cons_of_neg (by rw [ha]; nofun), List.append_nil]

theorem stops_dropWhile (p : Char → Bool) (w : Text) : Stops p (w.dropWhile p) := by
  intro c hc
  have hhead := List.head?_dropWhile_not p w
  rw [Option.mem_def.mp hc] at hhead
  simpa using hhead

/-- **A lexeme that ends before a blank** is the same before any other character that breaks
lexemes off, and whatever follows that, if it is no mistake; a comment must not end at the end of
its line, and white space not at the blank. -/
theorem next_before_blank [Alphabet] {d' : Char} (hd : IsBlank d) (hd' : Breaks d')
    (h : (next c (v ++ d :: y)).2 = u ++ d :: y) (hk : (next c (v ++ d :: y)).1.kind ≠ .error)
    (hc : (next c (v ++ d :: y)).1.kind.isComment = true → isSpace d = true)
    (hu : (next c (v ++ d :: y)).1.kind = .whitespace → u ≠ []) (z : Text) :
    next c (v ++ d' :: z) = ((next c (v ++ d :: y)).1, u ++ d' :: z) := by
  -- it is enough that the lexeme is the same, since with the rest it makes up the text
  suffices hfst : (next c (v ++ d' :: z)).1 = (next c (v ++ d :: y)).1 by
    have hy := next_append c (v ++ d :: y)
    have hz := next_append c (v ++ d' :: z)
    rw [h, ← List.append_assoc] at hy
    have hcut : (next c (v ++ d :: y)).1.text ++ u = c :: v := List.append_cancel_right hy
    rw [hfst, ← List.cons_append, ← hcut, List.append_assoc] at hz
    exact Prod.ext hfst (List.append_cancel_left hz)
  have hmarks := hd.ends.marks
  have hmarks' := hd'.comment
  have hhead : ∀ a ∈ ['/', '*'],
      ((v ++ d' :: z).head? == some a) = ((v ++ d :: y).head? == some a) := by
    intro a ha
    cases v with
    | cons b v => rfl
    | nil =>
      have hne : d ≠ a ∧ d' ≠ a := by
        constructor <;> rintro rfl <;> simp_all
      simp [hne.1, hne.2]
  have hword : ∀ {d : Char} (_ : Breaks d) (y : Text),
      Stops Text.continuesIdentifier (d :: y) := fun hd _ => .cons hd.word
  simp only [List.mem_cons, List.not_mem_nil, or_false, not_or] at hmarks
  obtain ⟨-, hstar, hstring, hchar, hescape⟩ := hmarks
  revert h hk hc hu
  unfold next
  rw [hhead '/' (by simp), hhead '*' (by simp)]
  split
  · exact fun _ _ _ _ => rfl
  split
  · intro h _ _ hu
    rw [takeWhile_before h (hu rfl)]
  split
  · intro h _ hc _
    -- the line ends behind the blank
    have hspace := hc (lineCommentKind_isComment _)
    have hu : u ≠ [] := by
      rintro rfl
      have hrest : (v ++ d :: y).dropWhile (· != '\n') = d :: y := h
      have hstop := stops_dropWhile (· != '\n') (v ++ d :: y)
      rw [hrest] at hstop
      obtain rfl : d = '\n' := by simpa using hstop d rfl
      cases hspace
    rw [takeWhile_before h hu]
  split
  · next hopen =>
    intro h _ _ _
    obtain ⟨a, v, rfl⟩ : ∃ a v', v = a :: v' := by
      cases v with
      | cons a v => exact ⟨a, v, rfl⟩
      | nil => simp [hstar] at hopen
    simp only [List.cons_append, List.tail_cons] at h ⊢
    cases hm : closeComment ['*', '/'] (v ++ d :: y) with
    | none =>
      rw [hm] at h
      cases u <;> cases h
    | some m =>
      obtain ⟨text, rest⟩ := m
      rw [hm] at h
      obtain rfl : rest = u ++ d :: y := h
      rw [closeComment_append_right (closeComment_of_append hm) (d' :: z)]
  split
  · next hq =>
    intro h hk _ _
    rw [eq_of_beq hq] at h hk ⊢
    exact literal_before (by decide) hstring hescape hk h _
  split
  · next hq =>
    intro h hk _ _
    rw [eq_of_beq hq] at h hk ⊢
    exact literal_before (by decide) hchar hescape hk h _
  split
  · intro _ _ _ _
    show sound .number (closeNumber [c] _).1 = sound .number (closeNumber [c] _).1
    rw [closeNumber_append_stop hd.ends.number, closeNumber_append_stop hd'.number]
  split
  · intro _ _ _ _
    rw [(hword hd' z).takeWhile_append, (hword hd.ends.breaks y).takeWhile_append]
  · intro _ _ _ _
    rw [symbol_append_of_notMem hd'.punct, symbol_append_of_notMem hd.ends.punct]

/-- White space goes on as far as it can. -/
theorem next_whitespace [Alphabet] {c : Char} {cs : Text} (h : (next c cs).1.kind = .whitespace) :
    isSpace c = true ∧ (next c cs).2 = cs.dropWhile isSpace := by
  have hliteral : ∀ quote kind unclosed, kind ≠ Kind.whitespace →
      (literal quote kind unclosed cs).1.kind ≠ .whitespace := by
    intro quote kind unclosed hk
    rw [literal_eq]
    split
    · exact hk
    · exact nofun
  have hcomment : ∀ {k : Kind}, k.isComment = true → k ≠ .whitespace := by
    rintro k hk rfl
    cases hk
  have hword : ∀ t, wordKind t ≠ .whitespace := by
    intro t
    unfold wordKind
    split <;> exact nofun
  revert h
  unfold next
  split
  · exact nofun
  split
  · next hc => exact fun _ => ⟨hc, rfl⟩
  split
  · exact fun h => (hcomment (lineCommentKind_isComment _) h).elim
  split
  · split
    · exact fun h => (hcomment (blockCommentKind_isComment _) h).elim
    · exact nofun
  split
  · exact fun h => (hliteral c .string _ nofun h).elim
  split
  · exact fun h => (hliteral c .char _ nofun h).elim
  split
  · exact nofun
  split
  · exact fun h => (hword _ h).elim
  · unfold symbol
    split <;> exact nofun

/-! ## Cutting before a blank -/

namespace Cuts

variable {x : Lexeme} {xs ys : List Lexeme}

/-- Behind a piece of white space there is no white space. -/
theorem stops_of_whitespace [Alphabet] (h : Cuts v (x :: xs) w) (hx : x.kind = .whitespace) :
    Stops isSpace (textOf xs ++ w) := by
  cases h with
  | @next c cs _ _ more =>
    rw [more.append_eq, (next_whitespace hx).2]
    exact stops_dropWhile isSpace cs

theorem isSpace_of_whitespace [Alphabet] (h : Cuts v (x :: xs) w) (hx : x.kind = .whitespace) :
    ∃ d t, x.text = d :: t ∧ isSpace d = true := by
  cases h with
  | @next c cs _ _ _ =>
    obtain ⟨d, t, ht⟩ := List.exists_cons_of_ne_nil (next_text_ne_nil c cs)
    have happ := next_append c cs
    rw [ht, List.cons_append] at happ
    obtain ⟨rfl, -⟩ := List.cons.inj happ
    exact ⟨d, t, ht, (next_whitespace hx).1⟩

/-- **What is cut off before white space** is the same before any other character that breaks
lexemes off. -/
theorem change_blank [Alphabet] {d' : Char} (hd : isSpace d = true) (hd' : Breaks d')
    (h : Cuts v xs (d :: y)) (hs : ∀ x ∈ xs, x.kind ≠ .error)
    (z : Text) : Cuts (textOf xs ++ d' :: z) xs (d' :: z) := by
  generalize hw : d :: y = w at h
  induction h with
  | none => exact .none _
  | @next c cs w xs more ih =>
    subst hw
    -- the lexeme and those after it are what stands in front of the blank
    have hrest : (Lexeme.next c cs).2 = textOf xs ++ d :: y := more.append_eq.symm
    have hk := hs _ List.mem_cons_self
    have hne : (Lexeme.next c cs).1.kind = .whitespace → textOf xs ≠ [] := by
      intro hspace hnil
      have hstops := stops_dropWhile isSpace cs
      rw [← (next_whitespace hspace).2, hrest, hnil, List.nil_append] at hstops
      cases (hstops d rfl).symm.trans hd
    have happ := Lexeme.next_append c cs
    obtain ⟨a, t, ht⟩ := List.exists_cons_of_ne_nil (next_text_ne_nil c cs)
    rw [hrest, ht, List.cons_append] at happ
    obtain ⟨rfl, rfl⟩ := List.cons.inj happ
    rw [← List.append_assoc] at hrest hk hne ht ⊢
    have hbefore := next_before_blank (.inl hd) hd' hrest hk (fun _ => hd) hne z
    have hnext : Cuts (a :: (t ++ textOf xs ++ d' :: z))
        ((Lexeme.next a (t ++ textOf xs ++ d' :: z)).1 :: xs) (d' :: z) :=
      .next (by
        rw [hbefore]
        exact ih (fun x hx => hs x (List.mem_cons_of_mem _ hx)) rfl)
    rw [hbefore] at hnext
    rw [textOf_cons, ht]
    exact hnext

/-- **One piece of white space is replaced** by other lexemes, and all others stay. -/
theorem replace_blank [Alphabet] {d' : Char} {t : Text} (h : Cuts v (xs ++ x :: ys) [])
    (hx : x.kind = .whitespace) (hs : ∀ x ∈ xs, x.kind ≠ .error) (hd' : Breaks d')
    (hg : Stops isSpace (textOf ys) → Cuts (d' :: t ++ textOf ys) zs (textOf ys)) :
    Cuts (textOf xs ++ (d' :: t ++ textOf ys)) (xs ++ zs ++ ys) [] := by
  obtain ⟨u, hxs, hrest⟩ := h.split
  have hstops := hrest.stops_of_whitespace hx
  rw [List.append_nil] at hstops
  obtain ⟨d, w, hw, hd⟩ := hrest.isSpace_of_whitespace hx
  have hu := hrest.append_eq
  rw [List.append_nil, textOf_cons, hw, List.cons_append] at hu
  subst hu
  have hys : Cuts (textOf ys) ys [] := by
    cases hrest with
    | next more =>
      have heq := more.append_eq
      rw [List.append_nil] at heq
      rwa [← heq] at more
  rw [List.append_assoc]
  exact (hxs.change_blank hd hd' hs _).append ((hg hstops).append hys)

end Cuts

end Lexeme

/-! ## Tokens with one gap changed -/

namespace Tokens

variable {S : Respacing} {b : Trail} {ts us : List Token} {xs : List Lexeme}

/-- The trail that some tokens leave. -/
def trail (front : List Token) : Trail :=
  ((front.filter (!·.kind.isTrivia)).map (·.kind)).reverse

theorem trail_cons (t : Token) (ts : List Token) :
    trail (t :: ts) = trail ts ++ if t.kind.isTrivia then [] else [t.kind] := by
  unfold trail
  rw [List.filter_cons]
  cases t.kind.isTrivia <;> simp

/-- A piece of trivia takes the place of one of the same text. -/
theorem gap_single {k : Kind} {t u : Token} (ht : t.kind.isTrivia = true)
    (hk : u.kind = t.kind) (htext : u.text = t.text) (hg : S.blanks [t] [u]) :
    S.Gap b k [t] [u] where
  ne_nil := List.cons_ne_nil t []
  ne_nil' := List.cons_ne_nil u []
  trivia v hv := List.mem_singleton.mp hv ▸ ht
  passed v hv := .inl (by rw [List.mem_singleton.mp hv, hk, ht])
  tight _ v hv := by rw [List.mem_singleton.mp hv, hk, ht]
  firm _ := by simp [lineEnds, hk]
  same := by
    rw [Token.textOf_cons, Token.textOf_cons, htext]
    exact S.same_refl _
  blanks := hg

/-- The same lexemes at two places, in front of respaced tokens. -/
theorem respaced_placed (hf : ∀ vs, S.fits vs) (hg : ∀ t u, S.blanks [t] [u])
    (ht : ∀ x ∈ xs, x.kind.isTrivia = false → ∀ p q, S.token (.ofLexeme x p) (.ofLexeme x q))
    {p : Position} (q : Position)
    (more : Respaced S (trail (Token.placed p xs) ++ b) ts us) :
    Respaced S b (Token.placed p xs ++ ts) (Token.placed q xs ++ us) := by
  induction xs generalizing p q b with
  | nil => exact more
  | cons x xs ih =>
    rw [Token.placed, trail_cons, List.append_assoc] at more
    have hrest := ih (fun y hy => ht y (List.mem_cons_of_mem x hy)) (q.advance x.text) more
    cases hx : x.kind.isTrivia with
    | true =>
      rw [show (Token.ofLexeme x p).kind = x.kind from rfl, hx] at hrest
      have hgap := gap_single (S := S) (b := b)
        (k := nextKind (Token.placed (p.advance x.text) xs ++ ts)) (t := .ofLexeme x p)
        (u := .ofLexeme x q) hx rfl rfl (hg _ _)
      have hgapped := Respaced.gap hgap hrest
      exact hgapped
    | false =>
      rw [show (Token.ofLexeme x p).kind = x.kind from rfl, hx] at hrest
      exact .token (hf _) (ht x List.mem_cons_self hx p q) hrest

end Tokens
end HeaderOutline
