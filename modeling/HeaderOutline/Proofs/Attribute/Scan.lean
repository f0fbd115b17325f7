import HeaderOutline.Proofs.Alike.Front
import HeaderOutline.Proofs.Faithful

/-! # The tokens of an attribute

An attribute that stands in front of a declaration (`Text.attributed`) is cut as it is by
itself, since a bracket behind it continues no lexeme (`Lexeme.Faithful.append_closer`); and
the declaration is cut as it is by itself, but for blanks at its start
(`Lexeme.cuts_attributed`).  So the tokens are alike (`Token.exists_attributed`).
-/
namespace HeaderOutline

/-- A declaration behind an attribute. -/
def Text.attributed (inner declaration : Text) : Text :=
  "[[".toList ++ inner ++ "]] ".toList ++ declaration

/-! ## Lexemes before a closing bracket -/

namespace Lexeme

variable {c : Char} {v w : Text} {xs ys : List Lexeme}

theorem Stops.takeWhile_append {p : Char → Bool} (h : Stops p w) (v : Text) :
    (v ++ w).takeWhile p = v.takeWhile p := by
  induction v with
  | nil => exact h.takeWhile
  | cons c v ih =>
    rw [List.cons_append, List.takeWhile_cons, List.takeWhile_cons, ih]

/-- Behind the closing quote of a literal anything may follow. -/
theorem closeQuote_append_right {quote : Char} (hq : quote ≠ '\\') {done : Text}
    (h : (closeQuote quote done v).1 = true) (w : Text) :
    closeQuote quote done (v ++ w) = (true, (closeQuote quote done v).2.1,
      (closeQuote quote done v).2.2 ++ w) := by
  fun_induction closeQuote quote done v with
  | case1 => cases h
  | case2 => cases h
  | case3 => cases h
  | case4 done c cs hc ih =>
    rw [List.cons_append, List.cons_append, closeQuote_escape quote done _ hc]
    exact ih h
  | case5 done c cs hn _ _ hquote =>
    have he : c ≠ '\\' := by
      rw [eq_of_beq hquote]
      exact hq
    rw [List.cons_append, closeQuote_plain quote done _ hn he, if_pos hquote]
  | case6 done c cs hn _ hesc hquote ih =>
    have he : c ≠ '\\' := by
      rintro rfl
      -- a backslash at the very end leaves the literal open
      cases cs with
      | nil => cases h
      | cons d ds => exact hesc d ds rfl rfl
    rw [List.cons_append, closeQuote_plain quote done _ hn he, if_neg hquote]
    exact ih h

theorem literal_append_right {quote : Char} {kind : Kind} {unclosed : Flaw} (hq : quote ≠ '\\')
    (h : (literal quote kind unclosed v).1.kind ≠ .error) (w : Text) :
    (literal quote kind unclosed (v ++ w)).1 = (literal quote kind unclosed v).1 := by
  have hclosed : (closeQuote quote [quote] v).1 = true := by
    unfold literal at h
    split at h
    · next he => rw [he]
    · exact absurd rfl h
  have happ := closeQuote_append_right hq hclosed w
  unfold literal
  cases hv : closeQuote quote [quote] v with
  | mk closed taken =>
    rw [hv] at hclosed happ
    obtain rfl : closed = true := hclosed
    rw [happ]

/-- A character that belongs to no number, to no word and to no operator behind its first
character, and that is no mark of a literal or a comment. -/
structure Ends [Alphabet] (d : Char) : Prop where
  number : mayContinueNumber d = false
  word : Text.continuesIdentifier d = false
  punct : ∀ p ∈ Punct.longestFirst, d ∉ p.spelling.tail
  marks : d ∉ ['/', '*', '"', '\'', '\\']

theorem symbol_append_of_notMem {d : Char} (hd : ∀ p ∈ Punct.longestFirst, d ∉ p.spelling.tail)
    (c : Char) (v w : Text) : (symbol c (v ++ d :: w)).1 = (symbol c v).1 := by
  cases v with
  | cons a v => exact symbol_congr rfl
  | nil =>
    have hread : Punct.read? (c :: d :: w) = Punct.read? [c] := by
      refine read?_congr fun p hp => ?_
      have hno := hd p hp
      generalize p.spelling = s at hno
      match s with
      | [] => rfl
      | [a] => rfl
      | a :: b :: s =>
        have hb : (b == d) = false := beq_false_of_ne fun hb => hno (hb ▸ List.mem_cons_self)
        simp [List.isPrefixOf, hb]
    unfold symbol
    rw [List.nil_append, hread]
    cases Punct.read? [c] <;> rfl

/-- The delimiters that close a bracket. -/
def closers : List Punct := [.rParen, .rBrace, .rBracket]

theorem exists_ends_of_closers [Alphabet] {p : Punct} (hp : p ∈ closers) :
    ∃ d, p.spelling = [d] ∧ Ends d ∧ isSpace d = false := by
  have hnumber : closers.all (fun p => p.spelling.all fun d => !mayContinueNumber d) = true := by
    decide +kernel
  have hword : closers.all (fun p => p.spelling.all fun d => !Text.continuesIdentifier d)
      = true := rfl
  have hpunct : closers.all (fun p => p.spelling.all fun d =>
      Punct.longestFirst.all fun q => !q.spelling.tail.contains d) = true := by decide +kernel
  have hmarks : closers.all (fun p => p.spelling.all fun d =>
      ['/', '*', '"', '\'', '\\'].contains d == false) = true := by decide +kernel
  obtain ⟨d, hd, hspace⟩ : ∃ d, p.spelling = [d] ∧ isSpace d = false := by
    simp only [closers, List.mem_cons, List.not_mem_nil, or_false] at hp
    rcases hp with rfl | rfl | rfl <;> exact ⟨_, rfl, rfl⟩
  have hmem : d ∈ p.spelling := hd ▸ List.mem_cons_self
  have hall : ∀ {f : Char → Bool}, closers.all (fun p => p.spelling.all f) = true → f d = true :=
    fun h => List.all_eq_true.mp (List.all_eq_true.mp h p hp) d hmem
  refine ⟨d, hd, ⟨?_, ?_, fun q hq => ?_, ?_⟩, hspace⟩
  · simpa using hall hnumber
  · simpa using hall hword
  · simpa using List.all_eq_true.mp (hall hpunct) q hq
  · simpa using hall hmarks

/-- **A lexeme before a character that ends lexemes**, if it is neither a mistake nor a comment, is
the same as without the character.  White space must end before a blank by itself. -/
theorem next_append_ends [Alphabet] {d : Char} (hd : Ends d)
    (hblank : (next c v).1.kind = .whitespace → isSpace d = false ∨ (next c v).2 ≠ [])
    (hk : (next c v).1.kind ≠ .error) (hc : (next c v).1.kind.isComment = false) (w : Text) :
    next c (v ++ d :: w) = ((next c v).1, (next c v).2 ++ d :: w) := by
  suffices hfst : (next c (v ++ d :: w)).1 = (next c v).1 by
    have hv := next_append c v
    have hw := next_append c (v ++ d :: w)
    rw [hfst, ← List.cons_append, ← hv, List.append_assoc] at hw
    exact Prod.ext hfst (List.append_cancel_left hw)
  have hslash : ∀ a ∈ ['/', '*'], ((v ++ d :: w).head? == some a) = (v.head? == some a) := by
    intro a ha
    cases v with
    | nil =>
      refine beq_false_of_ne fun h => hd.marks ?_
      rw [Option.some.inj h]
      exact List.mem_append_left ['"', '\'', '\\'] ha
    | cons a v => rfl
  have hword : Stops Text.continuesIdentifier (d :: w) := .cons hd.word
  revert hblank hk hc
  unfold next
  rw [hslash '/' (by decide), hslash '*' (by decide)]
  split
  · exact fun _ _ _ => rfl
  split
  · intro hblank _ _
    rcases hblank rfl with hspace | hmore
    · rw [Stops.takeWhile_append (.cons hspace)]
    · rw [List.takeWhile_append, if_neg]
      intro hall
      have hlen := congrArg List.length (List.takeWhile_append_dropWhile (p := isSpace) (l := v))
      rw [List.length_append, hall] at hlen
      have hnil : (v.dropWhile isSpace).length = 0 := by omega
      exact hmore (List.eq_nil_of_length_eq_zero hnil)
  split
  · intro _ _ hc
    cases hc.symm.trans (lineCommentKind_isComment _)
  split
  · intro _ hk hc
    revert hk hc
    split
    · intro _ hc
      cases hc.symm.trans (blockCommentKind_isComment _)
    · exact fun hk => absurd rfl hk
  split
  · next hq => exact fun _ hk _ => literal_append_right (by rw [eq_of_beq hq]; decide) hk _
  split
  · next hq => exact fun _ hk _ => literal_append_right (by rw [eq_of_beq hq]; decide) hk _
  split
  · intro _ _ _
    show sound .number (closeNumber [c] _).1 = sound .number (closeNumber [c] _).1
    rw [closeNumber_append_stop hd.number]
  split
  · intro _ _ _
    rw [hword.takeWhile_append]
  · exact fun _ _ _ => symbol_append_of_notMem hd.punct c v w

/-- Lexemes without mistakes and comments are the same before a character that ends them.  White
space must not be the last one before a blank. -/
theorem Faithful.cuts_ends [Alphabet] {d : Char} (hd : Ends d) (h : Faithful xs)
    (hs : ∀ x ∈ xs, x.kind ≠ .error ∧ x.kind.isComment = false)
    (hlast : isSpace d = false ∨ ∀ x ∈ xs.getLast?, x.kind ≠ .whitespace) (w : Text) :
    Cuts (textOf xs ++ d :: w) xs (d :: w) := by
  unfold Faithful at h
  generalize textOf xs = t at h
  generalize hend : ([] : Text) = e at h
  induction h with
  | none =>
    subst hend
    exact .none _
  | @next c cs e xs more ih =>
    subst hend
    obtain ⟨hk, hc⟩ := hs _ List.mem_cons_self
    have hrest : isSpace d = false ∨ ∀ x ∈ xs.getLast?, x.kind ≠ .whitespace := by
      refine hlast.imp_right fun hx x hmem => hx x ?_
      rw [List.getLast?_cons, Option.mem_def.mp hmem]
      rfl
    have hmore := ih (fun x hx => hs x (List.mem_cons_of_mem _ hx)) hrest rfl
    have hblank : (next c cs).1.kind = .whitespace → isSpace d = false ∨ (next c cs).2 ≠ [] := by
      intro hspace
      refine hlast.imp_right fun hx hnil => ?_
      rw [hnil] at more
      cases more
      exact hx _ rfl hspace
    have hnext := next_append_ends hd hblank hk hc w
    have hcut : Cuts (c :: (cs ++ d :: w)) ((next c (cs ++ d :: w)).1 :: xs) (d :: w) :=
      .next (by rw [hnext]; exact hmore)
    rwa [hnext] at hcut

/-- Lexemes without mistakes and comments are the same before a bracket that closes. -/
theorem Faithful.append_closer [Alphabet] {p : Punct} (hp : p ∈ closers) (h : Faithful xs)
    (hs : ∀ x ∈ xs, x.kind ≠ .error ∧ x.kind.isComment = false)
    (hb : Faithful (punct p :: ys)) : Faithful (xs ++ punct p :: ys) := by
  obtain ⟨d, hspelling, hd, hblank⟩ := exists_ends_of_closers hp
  have hbehind : textOf (punct p :: ys) = d :: textOf ys := by
    rw [textOf_cons, text_punct, hspelling]
    rfl
  unfold Faithful at hb ⊢
  rw [textOf_append, hbehind]
  exact (h.cuts_ends hd hs (.inl hblank) _).append (hbehind ▸ hb)

/-! ## A blank in front -/

/-- A blank in front of a text becomes part of the blanks that the text starts with. -/
theorem exists_cuts_blank [Alphabet] {t : Text} {zs : List Lexeme} (h : Cuts t zs []) :
    ∃ x ys, x.kind = .whitespace ∧ Cuts (' ' :: t) (x :: ys) [] ∧
      (zs = ys ∨ ∃ y, y.kind = .whitespace ∧ zs = y :: ys) := by
  have hspace : ∀ c cs, isSpace c = true →
      next c cs = (sound .whitespace (c :: cs.takeWhile isSpace), cs.dropWhile isSpace) := by
    intro c cs hc
    have hline : (c == '\n') = false := beq_false_of_ne fun hn => by
      rw [hn] at hc
      cases hc
    simp only [next, hline, hc, if_true, Bool.false_eq_true, if_false]
  have hcut : ∀ ys, Cuts (t.dropWhile isSpace) ys [] →
      Cuts (' ' :: t) (sound .whitespace (' ' :: t.takeWhile isSpace) :: ys) [] := by
    intro ys hys
    have hnext : Cuts (' ' :: t) ((next ' ' t).1 :: ys) [] :=
      .next (by rw [hspace ' ' t rfl]; exact hys)
    rwa [hspace ' ' t rfl] at hnext
  by_cases hstart : Stops isSpace t
  · refine ⟨_, zs, rfl, hcut zs ?_, .inl rfl⟩
    rw [hstart.dropWhile]
    exact h
  · cases h with
    | none => exact absurd .nil hstart
    | @next c cs _ zs more =>
      have hc : isSpace c = true := by
        rw [← Bool.not_eq_false]
        exact fun hc => hstart (.cons hc)
      rw [hspace c cs hc] at more ⊢
      refine ⟨_, zs, rfl, hcut zs ?_, .inr ⟨_, rfl, rfl⟩⟩
      rw [List.dropWhile_cons_of_pos hc]
      exact more

/-- **An attribute in front of a declaration** is cut as both are by themselves. -/
theorem cuts_attributed [Alphabet] {inner declaration : Text} {zs : List Lexeme}
    (hx : Cuts inner xs []) (hs : ∀ x ∈ xs, x.kind ≠ .error ∧ x.kind.isComment = false)
    (hz : Cuts declaration zs []) :
    ∃ x ys, x.kind = .whitespace ∧ (zs = ys ∨ ∃ y, y.kind = .whitespace ∧ zs = y :: ys) ∧
      Cuts (Text.attributed inner declaration) (punct .lBracket :: punct .lBracket ::
        (xs ++ punct .rBracket :: punct .rBracket :: x :: ys)) [] := by
  obtain ⟨x, ys, hblank, hcuts, hys⟩ := exists_cuts_blank hz
  refine ⟨x, ys, hblank, hys, ?_⟩
  have htext : textOf (x :: ys) = ' ' :: declaration := by simpa using hcuts.append_eq
  obtain rfl : textOf xs = inner := by simpa using hx.append_eq
  have hbehind : Faithful (x :: ys) := by
    unfold Faithful
    rwa [htext]
  have hclose := (hbehind.delimiter (p := .rBracket) (by decide)).delimiter (p := .rBracket)
    (by decide)
  have hinner := Faithful.append_closer (p := .rBracket) (by decide) hx hs hclose
  have hopen := (hinner.delimiter (p := .lBracket) (by decide)).delimiter (p := .lBracket)
    (by decide)
  unfold Faithful at hopen
  have hspelled : textOf (punct .lBracket :: punct .lBracket ::
      (xs ++ punct .rBracket :: punct .rBracket :: x :: ys))
        = Text.attributed (textOf xs) declaration := by
    rw [textOf_cons, textOf_cons, textOf_append, textOf_cons, textOf_cons, htext,
      show (punct .lBracket).text = ['['] from rfl, show (punct .rBracket).text = [']'] from rfl,
      Text.attributed]
    simp
  rwa [hspelled] at hopen

end Lexeme

/-! ## Tokens -/

/-- All tokens are an attribute, of which some tokens stand within the brackets, and others
behind it. -/
inductive Tokens.Attributed (inner behind : List Token) : List Token → Prop
  | intro {a b c d : Token} (ha : a.kind = .punct .lBracket) (hb : b.kind = .punct .lBracket)
    (hc : c.kind = .punct .rBracket) (hd : d.kind = .punct .rBracket) :
    Attributed inner behind (a :: b :: (inner ++ c :: d :: behind))

namespace Token

/-- A token of a text that starts at one place and is moved to another. -/
def moved (p q : Position) (w : Text) (t : Token) : Token :=
  { t with start := q.advance ((w.slice? ⟨0, t.start.offset - p.offset⟩).getD []) }

instance alike_moved (p q : Position) (w : Text) : Alike (moved p q w) where
  kind _ := rfl
  text _ := rfl

theorem map_moved {p q : Position} {u w : Text} {xs : List Lexeme}
    (h : w = u ++ Lexeme.textOf xs) :
    (placed (p.advance u) xs).map (moved p q w) = placed (q.advance u) xs := by
  induction xs generalizing u with
  | nil => rfl
  | cons x xs ih =>
    have hslice : w.slice? ⟨0, u.size⟩ = some u := by
      rw [h]
      exact Text.slice?_append [] u _
    have hoffset : (p.advance u).offset - p.offset = u.size := by
      rw [Position.advance_offset]
      omega
    have hfirst : moved p q w (ofLexeme x (p.advance u)) = ofLexeme x (q.advance u) := by
      unfold moved
      rw [show (ofLexeme x (p.advance u)).start = p.advance u from rfl, hoffset, hslice]
      rfl
    rw [placed, placed, List.map_cons, hfirst, ← Position.advance_append,
      ← Position.advance_append, ih (by rw [h, Lexeme.textOf_cons, List.append_assoc])]

/-- Lexemes put at two places are alike. -/
theorem exists_alike_placed (p q : Position) (xs : List Lexeme) :
    ∃ f, Alike f ∧ (placed p xs).map f = placed q xs :=
  ⟨moved p q (Lexeme.textOf xs), inferInstance, map_moved (u := []) rfl⟩

theorem map_kind_placed (p : Position) (xs : List Lexeme) :
    (placed p xs).map (·.kind) = xs.map (·.kind) := by
  induction xs generalizing p with
  | nil => rfl
  | cons x xs ih => exact congrArg (x.kind :: ·) (ih _)

variable {l : Limits} {inner declaration : Text}

/-- The lexemes of a text within an attribute. -/
theorem exists_cuts_inner [Alphabet]
    (h : ∀ t ∈ scan l inner, t.kind ≠ .error ∧ t.kind.isComment = false) :
    ∃ xs, Lexeme.Cuts inner xs [] ∧ (∀ x ∈ xs, x.kind ≠ .error ∧ x.kind.isComment = false) ∧
      (scan l inner).dropLast = placed .origin xs := by
  have hany : (scan l inner).any isError = false := by
    rw [← Bool.not_eq_true, List.any_eq_true]
    rintro ⟨t, ht, he⟩
    exact (h t ht).1 (eq_of_beq he)
  obtain ⟨xs, hcuts, hscan⟩ := scan_eq_placed hany
  have htokens : (scan l inner).dropLast = placed .origin xs := by
    rw [hscan, List.dropLast_concat]
  refine ⟨xs, hcuts, fun x hx => ?_, htokens⟩
  have hkind := List.mem_map_of_mem hx (f := Lexeme.kind)
  rw [← map_kind_placed .origin, ← htokens] at hkind
  obtain ⟨t, ht, hk⟩ := List.mem_map.mp hkind
  exact hk ▸ h t (List.dropLast_subset _ ht)

/-- The lexemes of a text without mistakes are no mistakes. -/
theorem exists_cuts_of_scan [Alphabet] (h : (scan l declaration).any isError = false) :
    ∃ zs, Lexeme.Cuts declaration zs [] ∧ zs.all (·.kind != .error) = true ∧
      (scan l declaration).dropLast = placed .origin zs := by
  obtain ⟨zs, hcuts, hscan⟩ := scan_eq_placed h
  have htokens : (scan l declaration).dropLast = placed .origin zs := by
    rw [hscan, List.dropLast_concat]
  refine ⟨zs, hcuts, List.all_eq_true.mpr fun z hz => bne_iff_ne.mpr fun he => ?_, htokens⟩
  have hkind := List.mem_map_of_mem hz (f := Lexeme.kind)
  rw [← map_kind_placed .origin, ← htokens] at hkind
  obtain ⟨t, ht, hk⟩ := List.mem_map.mp hkind
  have herror : (scan l declaration).any isError = true :=
    List.any_eq_true.mpr ⟨t, List.dropLast_subset _ ht, beq_iff_eq.mpr (hk.trans he)⟩
  cases h.symm.trans herror

/-- An attribute in front of a declaration makes no mistake. -/
theorem any_isError_attributed [Alphabet]
    (hi : ∀ t ∈ scan l inner, t.kind ≠ .error ∧ t.kind.isComment = false)
    (hd : (scan l declaration).any isError = false)
    (hl : l.Admits (Text.attributed inner declaration)) :
    (scan l (Text.attributed inner declaration)).any isError = false := by
  obtain ⟨xs, hxs, hsound, -⟩ := exists_cuts_inner hi
  obtain ⟨zs, hzs, hall, -⟩ := exists_cuts_of_scan hd
  obtain ⟨x, ys, hblank, hys, hcuts⟩ := Lexeme.cuts_attributed hxs hsound hzs
  refine (scan_of_cuts hcuts ?_ hl).1
  have hinner : xs.all (·.kind != .error) = true :=
    List.all_eq_true.mpr fun x hx => bne_iff_ne.mpr (hsound x hx).1
  have hbehind : ys.all (·.kind != .error) = true := by
    rcases hys with rfl | ⟨y, -, rfl⟩
    · exact hall
    · exact (Bool.and_eq_true_iff.mp hall).2
  simp only [List.all_cons, List.all_append, hinner, hbehind, hblank]
  rfl

/-- **The tokens of an attribute in front of a declaration** are like those of both by
themselves, but for blanks in front of the declaration. -/
theorem exists_attributed [Alphabet]
    (hi : ∀ t ∈ scan l inner, t.kind ≠ .error ∧ t.kind.isComment = false)
    (hd : (scan l declaration).any isError = false)
    (hs : (scan l (Text.attributed inner declaration)).any isError = false) :
    ∃ f g blank us, Alike f ∧ Alike g ∧ blank.kind = .whitespace ∧
      Tokens.skipTrivia us = Tokens.skipTrivia (scan l declaration).dropLast ∧
      Tokens.Attributed ((scan l inner).dropLast.map f) (blank :: us.map g)
        (scan l (Text.attributed inner declaration)).dropLast := by
  obtain ⟨xs, hxs, hsound, hinner⟩ := exists_cuts_inner hi
  obtain ⟨zs, hzs, -, hdeclaration⟩ := exists_cuts_of_scan hd
  obtain ⟨ws, hws, -, hall⟩ := exists_cuts_of_scan hs
  obtain ⟨x, ys, hblank, hys, hcuts⟩ := Lexeme.cuts_attributed hxs hsound hzs
  obtain rfl := hcuts.unique hws
  have hsplit : Tokens.Attributed (placed (Position.origin.advance "[[".toList) xs)
      (placed (Position.origin.advance ("[[".toList ++ Lexeme.textOf xs ++ "]]".toList)) (x :: ys))
      (placed .origin (.punct .lBracket :: .punct .lBracket ::
        (xs ++ .punct .rBracket :: .punct .rBracket :: x :: ys))) := by
    simp only [placed, placed_append, Position.advance_append]
    exact .intro rfl rfl rfl rfl
  obtain ⟨f, hf, hfmap⟩ := exists_alike_placed .origin (Position.origin.advance "[[".toList) xs
  rw [hinner, hdeclaration, hall]
  rw [← hfmap, placed] at hsplit
  generalize Position.advance _ x.text = q at hsplit
  -- the lexemes of the declaration start behind its own blanks
  obtain ⟨p, hskip⟩ : ∃ p, Tokens.skipTrivia (placed p ys)
      = Tokens.skipTrivia (placed .origin zs) := by
    rcases hys with rfl | ⟨y, hy, rfl⟩
    · exact ⟨_, rfl⟩
    · exact ⟨_, (Tokens.skipTrivia_of_whitespace hy).symm⟩
  obtain ⟨g, hg, hgmap⟩ := exists_alike_placed p q ys
  rw [← hgmap] at hsplit
  exact ⟨f, g, _, placed p ys, hf, hg, hblank, hskip, hsplit⟩

end Token
end HeaderOutline
