import HeaderOutline.Proofs.Nesting
import HeaderOutline.Proofs.Respaced.Moved
import HeaderOutline.Text.Unicode

/-! # White space between tokens

Outside of directives it makes no difference whether white space ends a line, but at few places:
behind `public` in front of its colon, within the symbol of an operator, behind `inline` in
front of a qualified name, and behind a parenthesis that opens a declarator
(`Trail.keepsLines`).  Anywhere else a line may be broken (`parse_line_end`).

A comment is not passed over everywhere.  It may stand in parentheses, and behind a token with
which no name and no type goes on (`Trail.admitsComment`); there it adds nothing but an entity
of its own at most (`parse_comment_between`).
-/
namespace HeaderOutline

open Tokens

/-! ## Broken lines -/

/-- Outlines of the same entities, one by one. -/
def Outline.Matches (o o' : Outline) : Prop :=
  List.Forall₂ (fun e e' => e.Resembles e' ∧ e'.parent = e.parent) o.entities.toList
    o'.entities.toList

section

variable {options : Options} {file : String} {source : Text} {o : Outline}
  {front behind : List Token} {w : Token}

theorem Lexeme.cuts_newline [Alphabet] (t : Text) : Cuts ('\n' :: t) [sound .newline ['\n']] t :=
  .next (.none t)

/-- **A line may be broken** at white space, unless it is looked there whether the line ends:
then the header is read as before. -/
theorem parse_line_end [Alphabet] (hm : options.predefined = [])
    (h : parse options file source = .ok o) (hd : o.diagnostics = #[])
    (hs : ∀ t ∈ Token.scan options.limits source, t.kind ≠ .punct .hash ∧ t.kind.isComment = false)
    (hw : (Token.scan options.limits source).dropLast = front ++ w :: behind)
    (hk : w.kind = .whitespace)
    (hplace : (trail front).keepsLines (nextKind behind) = false)
    (hl : options.limits.Admits (Token.textOf front ++ '\n' :: Token.textOf behind)) :
    ∃ o', parse options file (Token.textOf front ++ '\n' :: Token.textOf behind) = .ok o' ∧
      o'.diagnostics = #[] ∧ o.Matches o' := by
  have hfirm : ∀ b k, Trail.keepsLines b k = true → Trail.keepsLines b k = true :=
    fun _ _ h => h
  have hstrict : Respacing.IsStrict (.moving (fun b k => Trail.keepsLines b k = true)
    (fun _ _ => False) hfirm (fun _ _ => False.elim)) := fun _ _ h => h
  have hgap : ∀ p, Respacing.Gap (.moving (fun b k => Trail.keepsLines b k = true)
      (fun _ _ => False) hfirm (fun _ _ => False.elim)) (trail front) (nextKind behind) [w]
      (Token.placed p [.sound .newline ['\n']]) := by
    intro p
    refine ⟨List.cons_ne_nil _ _, List.cons_ne_nil _ _, ?_, ?_, ?_, ?_, trivial, trivial⟩
    · simp [hk, Kind.isTrivia]
    · simp [Token.placed, Token.ofLexeme, Lexeme.sound, Kind.isTrivia]
    · simp [Token.placed, Token.ofLexeme, Lexeme.sound, Kind.isTrivia]
    · intro hkeeps
      cases hplace.symm.trans hkeeps
  obtain ⟨o', m, h', hd', hsame⟩ := parse_of_gap (t := []) hm h hd hs hw hk (.inr rfl)
    (fun _ => Lexeme.cuts_newline _) rfl hgap hl
  exact ⟨o', h', hd', (hsame.forall₂ hstrict).imp fun _ _ he => ⟨he.1.resembles, he.2⟩⟩

/-- A line is broken behind `namespace`. -/
theorem parse_line_end_namespace :
    ∃ o o', parse .standard "a.h" "namespace n { int x; }".toList = .ok o ∧
      o.diagnostics = #[] ∧ parse .standard "a.h" "namespace\nn { int x; }".toList = .ok o' ∧
      o'.diagnostics = #[] ∧ o.Matches o' := by
  obtain ⟨o, h, hd⟩ := exists_of_toOption_any (p := (·.diagnostics == #[]))
    (x := parse .standard "a.h" "namespace n { int x; }".toList) (by decide +kernel)
  have hsplit := Token.split_at 1
    (show 1 < (Token.scan .standard "namespace n { int x; }".toList).dropLast.length by
      decide +kernel)
  have htext :
      Token.textOf ((Token.scan .standard "namespace n { int x; }".toList).dropLast.take 1)
        ++ '\n' :: Token.textOf
          ((Token.scan .standard "namespace n { int x; }".toList).dropLast.drop 2)
        = "namespace\nn { int x; }".toList := by decide +kernel
  obtain ⟨o', h', hd', hmatches⟩ := parse_line_end rfl h (eq_of_beq hd) (by decide +kernel) hsplit
    (by decide +kernel) (by decide +kernel) (by
      unfold Limits.Admits
      decide +kernel)
  rw [htext] at h'
  exact ⟨o, o', h, eq_of_beq hd, h', hd', hmatches⟩

/-- The colon behind `public` is not found on the next line. -/
theorem parse_line_end_access_fails :
    ∃ o front w behind, parse .standard "a.h" "class A { public : int x; };".toList = .ok o ∧
      o.diagnostics = #[] ∧ (∀ t ∈ Token.scan .standard "class A { public : int x; };".toList,
        t.kind ≠ .punct .hash ∧ t.kind.isComment = false) ∧
      (Token.scan .standard "class A { public : int x; };".toList).dropLast
        = front ++ w :: behind ∧ w.kind = .whitespace ∧
      Limits.standard.Admits (Token.textOf front ++ '\n' :: Token.textOf behind) ∧
      ¬∃ o', parse .standard "a.h" (Token.textOf front ++ '\n' :: Token.textOf behind) = .ok o' ∧
        o'.diagnostics = #[] ∧ o.Matches o' := by
  obtain ⟨o, h, hd⟩ := exists_of_toOption_any (p := (·.diagnostics == #[]))
    (x := parse .standard "a.h" "class A { public : int x; };".toList) (by decide +kernel)
  obtain ⟨o₁, h₁, hd₁⟩ := exists_of_toOption_any (p := (·.diagnostics.size == 1))
    (x := parse .standard "a.h" "class A \x7b public\n: int x; \x7d;".toList) (by decide +kernel)
  have htext : Token.textOf
        ((Token.scan .standard "class A { public : int x; };".toList).dropLast.take 7)
      ++ '\n' :: Token.textOf
        ((Token.scan .standard "class A { public : int x; };".toList).dropLast.drop 8)
        = "class A \x7b public\n: int x; \x7d;".toList := by decide +kernel
  refine ⟨o, _, _, _, h, eq_of_beq hd, by decide +kernel, Token.split_at 7 (by decide +kernel),
    by decide +kernel, ?_, ?_⟩
  · rw [htext]
    unfold Limits.Admits
    decide +kernel
  · rw [htext]
    rintro ⟨o', h', hd', -⟩
    obtain rfl : o₁ = o' := Except.ok.inj (h₁.symm.trans h')
    rw [hd'] at hd₁
    cases hd₁

end

/-! ## Comments in between -/

namespace Outline

variable {o o' : Outline}

/-- The numbers of the entities that are no comments. -/
def declared (o : Outline) : Numbering :=
  (List.range o.entities.size).filter fun i => (o.get? i).any (·.kind != .comment)

theorem mem_declared {i : EntityId} {e : Entity} (he : o.get? i = some e) (hk : e.kind ≠ .comment) :
    i ∈ o.declared := by
  refine List.mem_filter.mpr ⟨List.mem_range.mpr (lt_size_of_get? he), ?_⟩
  rw [he, Option.any_some, bne_iff_ne]
  exact hk

/-- Outlines of the same entities, if comments are left aside: their numbers may differ, but
not their order. -/
def MatchesButComments (o o' : Outline) : Prop :=
  List.Forall₂ (fun i j => ∃ e e', o.get? i = some e ∧ o'.get? j = some e' ∧ e.Resembles e' ∧
      Option.Rel (fun p q => ∃ n : Nat, o.declared[n]? = some p ∧ o'.declared[n]? = some q)
        e.parent e'.parent)
    o.declared o'.declared

variable {S : Respacing} {m : Numbering}

/-- Entities that are no comments have their numbers in the numbering. -/
theorem Respaced.declared (h : Outline.Respaced S m o o') :
    List.Forall₂ (fun i j => m[i]? = some j) o.declared o'.declared := by
  have hfilter : o'.declared = m.filter fun j => (o'.get? j).any (·.kind != .comment) := by
    have hmem : ∀ j, j ∈ o'.declared ↔
        j ∈ m.filter fun j => (o'.get? j).any (·.kind != .comment) := by
      intro j
      rw [Outline.declared, List.mem_filter, List.mem_filter, List.mem_range]
      refine and_congr_left fun hj => ⟨fun hlt => ?_, h.lt_of_mem⟩
      rw [Outline.get?, Array.getElem?_eq_getElem hlt, Option.any_some, bne_iff_ne] at hj
      exact (h.other j _ (Array.getElem?_eq_getElem hlt)).resolve_right fun hc => hj hc.1
    have hsorted : o'.declared.Pairwise (· < ·) := List.pairwise_lt_range.filter _
    have hsorted' := h.sorted.filter fun j => (o'.get? j).any (·.kind != .comment)
    refine ((List.perm_ext_iff_of_nodup (hsorted.imp Nat.ne_of_lt)
      (hsorted'.imp Nat.ne_of_lt)).mpr hmem).eq_of_pairwise (fun a b _ _ hab hba => ?_)
      hsorted hsorted'
    exact absurd (Nat.lt_trans hab hba) (Nat.lt_irrefl a)
  have hall : List.Forall₂ (fun i j => m[i]? = some j) (List.range o.entities.size) m := by
    refine List.forall₂_iff_get.mpr ⟨by rw [List.length_range, h.length], fun i hi hi' => ?_⟩
    rw [List.get_eq_getElem, List.getElem_range]
    exact List.getElem?_eq_getElem hi'
  rw [hfilter]
  refine List.rel_filter (fun i j hij => ?_) hall
  obtain ⟨e, e', he, he', hsame⟩ := h.entity i j hij
  dsimp only
  rw [he, he', Option.any_some, Option.any_some, hsame.kind]

/-- No parent is a comment. -/
theorem Respaced.parent_mem_declared (h : Outline.Respaced S m o o') (ho : o.Open)
    {i p q : EntityId} (hp : o.parent? i = some p) (hq : m[p]? = some q) : p ∈ o.declared := by
  obtain ⟨e, -, he, -, -⟩ := h.entity p q hq
  refine mem_declared he fun hk => ?_
  rcases Nat.eq_zero_or_pos p with rfl | hpos
  · obtain ⟨r, hr, hroot⟩ := h.header
    obtain rfl : e = r := Option.some.inj (he.symm.trans hr)
    cases hroot.symm.trans hk
  · have htransparent := (ho i p e hp hpos he).1
    rw [hk] at htransparent
    cases htransparent

end Outline

/-- Readings that differ in comments have the same entities otherwise. -/
theorem Outline.Respaced.matchesButComments {firm loose : Trail → Kind → Prop}
    {hfirm : ∀ b k, Trail.keepsLines b k = true → firm b k}
    {hloose : ∀ b k, loose b k → Trail.admitsComment b k = true} {m : Numbering} {o o' : Outline}
    (h : Outline.Respaced (.moving firm loose hfirm hloose) m o o') (ho : o.Open) :
    o.MatchesButComments o' := by
  have hdeclared := h.declared
  refine hdeclared.imp fun i j hij => ?_
  obtain ⟨e, e', he, he', hsame⟩ := h.entity i j hij
  refine ⟨e, e', he, he', hsame.resembles, ?_⟩
  have hparent : ∀ p, e.parent = some p → o.parent? i = some p := by
    intro p hp
    rw [Outline.parent?, he, Option.bind_some, hp]
  have hrel := hsame.parent
  generalize e.parent = p, e'.parent = p' at hrel hparent ⊢
  cases hrel with
  | none => exact .none
  | @some p q hpq =>
    obtain ⟨n, hn⟩ := List.getElem?_of_mem (h.parent_mem_declared ho (hparent p rfl) hpq)
    obtain ⟨hlt, rfl⟩ := List.getElem?_eq_some_iff.mp hn
    have hlt' : n < o'.declared.length := hdeclared.length_eq ▸ hlt
    have hnq := hdeclared.get hlt hlt'
    rw [List.get_eq_getElem, hpq, List.get_eq_getElem] at hnq
    exact .some ⟨n, hn, by rw [Option.some.inj hnq, List.getElem?_eq_getElem hlt']⟩

section

variable {options : Options} {file : String} {source : Text} {o : Outline}
  {front behind : List Token} {w : Token}

/-- A block comment between blanks. -/
theorem Lexeme.cuts_comment [Alphabet] {t : Text} (h : Stops isSpace t) :
    Cuts (" /*c*/ ".toList ++ t)
      [blanks 1, sound .blockComment "/*c*/".toList, blanks 1] t := by
  have hblank : next ' ' t = (blanks 1, t) := by
    simp only [next, show (' ' == '\n') = false from rfl, show isSpace ' ' = true from rfl,
      Bool.false_eq_true, if_false, if_true, h.takeWhile, h.dropWhile]
    rfl
  have hlast : Cuts (' ' :: t) [blanks 1] t := by
    have hcut : Cuts (' ' :: t) [(next ' ' t).1] t := .next (by rw [hblank]; exact .none t)
    rwa [hblank] at hcut
  have hcomment : Cuts ('/' :: ("*c*/ ".toList ++ t))
      [sound .blockComment "/*c*/".toList, blanks 1] t := .next hlast
  show Cuts (' ' :: ("/*c*/ ".toList ++ t)) _ t
  exact .next hcomment

/-- **A comment may stand between two tokens** where the place admits it: then it changes
nothing but that it may be an entity itself. -/
theorem parse_comment_between [Alphabet] (hm : options.predefined = [])
    (h : parse options file source = .ok o) (hd : o.diagnostics = #[])
    (hs : ∀ t ∈ Token.scan options.limits source, t.kind ≠ .punct .hash ∧ t.kind.isComment = false)
    (hw : (Token.scan options.limits source).dropLast = front ++ w :: behind)
    (hk : w.kind = .whitespace)
    (hplace : (trail front).admitsComment (nextKind behind) = true)
    (hl : options.limits.Admits
      (Token.textOf front ++ (" /*c*/ ".toList ++ Token.textOf behind))) :
    ∃ o', parse options file (Token.textOf front ++ (" /*c*/ ".toList ++ Token.textOf behind))
        = .ok o' ∧ o'.diagnostics = #[] ∧ o.MatchesButComments o' := by
  have hgap : ∀ p, Respacing.Gap (.moving (fun _ _ => True)
      (fun b k => Trail.admitsComment b k = true) (fun _ _ _ => trivial) (fun _ _ h => h))
      (trail front) (nextKind behind) [w]
      (Token.placed p [.blanks 1, .sound .blockComment "/*c*/".toList, .blanks 1]) := by
    intro p
    refine ⟨List.cons_ne_nil _ _, List.cons_ne_nil _ _, ?_, ?_, ?_, ?_, trivial, trivial⟩
    · simp [hk, Kind.isTrivia]
    · simp [Token.placed, Token.ofLexeme, Lexeme.sound, Lexeme.blanks, Kind.isTrivia]
    · exact fun hn => absurd hplace hn
    · intro _
      simp [Token.placed, Token.ofLexeme, Lexeme.sound, Lexeme.blanks, lineEnds, hk]
  obtain ⟨o', m, h', hd', hsame⟩ := parse_of_gap (d := ' ') (t := "/*c*/ ".toList) hm h hd hs hw hk
    (.inl rfl) Lexeme.cuts_comment rfl hgap hl
  exact ⟨o', h', hd', hsame.matchesButComments (parse_nested h).open⟩

/-- A comment stands between two parameters. -/
theorem parse_comment_between_parameters :
    ∃ o o', parse .standard "a.h" "int f(int a, int b);".toList = .ok o ∧ o.diagnostics = #[] ∧
      parse .standard "a.h" "int f(int a, /*c*/ int b);".toList = .ok o' ∧ o'.diagnostics = #[] ∧
      o.MatchesButComments o' := by
  obtain ⟨o, h, hd⟩ := exists_of_toOption_any (p := (·.diagnostics == #[]))
    (x := parse .standard "a.h" "int f(int a, int b);".toList) (by decide +kernel)
  have hsplit := Token.split_at 8
    (show 8 < (Token.scan .standard "int f(int a, int b);".toList).dropLast.length by
      decide +kernel)
  have htext : Token.textOf ((Token.scan .standard "int f(int a, int b);".toList).dropLast.take 8)
      ++ (" /*c*/ ".toList ++ Token.textOf
        ((Token.scan .standard "int f(int a, int b);".toList).dropLast.drop 9))
        = "int f(int a, /*c*/ int b);".toList := by decide +kernel
  obtain ⟨o', h', hd', hmatches⟩ := parse_comment_between rfl h (eq_of_beq hd) (by decide +kernel)
    hsplit (by decide +kernel) (by decide +kernel) (by
      unfold Limits.Admits
      decide +kernel)
  rw [htext] at h'
  exact ⟨o, o', h, eq_of_beq hd, h', hd', hmatches⟩

/-- No name is found behind a comment that follows `namespace`. -/
theorem parse_comment_between_namespace_fails :
    ∃ o front w behind, parse .standard "a.h" "namespace n { int x; }".toList = .ok o ∧
      o.diagnostics = #[] ∧ (∀ t ∈ Token.scan .standard "namespace n { int x; }".toList,
        t.kind ≠ .punct .hash ∧ t.kind.isComment = false) ∧
      (Token.scan .standard "namespace n { int x; }".toList).dropLast = front ++ w :: behind ∧
      w.kind = .whitespace ∧
      Limits.standard.Admits (Token.textOf front ++ (" /*c*/ ".toList ++ Token.textOf behind)) ∧
      ¬∃ o', parse .standard "a.h"
          (Token.textOf front ++ (" /*c*/ ".toList ++ Token.textOf behind)) = .ok o' ∧
        o'.diagnostics = #[] ∧ o.MatchesButComments o' := by
  obtain ⟨o, h, hd⟩ := exists_of_toOption_any (p := (·.diagnostics == #[]))
    (x := parse .standard "a.h" "namespace n { int x; }".toList) (by decide +kernel)
  obtain ⟨o₁, h₁, hd₁⟩ := exists_of_toOption_any (p := (·.diagnostics.size == 1))
    (x := parse .standard "a.h" "namespace /*c*/ n { int x; }".toList) (by decide +kernel)
  have htext : Token.textOf
        ((Token.scan .standard "namespace n { int x; }".toList).dropLast.take 1)
      ++ (" /*c*/ ".toList ++ Token.textOf
        ((Token.scan .standard "namespace n { int x; }".toList).dropLast.drop 2))
        = "namespace /*c*/ n { int x; }".toList := by decide +kernel
  refine ⟨o, _, _, _, h, eq_of_beq hd, by decide +kernel, Token.split_at 1 (by decide +kernel),
    by decide +kernel, ?_, ?_⟩
  · rw [htext]
    unfold Limits.Admits
    decide +kernel
  · rw [htext]
    rintro ⟨o', h', hd', -⟩
    obtain rfl : o₁ = o' := Except.ok.inj (h₁.symm.trans h')
    rw [hd'] at hd₁
    cases hd₁

end

end HeaderOutline
