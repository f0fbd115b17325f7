import HeaderOutline.Proofs.Core.Grammar
import HeaderOutline.Proofs.Faithful

/-! # How core headers are spelled

The text of a core header is cut into the lexemes that it was made of
(`Core.Decls.cuts_spell`): a word is followed by a blank or a delimiter, which does not
continue it, and blanks are followed by something else.  So the tokens of the text are these
lexemes, one behind the other, unless the text goes beyond a limit
(`Token.scan_of_cuts`).
-/
namespace HeaderOutline

variable [Alphabet]

namespace Core

/-- A name is cut off as an identifier. -/
theorem Name.spelled (n : Name) : n.text.IsWord ∧ Lexeme.wordKind n.text = .ident := by
  obtain ⟨text, l, hl⟩ := n
  have hany : (Token.scan l text).any Token.isError = false := by
    rw [← Bool.not_eq_true, List.any_eq_true]
    rintro ⟨t, ht, he⟩
    have hk : t.kind ∈ [Kind.ident, .eof] := hl ▸ List.mem_map_of_mem ht
    have herror : t.kind = .error := eq_of_beq he
    rw [herror] at hk
    cases hk with
    | tail _ hk => cases List.mem_singleton.mp hk
  obtain ⟨xs, hcuts, hscan⟩ := Token.scan_eq_placed hany
  rw [hscan, List.map_append] at hl
  obtain ⟨x, rfl⟩ : ∃ x, xs = [x] := by
    cases xs with
    | nil => cases hl
    | cons x xs =>
      cases xs with
      | nil => exact ⟨x, rfl⟩
      | cons y ys => simp [Token.placed] at hl
  have hk : x.kind = .ident := (List.cons.inj hl).1
  cases hcuts with
  | @next c cs w xs more =>
    have happ := Lexeme.next_append c cs
    have hrest : (Lexeme.next c cs).2 = [] := by simpa using more.append_eq.symm
    rw [hrest, List.append_nil] at happ
    have hword := Lexeme.isWord_of_next hk
    rw [happ] at hword
    obtain ⟨d, ds, hd, ho⟩ := hword.opens
    obtain ⟨rfl, rfl⟩ := List.cons.inj hd
    refine ⟨hword, ?_⟩
    rw [Lexeme.next_of_opens ho] at hk happ
    have hkind : Lexeme.wordKind (c :: cs.takeWhile Text.continuesIdentifier) = .ident := hk
    rwa [show c :: cs.takeWhile Text.continuesIdentifier = c :: cs from happ] at hkind

/-- A name as a lexeme. -/
def Name.lexeme (n : Name) : Lexeme := .sound .ident n.text

theorem Name.text_lexeme (n : Name) : n.lexeme.text = n.text := rfl

theorem Name.faithful (n : Name) {xs : List Lexeme} (h : Lexeme.Faithful xs)
    (hw : Lexeme.Stops Text.continuesIdentifier (Lexeme.textOf xs)) :
    Lexeme.Faithful (n.lexeme :: xs) := by
  have hspelled := h.word n.spelled.1 hw
  rwa [n.spelled.2] at hspelled

/-- A name does not start with a blank. -/
theorem Name.stops (n : Name) (w : Text) : Lexeme.Stops Lexeme.isSpace (n.text ++ w) := by
  obtain ⟨c, cs, htext, ho⟩ := n.spelled.1.opens
  rw [htext]
  exact .cons (Text.not_isSpace_of_opens ho)

namespace Decls

variable {r : Region}

/-- The blanks in front of some declarations, of which `tail` are the last ones if there are
none. -/
def gap (tail : Nat) : {r : Region} → Decls r → Lexeme
  | _, .nil => .blanks (tail + 1)
  | _, _ => .blanks 1

/-- The lexemes of some declarations, behind which further blanks stand. -/
def spell (pad tail : Nat) : {r : Region} → Decls r → List Lexeme
  | _, .nil => []
  | _, .namespaceDecl name body rest =>
    .keyword .namespaceKw :: .blanks 1 :: name.lexeme :: .blanks 1 :: .punct .lBrace
      :: body.gap pad :: (body.spell pad pad ++ .punct .rBrace :: rest.gap tail
        :: rest.spell pad tail)
  | _, .record key name body rest =>
    .keyword key.keyword :: .blanks 1 :: name.lexeme :: .blanks 1 :: .punct .lBrace
      :: body.gap pad :: (body.spell pad pad ++ .punct .rBrace :: .punct .semicolon
        :: rest.gap tail :: rest.spell pad tail)
  | _, .variableDecl name rest =>
    .keyword .intKw :: .blanks 1 :: name.lexeme :: .punct .semicolon :: rest.gap tail
      :: rest.spell pad tail
  | _, .function name rest =>
    .keyword .voidKw :: .blanks 1 :: name.lexeme :: .punct .lParen :: .punct .rParen
      :: .punct .semicolon :: rest.gap tail :: rest.spell pad tail
  | _, .specifier level rest =>
    .keyword level.keyword :: .punct .colon :: rest.gap tail :: rest.spell pad tail

/-! ## The lexemes of a core header -/

variable {xs : List Lexeme}

theorem exists_gap_eq (tail : Nat) (d : Decls r) : ∃ n, d.gap tail = .blanks (n + 1) := by
  cases d <;> exact ⟨_, rfl⟩

theorem faithful_gap (tail : Nat) (d : Decls r) (h : Lexeme.Faithful xs)
    (hxs : Lexeme.Stops Lexeme.isSpace (Lexeme.textOf xs)) :
    Lexeme.Faithful (d.gap tail :: xs) := by
  obtain ⟨n, hn⟩ := d.exists_gap_eq tail
  exact hn ▸ h.blanks n hxs

/-- **Core headers are cut as they are spelled.** -/
theorem faithful_spell (pad tail : Nat) (d : Decls r) (h : Lexeme.Faithful xs)
    (hxs : Lexeme.Stops Lexeme.isSpace (Lexeme.textOf xs)) :
    Lexeme.Faithful (d.spell pad tail ++ xs) ∧
      Lexeme.Stops Lexeme.isSpace (Lexeme.textOf (d.spell pad tail ++ xs)) := by
  induction d generalizing tail xs with
  | nil => exact ⟨h, hxs⟩
  | namespaceDecl name body rest ihb ihr =>
    obtain ⟨hr, hrs⟩ := ihr tail h hxs
    have hend := (faithful_gap tail rest hr hrs).delimiter (p := .rBrace) (by decide)
    obtain ⟨hb, hbs⟩ := ihb pad hend (.cons rfl)
    have hopen := (faithful_gap pad body hb hbs).delimiter (p := .lBrace) (by decide)
    have hname := name.faithful (hopen.blanks 0 (.cons rfl)) (.cons rfl)
    have hspelled := (hname.blanks 0 (name.stops _)).keyword .namespaceKw (.cons rfl)
    rw [spell, List.cons_append]
    exact ⟨by simpa using hspelled, .cons rfl⟩
  | record key name body rest ihb ihr =>
    obtain ⟨hr, hrs⟩ := ihr tail h hxs
    have hend := ((faithful_gap tail rest hr hrs).delimiter (p := .semicolon)
      (by decide)).delimiter (p := .rBrace) (by decide)
    obtain ⟨hb, hbs⟩ := ihb pad hend (.cons rfl)
    have hopen := (faithful_gap pad body hb hbs).delimiter (p := .lBrace) (by decide)
    have hname := name.faithful (hopen.blanks 0 (.cons rfl)) (.cons rfl)
    have hspelled := (hname.blanks 0 (name.stops _)).keyword key.keyword (.cons rfl)
    rw [spell, List.cons_append]
    exact ⟨by simpa using hspelled, by cases key <;> exact .cons rfl⟩
  | variableDecl name rest ih =>
    obtain ⟨hr, hrs⟩ := ih tail h hxs
    have hend := (faithful_gap tail rest hr hrs).delimiter (p := .semicolon) (by decide)
    have hname := name.faithful hend (.cons rfl)
    exact ⟨(hname.blanks 0 (name.stops _)).keyword .intKw (.cons rfl), .cons rfl⟩
  | function name rest ih =>
    obtain ⟨hr, hrs⟩ := ih tail h hxs
    have hend := (faithful_gap tail rest hr hrs).delimiter (p := .semicolon) (by decide)
    have hparams := (hend.delimiter (p := .rParen) (by decide)).delimiter (p := .lParen) (by decide)
    have hname := name.faithful hparams (.cons rfl)
    exact ⟨(hname.blanks 0 (name.stops _)).keyword .voidKw (.cons rfl), .cons rfl⟩
  | specifier level rest ih =>
    obtain ⟨hr, hrs⟩ := ih tail h hxs
    have hgap := faithful_gap tail rest hr hrs
    obtain ⟨n, hn⟩ := rest.exists_gap_eq tail
    rw [spell, List.cons_append, List.cons_append, List.cons_append]
    refine ⟨?_, by cases level <;> exact .cons rfl⟩
    rw [hn] at hgap ⊢
    exact (hgap.colon n).keyword level.keyword (.cons rfl)

/-- The lexemes of some declarations make up their text, with the blanks around it. -/
theorem text_gap_spell (pad tail : Nat) (d : Decls r) (w : Text) :
    (d.gap tail).text ++ (Lexeme.textOf (d.spell pad tail) ++ w)
      = ' ' :: (d.render pad ++ (List.replicate tail ' ' ++ w)) := by
  have hopen : " \x7b ".toList = ' ' :: Punct.spelling .lBrace ++ [' '] := by decide +kernel
  have hend : "; ".toList = Punct.spelling .semicolon ++ [' '] := by decide +kernel
  induction d generalizing tail w with
  | nil => rfl
  | namespaceDecl name body rest ihb ihr =>
    have hword : "namespace ".toList = Keyword.spelling .namespaceKw ++ [' '] := by decide +kernel
    have hclose : "\x7d ".toList = Punct.spelling .rBrace ++ [' '] := by decide +kernel
    show (Lexeme.blanks 1).text ++ _ = _
    simp only [spell, render_namespaceDecl, Lexeme.textOf_append, Lexeme.textOf_cons,
      Lexeme.text_keyword, Lexeme.text_punct, Lexeme.text_blanks_one, Name.text_lexeme,
      List.append_assoc, List.cons_append, List.nil_append, ihb, ihr, hopen, hword, hclose]
  | record key name body rest ihb ihr =>
    have hblank : " ".toList = [' '] := by decide +kernel
    have hclose : "\x7d; ".toList
        = Punct.spelling .rBrace ++ (Punct.spelling .semicolon ++ [' ']) := by decide +kernel
    show (Lexeme.blanks 1).text ++ _ = _
    simp only [spell, render_record, Lexeme.textOf_append, Lexeme.textOf_cons,
      Lexeme.text_keyword, Lexeme.text_punct, Lexeme.text_blanks_one, Name.text_lexeme,
      List.append_assoc, List.cons_append, List.nil_append, ihb, ihr, hopen, hblank, hclose]
  | variableDecl name rest ih =>
    have hword : "int ".toList = Keyword.spelling .intKw ++ [' '] := by decide +kernel
    show (Lexeme.blanks 1).text ++ _ = _
    simp only [spell, render_variableDecl, Lexeme.textOf_cons, Lexeme.text_keyword,
      Lexeme.text_punct, Lexeme.text_blanks_one, Name.text_lexeme, List.append_assoc,
      List.cons_append, List.nil_append, ih, hword, hend]
  | function name rest ih =>
    have hword : "void ".toList = Keyword.spelling .voidKw ++ [' '] := by decide +kernel
    have hparams : "(); ".toList = Punct.spelling .lParen ++ (Punct.spelling .rParen
        ++ (Punct.spelling .semicolon ++ [' '])) := by decide +kernel
    show (Lexeme.blanks 1).text ++ _ = _
    simp only [spell, render_function, Lexeme.textOf_cons, Lexeme.text_keyword,
      Lexeme.text_punct, Lexeme.text_blanks_one, Name.text_lexeme, List.append_assoc,
      List.cons_append, List.nil_append, ih, hword, hparams]
  | specifier level rest ih =>
    have hword : level.label.toList = level.keyword.spelling := by cases level <;> rfl
    have hcolon : ": ".toList = Punct.spelling .colon ++ [' '] := by decide +kernel
    show (Lexeme.blanks 1).text ++ _ = _
    simp only [spell, render_specifier, Lexeme.textOf_cons, Lexeme.text_keyword,
      Lexeme.text_punct, Lexeme.text_blanks_one, List.append_assoc, List.cons_append,
      List.nil_append, ih, hword, hcolon]

/-- The text of a header is cut into its lexemes. -/
theorem cuts_spell (pad : Nat) (d : Decls r) :
    Lexeme.Cuts (d.render pad) (d.spell pad 0) [] := by
  have htext : Lexeme.textOf (d.spell pad 0) = d.render pad := by
    have hgap := text_gap_spell pad 0 d []
    have hone : (d.gap 0).text = [' '] := by cases d <;> rfl
    rw [hone] at hgap
    simpa using hgap
  have hspelled := (faithful_spell pad 0 d .nil .nil).1
  rw [List.append_nil] at hspelled
  exact htext ▸ hspelled

/-- No lexeme is a mistake. -/
theorem all_sound (pad tail : Nat) (d : Decls r) :
    (d.spell pad tail).all (·.kind != .error) = true := by
  have hgap : ∀ {r : Region} (tail : Nat) (d : Decls r),
      ((d.gap tail).kind != .error) = true := by
    intro r tail d
    cases d <;> rfl
  induction d generalizing tail with
  | nil => rfl
  | namespaceDecl name body rest ihb ihr =>
    simp only [spell, List.all_cons, List.all_append, ihb, ihr, hgap, Bool.and_true]
    rfl
  | record key name body rest ihb ihr =>
    simp only [spell, List.all_cons, List.all_append, ihb, ihr, hgap, Bool.and_true]
    rfl
  | variableDecl name rest ih =>
    simp only [spell, List.all_cons, ih, hgap, Bool.and_true]
    rfl
  | function name rest ih =>
    simp only [spell, List.all_cons, ih, hgap, Bool.and_true]
    rfl
  | specifier level rest ih =>
    simp only [spell, List.all_cons, ih, hgap, Bool.and_true]
    rfl

end Decls
end Core

end HeaderOutline
