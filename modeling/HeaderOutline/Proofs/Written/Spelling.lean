import HeaderOutline.Proofs.Written.Grammar

/-! # How written functions are spelled

The text of a function, and that of a class with a constructor, are cut into the lexemes that they
are made of (`Written.Function.cuts_lexemes`, `Written.Constructor.cuts_lexemes`).  What stands
between brackets is cut as it is by itself, since a bracket continues no lexeme
(`Written.faithful_between`).
-/
namespace HeaderOutline.Written

variable [Alphabet]

section

variable {Fits : List Kind → Prop} {xs : List Lexeme}

/-- A text between brackets is cut as it is by itself. -/
theorem faithful_between (i : Inner Fits) {o c : Punct} (ho : o ∈ [.lParen, .lBrace])
    (hc : c ∈ [.rParen, .rBrace]) (h : Lexeme.Faithful xs) :
    Lexeme.Faithful (.punct o :: (i.lexemes ++ .punct c :: xs)) := by
  have hclose : Lexeme.Faithful (.punct c :: xs) := h.delimiter (by revert hc; cases c <;> decide)
  have hinner := Lexeme.Faithful.append_closer (by revert hc; cases c <;> decide) i.faithful
    i.sound_lexemes hclose
  exact hinner.delimiter (by revert ho; cases o <;> decide)

/-- The lexemes of a text within braces. -/
def Inner.bracedLexemes (i : Inner Fits) : List Lexeme :=
  .punct .lBrace :: (i.lexemes ++ [.punct .rBrace])

theorem Inner.textOf_bracedLexemes (i : Inner Fits) :
    Lexeme.textOf i.bracedLexemes = i.braced := by
  simp only [bracedLexemes, braced, Lexeme.textOf_cons, Lexeme.textOf_append, textOf_lexemes,
    List.append_assoc]
  rfl

theorem Inner.all_sound_bracedLexemes (i : Inner Fits) :
    i.bracedLexemes.all (·.kind != .error) = true := by
  simp only [bracedLexemes, List.all_cons, List.all_append, i.all_sound]
  rfl

theorem Inner.faithful_braced (i : Inner Fits) (h : Lexeme.Faithful xs) :
    Lexeme.Faithful (i.bracedLexemes ++ xs) := by
  have hbraced := faithful_between i (o := .lBrace) (c := .rBrace) (by decide) (by decide) h
  simpa [bracedLexemes] using hbraced

/-- The number zero. -/
def zero : Lexeme := .sound .number ['0']

theorem faithful_zero (h : Lexeme.Faithful xs)
    (hxs : Lexeme.Stops Lexeme.mayContinueNumber (Lexeme.textOf xs)) :
    Lexeme.Faithful (zero :: xs) := by
  refine h.cons ⟨'0', Lexeme.textOf xs, rfl, ?_⟩
  have hnumber : Lexeme.closeNumber ['0'] (Lexeme.textOf xs) = (['0'], Lexeme.textOf xs) := by
    have happ := Lexeme.closeNumber_append ['0'] (Lexeme.textOf xs)
    have hfirst : (Lexeme.closeNumber ['0'] (Lexeme.textOf xs)).1 = ['0'] := by
      cases htext : Lexeme.textOf xs with
      | nil => rfl
      | cons d w =>
        exact Lexeme.closeNumber_append_stop (hxs d (by rw [htext]; rfl)) ['0'] [] w
    rw [hfirst] at happ
    exact Prod.ext hfirst (List.append_cancel_left happ)
  show (Lexeme.sound .number (Lexeme.closeNumber ['0'] _).1, (Lexeme.closeNumber ['0'] _).2) = _
  rw [hnumber]
  rfl

/-- The lexeme of a type. -/
def TypeWord.lexeme : TypeWord → Lexeme
  | .named name => name.lexeme
  | .builtin k _ => .keyword k

theorem TypeWord.text_lexeme (w : TypeWord) : w.lexeme.text = w.text := by cases w <;> rfl

/-- A word opens a text. -/
theorem stops_of_isWord {t : Text} (h : t.IsWord) (w : Text) :
    Lexeme.Stops Lexeme.isSpace (t ++ w) := by
  obtain ⟨c, cs, rfl, ho⟩ := h.opens
  exact .cons (Text.not_isSpace_of_opens ho)

theorem TypeWord.isWord (w : TypeWord) : w.text.IsWord := by
  cases w with
  | named name => exact name.spelled.1
  | builtin k _ => exact k.isWord

theorem TypeWord.faithful (w : TypeWord) (h : Lexeme.Faithful xs)
    (hxs : Lexeme.Stops Text.continuesIdentifier (Lexeme.textOf xs)) :
    Lexeme.Faithful (w.lexeme :: xs) := by
  cases w with
  | named name => exact name.faithful h hxs
  | builtin k _ => exact h.keyword k hxs

end

namespace Function

variable (f : Function)

/-- The lexemes of the specifiers. -/
def leading (specifiers : List Keyword) : List Lexeme :=
  specifiers.flatMap fun k => [.keyword k, .blanks 1]

/-- The lexemes of what may stand behind the parameters. -/
def qualifiers : List Lexeme :=
  (if f.isConst then [.blanks 1, .keyword .constKw] else []) ++
    (if f.isPure then [.blanks 1, .punct .eq, .blanks 1, zero] else [])

/-- The lexemes of the semicolon or the body. -/
def ending : List Lexeme :=
  match f.body with
  | none => [.punct .semicolon]
  | some b => .blanks 1 :: b.bracedLexemes

/-- The lexemes of the head. -/
def headLexemes : List Lexeme :=
  leading f.specifiers ++ f.returns.lexeme :: .blanks 1 :: f.name.lexeme :: .punct .lParen
    :: (f.params.lexemes ++ .punct .rParen :: f.qualifiers)

/-- The lexemes of a function. -/
def lexemes : List Lexeme := f.headLexemes ++ f.ending

omit [Alphabet] in
theorem textOf_leading (specifiers : List Keyword) :
    Lexeme.textOf (leading specifiers)
      = specifiers.flatMap fun k => k.spelling ++ " ".toList := by
  induction specifiers with
  | nil => rfl
  | cons k ks ih =>
    rw [leading, List.flatMap_cons, List.flatMap_cons, Lexeme.textOf_append, ← ih]
    simp [leading, Lexeme.text_keyword, Lexeme.text_blanks_one]

theorem faithful_ending : Lexeme.Faithful f.ending ∧
    Lexeme.Stops Lexeme.mayContinueNumber (Lexeme.textOf f.ending) ∧
    Lexeme.Stops Text.continuesIdentifier (Lexeme.textOf f.ending) := by
  unfold ending
  cases f.body with
  | none => exact ⟨Lexeme.Faithful.nil.delimiter (by decide), .cons rfl, .cons rfl⟩
  | some b =>
    have hbody := b.faithful_braced .nil
    rw [List.append_nil] at hbody
    exact ⟨hbody.blanks 0 (.cons rfl), .cons rfl, .cons rfl⟩

theorem faithful_qualifiers : Lexeme.Faithful (f.qualifiers ++ f.ending) := by
  obtain ⟨hending, hnumber, hword⟩ := f.faithful_ending
  have hpure : ∀ xs, Lexeme.Faithful xs → Lexeme.Stops Lexeme.mayContinueNumber (Lexeme.textOf xs) →
      Lexeme.Faithful (.blanks 1 :: .punct .eq :: .blanks 1 :: zero :: xs) := by
    intro xs h hxs
    have hzero := (faithful_zero h hxs).blanks 0 (.cons rfl)
    have heq : Lexeme.Faithful (.punct .eq :: .blanks 1 :: zero :: xs) :=
      hzero.cons ⟨'=', _, rfl, rfl⟩
    exact heq.blanks 0 (.cons rfl)
  have hconst : ∀ xs, Lexeme.Faithful xs →
      Lexeme.Stops Text.continuesIdentifier (Lexeme.textOf xs) →
      Lexeme.Faithful (.blanks 1 :: .keyword .constKw :: xs) := fun xs h hxs =>
    (h.keyword .constKw hxs).blanks 0 (.cons rfl)
  unfold qualifiers
  cases f.isConst <;> cases f.isPure
  · exact hending
  · exact hpure _ hending hnumber
  · exact hconst _ hending hword
  · exact hconst _ (hpure _ hending hnumber) (.cons rfl)

theorem faithful_leading (specifiers : List Keyword) {xs : List Lexeme} (h : Lexeme.Faithful xs)
    (hxs : Lexeme.Stops Lexeme.isSpace (Lexeme.textOf xs)) :
    Lexeme.Faithful (leading specifiers ++ xs) := by
  suffices h : Lexeme.Faithful (leading specifiers ++ xs) ∧
      Lexeme.Stops Lexeme.isSpace (Lexeme.textOf (leading specifiers ++ xs)) from h.1
  induction specifiers with
  | nil => exact ⟨h, hxs⟩
  | cons k ks ih =>
    refine ⟨(ih.1.blanks 0 ih.2).keyword k (.cons rfl), ?_⟩
    exact stops_of_isWord k.isWord _

theorem textOf_qualifiers :
    Lexeme.textOf f.qualifiers = (if f.isConst then " const".toList else [])
      ++ (if f.isPure then " = 0".toList else []) := by
  unfold qualifiers
  cases f.isConst <;> cases f.isPure <;> decide +kernel

theorem textOf_ending :
    Lexeme.textOf f.ending = (if f.body.isNone then ";".toList else [])
      ++ (if f.body.isNone then [] else " ".toList ++ f.bodyText) := by
  unfold ending bodyText
  cases f.body with
  | none => rfl
  | some b =>
    rw [Lexeme.textOf_cons, b.textOf_bracedLexemes]
    rfl

theorem textOf_headLexemes : Lexeme.textOf f.headLexemes = f.head := by
  simp only [headLexemes, head, Lexeme.textOf_append, Lexeme.textOf_cons, textOf_leading,
    textOf_qualifiers, TypeWord.text_lexeme, Core.Name.text_lexeme, Inner.textOf_lexemes,
    List.append_assoc]
  rfl

theorem textOf_lexemes : Lexeme.textOf f.lexemes = f.text := by
  rw [lexemes, Lexeme.textOf_append, textOf_headLexemes, textOf_ending, text, signature,
    List.append_assoc]

/-- **A function is cut as it is written.** -/
theorem cuts_lexemes : Lexeme.Cuts f.text f.lexemes [] := by
  have hparams := faithful_between f.params (o := .lParen) (c := .rParen) (by decide) (by decide)
    f.faithful_qualifiers
  have hname := f.name.faithful hparams (.cons rfl)
  have htype := f.returns.faithful (hname.blanks 0 (stops_of_isWord f.name.spelled.1 _))
    (.cons rfl)
  have hall := faithful_leading f.specifiers htype (by
    rw [Lexeme.textOf_cons, TypeWord.text_lexeme]
    exact stops_of_isWord f.returns.isWord _)
  have hlexemes : f.lexemes = leading f.specifiers ++ f.returns.lexeme :: .blanks 1
      :: f.name.lexeme :: .punct .lParen
      :: (f.params.lexemes ++ .punct .rParen :: (f.qualifiers ++ f.ending)) := by
    simp [lexemes, headLexemes]
  rw [← hlexemes] at hall
  unfold Lexeme.Faithful at hall
  rwa [← f.textOf_lexemes]

theorem all_sound : f.lexemes.all (·.kind != .error) = true := by
  have hleading : (leading f.specifiers).all (·.kind != .error) = true := by
    simp [leading, Lexeme.keyword, Lexeme.blanks, Lexeme.sound]
  have htype : (f.returns.lexeme.kind != .error) = true := by cases f.returns <;> rfl
  have hqualifiers : f.qualifiers.all (·.kind != .error) = true := by
    unfold qualifiers
    cases f.isConst <;> cases f.isPure <;> rfl
  have hending : f.ending.all (·.kind != .error) = true := by
    unfold ending
    cases f.body with
    | none => rfl
    | some b =>
      rw [List.all_cons, b.all_sound_bracedLexemes]
      rfl
  simp only [lexemes, headLexemes, List.all_append, List.all_cons, hleading, htype, hqualifiers,
    hending, f.params.all_sound]
  rfl

end Function

/-! ## Constructors -/

namespace Initializer

variable (i : Initializer)

/-- The lexemes of a member initializer. -/
def lexemes : List Lexeme :=
  i.member.lexeme :: .punct i.bracing.opener :: (i.args.lexemes ++ [.punct i.bracing.closer])

theorem textOf_lexemes : Lexeme.textOf i.lexemes = i.text := by
  simp only [lexemes, text, Lexeme.textOf_cons, Lexeme.textOf_append, Core.Name.text_lexeme,
    Lexeme.text_punct, Inner.textOf_lexemes, Lexeme.textOf_nil, List.append_nil, List.append_assoc]

theorem faithful {xs : List Lexeme} (h : Lexeme.Faithful xs) :
    Lexeme.Faithful (i.lexemes ++ xs) := by
  have hargs := faithful_between i.args (o := i.bracing.opener) (c := i.bracing.closer)
    (by cases i.bracing <;> decide) (by cases i.bracing <;> decide) h
  have hmember := i.member.faithful hargs (by
    rw [Lexeme.textOf_cons, Lexeme.text_punct]
    cases i.bracing <;> exact .cons rfl)
  simpa [lexemes] using hmember

/-- A member initializer does not start with a blank. -/
theorem stops (xs : List Lexeme) :
    Lexeme.Stops Lexeme.isSpace (Lexeme.textOf (i.lexemes ++ xs)) := by
  rw [lexemes, List.cons_append, Lexeme.textOf_cons, Core.Name.text_lexeme]
  exact i.member.stops _

theorem all_sound : i.lexemes.all (·.kind != .error) = true := by
  simp only [lexemes, List.all_cons, List.all_append, i.args.all_sound]
  rfl

end Initializer

namespace Constructor

variable (c : Constructor)

/-- The lexemes of the member initializers behind the first one. -/
def more (others : List Initializer) : List Lexeme :=
  others.flatMap fun i => .punct .comma :: .blanks 1 :: i.lexemes

/-- The lexemes of the constructor up to its body. -/
def headLexemes : List Lexeme :=
  c.name.lexeme :: .punct .lParen :: (c.params.lexemes ++ .punct .rParen :: .blanks 1
    :: .punct .colon :: .blanks 1 :: (c.first.lexemes ++ more c.others))

/-- The lexemes of the class up to the constructor. -/
def opening : List Lexeme :=
  [.keyword .classKw, .blanks 1, c.name.lexeme, .blanks 1, .punct .lBrace, .blanks 1]

/-- The lexemes of the class behind the constructor. -/
def closing : List Lexeme := [.blanks 1, .punct .rBrace, .punct .semicolon]

/-- The lexemes of the class. -/
def lexemes : List Lexeme :=
  c.opening ++ (c.headLexemes ++ .blanks 1 :: (c.body.bracedLexemes ++ closing))

theorem textOf_more (others : List Initializer) :
    Lexeme.textOf (more others) = others.flatMap fun i => ", ".toList ++ i.text := by
  induction others with
  | nil => rfl
  | cons i others ih =>
    rw [more, List.flatMap_cons, List.flatMap_cons, Lexeme.textOf_append, ← more, ih,
      Lexeme.textOf_cons, Lexeme.textOf_cons, i.textOf_lexemes, List.append_assoc]
    rfl

theorem textOf_headLexemes : Lexeme.textOf c.headLexemes = c.signature := by
  simp only [headLexemes, signature, Lexeme.textOf_cons, Lexeme.textOf_append,
    Core.Name.text_lexeme, Inner.textOf_lexemes, Initializer.textOf_lexemes, textOf_more,
    List.append_assoc]
  rfl

theorem textOf_opening :
    Lexeme.textOf c.opening = "class ".toList ++ c.name.text ++ " \x7b ".toList := by
  simp only [opening, Lexeme.textOf_cons, Core.Name.text_lexeme, List.append_assoc]
  rfl

theorem textOf_lexemes : Lexeme.textOf c.lexemes = c.text := by
  have hblank : (Lexeme.blanks 1).text = " ".toList := rfl
  have hclosing : Lexeme.textOf closing = " \x7d;".toList := by decide +kernel
  rw [lexemes, Lexeme.textOf_append, Lexeme.textOf_append, Lexeme.textOf_cons,
    Lexeme.textOf_append, textOf_opening, textOf_headLexemes, hblank, Inner.textOf_bracedLexemes,
    hclosing]
  unfold text bodyText
  simp only [List.append_assoc]

theorem faithful_more (others : List Initializer) {xs : List Lexeme} (h : Lexeme.Faithful xs) :
    Lexeme.Faithful (more others ++ xs) := by
  induction others with
  | nil => exact h
  | cons i others ih =>
    have hblank := (i.faithful ih).blanks 0 (i.stops _)
    have hcomma : Lexeme.Faithful (.punct .comma :: .blanks 1
        :: (i.lexemes ++ (more others ++ xs))) := hblank.cons ⟨',', _, rfl, rfl⟩
    simpa [more] using hcomma

/-- **A class with a constructor is cut as it is written.** -/
theorem cuts_lexemes : Lexeme.Cuts c.text c.lexemes [] := by
  have hclosing : Lexeme.Faithful closing :=
    ((Lexeme.Faithful.nil.delimiter (by decide)).delimiter (by decide)).blanks 0 (.cons rfl)
  have hbody := c.body.faithful_braced hclosing
  have hinitializers := c.first.faithful (faithful_more c.others (hbody.blanks 0 (.cons rfl)))
  have hcolon := (hinitializers.blanks 0 (c.first.stops _)).colon 0
  have hparams := faithful_between c.params (o := .lParen) (c := .rParen) (by decide) (by decide)
    (hcolon.blanks 0 (.cons rfl))
  have hname := c.name.faithful hparams (.cons rfl)
  have hbrace := (hname.blanks 0 (c.name.stops _)).delimiter (p := .lBrace) (by decide)
  have hclass := c.name.faithful (hbrace.blanks 0 (.cons rfl)) (.cons rfl)
  have hall := (hclass.blanks 0 (c.name.stops _)).keyword .classKw (.cons rfl)
  have hlexemes : c.lexemes = .keyword .classKw :: .blanks 1 :: c.name.lexeme :: .blanks 1
      :: .punct .lBrace :: .blanks 1 :: c.name.lexeme :: .punct .lParen
      :: (c.params.lexemes ++ .punct .rParen :: .blanks 1 :: .punct .colon :: .blanks 1
        :: (c.first.lexemes ++ (more c.others ++ .blanks 1
          :: (c.body.bracedLexemes ++ closing)))) := by
    simp [lexemes, opening, headLexemes]
  rw [← hlexemes] at hall
  unfold Lexeme.Faithful at hall
  rwa [← c.textOf_lexemes]

theorem all_sound : c.lexemes.all (·.kind != .error) = true := by
  have hmore : (more c.others).all (·.kind != .error) = true := by
    rw [more, List.all_flatMap, List.all_eq_true]
    intro i _
    simp only [List.all_cons, i.all_sound]
    rfl
  simp only [lexemes, opening, headLexemes, List.all_append, List.all_cons, hmore,
    c.params.all_sound, c.first.all_sound, c.body.all_sound_bracedLexemes]
  rfl

end Constructor
end HeaderOutline.Written
