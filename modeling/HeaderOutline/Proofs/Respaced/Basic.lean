import HeaderOutline.Parse
import HeaderOutline.Proofs.Front
import HeaderOutline.Proofs.Scan

/-! # Tokens with other gaps

A gap is what stands between two tokens that count: white space, line ends, and at times a
comment.  Two lists of tokens are respaced (`Tokens.Respaced`) if they have the same tokens
with gaps at the same places, where no gap appears or vanishes.

What a gap may hold depends on the place.  Some parts of a reading pass over white space but
stop at a line end, or pass over trivia but stop at a comment.  So a place is known by its
trail, the kinds of the tokens in front of it, and by the token behind it; `Trail.keepsLines`
tells where the number of line ends matters, and `Trail.admitsComment` where a comment does
not.  A `Respacing` says how gaps and texts may change within these bounds.
-/
namespace HeaderOutline

/-- The kinds of tokens behind which it is looked at how a construct goes on: words, strings,
and operators that belong to names and types. -/
def Kind.leadsOn : Kind → Bool
  | .ident | .string | .keyword _ => true
  | .punct p => [Punct.colonColon, .star, .amp, .ampAmp, .tilde, .gt, .gtGt, .rBracket].contains p
  | _ => false

/-- The operators with which a declarator in parentheses starts. -/
def Kind.opensDeclarator (k : Kind) : Bool :=
  k == .punct .star || k == .punct .amp || k == .punct .ampAmp

/-- The kinds of the tokens in front of a place that are no trivia, the nearest first. -/
abbrev Trail := List Kind

namespace Trail

/-- The number of open parentheses, of those that stand behind the last semicolon, brace or
closing square bracket. -/
def parens : Trail → Nat
  | [] => 0
  | k :: b =>
    match k with
    | .punct .lParen => parens b + 1
    | .punct .rParen => parens b - 1
    | .punct .semicolon | .punct .lBrace | .punct .rBrace | .punct .rBracket => 0
    | _ => parens b

/-- Whether the symbol of an operator is being spelled, parentheses being one. -/
def inOperator : Trail → Bool
  | [] => false
  | .keyword .operatorKw :: _ => true
  | .punct .rParen :: .punct .lParen :: .keyword .operatorKw :: _ => true
  | .punct .lParen :: _ | .punct .semicolon :: _ | .punct .lBrace :: _
  | .punct .rBrace :: _ => false
  | _ :: b => inOperator b

/-- Whether a token of a kind is looked for behind the last one, although both stand in the
middle of a construct. -/
def asksFor (b : Trail) (k : Kind) : Bool :=
  match b with
  | .punct .lParen :: _ => k.opensDeclarator
  | .punct .eq :: _ => k == .number
  | .punct .rParen :: _ => k == .punct .lParen || k == .punct .lBracket
  | .punct .rBrace :: _ => k == .punct .semicolon || k == .punct .comma || k == .punct .eq
  | _ => false

/-- Whether a comment in front of a token of a kind is passed over like white space: it stands
in parentheses, or behind a token that does not lead on. -/
def admitsComment (b : Trail) (k : Kind) : Bool :=
  !inOperator b && (0 < parens b || !b.head?.any Kind.leadsOn) && !asksFor b k

/-- Whether it matters if the line ends in front of a token of a kind. -/
def keepsLines (b : Trail) (k : Kind) : Bool :=
  inOperator b ||
    match b with
    | .keyword .publicKw :: _ | .keyword .protectedKw :: _ | .keyword .privateKw :: _ =>
      k == .punct .colon
    | .keyword .inlineKw :: .punct .colonColon :: _ => true
    | .punct .lParen :: _ => k.opensDeclarator
    | _ => false

theorem parens_cons_le {k : Kind} (b : Trail) (h : k ≠ .punct .lParen) :
    parens (k :: b) ≤ parens b := by
  conv => lhs; unfold parens
  split <;> first | contradiction | omega

theorem parens_of_leadsOn {k : Kind} {b : Trail} (hb : parens b = 0) (h : k.leadsOn = true) :
    parens (k :: b) = 0 := by
  have hne : k ≠ .punct .lParen := by
    rintro rfl
    cases h
  have hle := parens_cons_le b hne
  omega

theorem not_admitsComment_of_leadsOn {k : Kind} {b : Trail} (hb : parens (k :: b) = 0)
    (h : k.leadsOn = true) (next : Kind) : admitsComment (k :: b) next = false := by
  simp [admitsComment, hb, h]

theorem not_admitsComment_of_inOperator {b : Trail} (h : inOperator b = true) (k : Kind) :
    admitsComment b k = false := by
  simp [admitsComment, h]

theorem not_admitsComment_of_asksFor {b : Trail} {k : Kind} (h : asksFor b k = true) :
    admitsComment b k = false := by
  simp [admitsComment, h]

/-- The symbol of an operator goes on up to what ends it. -/
theorem inOperator_cons {b : Trail} {k : Kind} (h : inOperator b = true)
    (hk : k ∉ [.punct .lParen, .punct .semicolon, .punct .lBrace, .punct .rBrace]) :
    inOperator (k :: b) = true := by
  simp only [List.mem_cons, List.not_mem_nil, or_false, not_or] at hk
  unfold inOperator
  split <;> simp_all

end Trail

/-- The number of line ends among some tokens. -/
def Tokens.lineEnds (ts : List Token) : Nat := ts.countP (·.kind == .newline)

/-- How the gaps between tokens may change, and which texts count as the same. -/
structure Respacing where
  /-- A token and the one that takes its place. -/
  token : Token → Token → Prop
  /-- A gap, or a part of one, and what may take its place. -/
  blanks : List Token → List Token → Prop
  /-- A place where a gap keeps its number of line ends. -/
  firm : Trail → Kind → Prop
  /-- A place where a gap may get comments. -/
  loose : Trail → Kind → Prop
  same : Text → Text → Prop
  /-- Names that count as the same. -/
  name : Text → Text → Prop
  /-- Lists of template parameters that count as the same. -/
  params : List Text → List Text → Prop
  /-- The parameters of templates, or none, that count as the same. -/
  template : Option (List Text) → Option (List Text) → Prop
  /-- Documentation that counts as the same. -/
  doc : DocComment → DocComment → Prop
  /-- What holds of a token that takes the place of another one and of those behind it. -/
  fits : List Token → Prop
  kind_of_token {t u : Token} (h : token t u) : u.kind = t.kind
  text_of_token {t u : Token} (h : token t u) (hc : t.kind.isComment = false) : u.text = t.text
  not_trivia {t u : Token} (h : token t u) : t.kind.isTrivia = false
  firm_of_keepsLines {b : Trail} {k : Kind} (h : b.keepsLines k = true) : firm b k
  admits_of_loose {b : Trail} {k : Kind} (h : loose b k) : b.admitsComment k = true
  /-- Comments are put only where no text counts and among tokens without comments. -/
  same_of_loose {b : Trail} {k : Kind} (h : loose b k) (s t : Text) : same s t
  not_loose_of_comment {t u : Token} (h : token t u) (hc : t.kind.isComment = true) (b : Trail)
    (k : Kind) : ¬loose b k
  same_of_token {t u : Token} (h : token t u) : same t.text u.text
  same_refl (t : Text) : same t t
  same_append {s s' t t' : Text} (h : same s s') (h' : same t t') : same (s ++ t) (s' ++ t')
  same_trim {s s' : Text} (h : same s s') : same s.trim s'.trim
  same_trimEnd {s s' : Text} (h : same s s') : same s.trimEnd s'.trimEnd
  /-- Documentation is compared with the text that it is read from. -/
  same_of_doc {d d' : DocComment} (h : doc d d') : same d.raw d'.raw
  name_refl (t : Text) : name t t
  name_append {s s' t t' : Text} (h : name s s') (h' : name t t') : name (s ++ t) (s' ++ t')
  params_nil : params [] []
  params_append {ps ps' qs qs' : List Text} (h : params ps ps') (h' : params qs qs') :
    params (ps ++ qs) (ps' ++ qs')
  template_none : template none none
  template_some {ps ps' : List Text} (h : params ps ps') : template (some ps) (some ps')
  /-- The parameters of a list that ends with a token of the same text. -/
  params_of_list {t u : Token} {ts us rest : List Token} (h : token t u)
    (ht : t.kind.isComment = false)
    (hs : same (Token.textOf (ts ++ [t])) (Token.textOf (us ++ [u])))
    (hf : fits (us ++ u :: rest)) :
    params (Construct.Template.params (Token.textOf (ts ++ [t])))
      (Construct.Template.params (Token.textOf (us ++ [u])))

namespace Respacing

/-- Everything but the places of tokens and the gaps between them is kept, and no gap gets
comments. -/
def keeping : Respacing where
  token t u := u.kind = t.kind ∧ u.text = t.text ∧ t.kind.isTrivia = false
  blanks _ _ := True
  firm _ _ := True
  loose _ _ := False
  same s s' := s' = s
  name s s' := s' = s
  params ps ps' := ps' = ps
  template ps ps' := ps' = ps
  doc c c' := c'.raw = c.raw
  fits _ := True
  kind_of_token h := h.1
  text_of_token h _ := h.2.1
  not_trivia h := h.2.2
  firm_of_keepsLines _ := trivial
  admits_of_loose h := h.elim
  same_of_loose h := h.elim
  not_loose_of_comment _ _ _ _ := id
  same_of_token h := h.2.1
  same_refl _ := rfl
  same_append h h' := by rw [h, h']
  same_trim h := congrArg Text.trim h
  same_trimEnd h := congrArg Text.trimEnd h
  same_of_doc h := h
  name_refl _ := rfl
  name_append h h' := by rw [h, h']
  params_nil := rfl
  params_append h h' := by rw [h, h']
  template_none := rfl
  template_some h := congrArg some h
  params_of_list _ _ hs _ := congrArg Construct.Template.params hs

variable (S : Respacing)

/-- No gap gets comments. -/
def IsStrict : Prop := ∀ b k, ¬S.loose b k

/-- A place without open parentheses, as far as these matter. -/
def IsPlain (b : Trail) : Prop := b.parens = 0 ∨ S.IsStrict

/-- A place whose gap gets no comments, and that is plain. -/
structure IsCalm (b : Trail) : Prop where
  tight : ∀ k, ¬S.loose b k
  plain : S.IsPlain b

variable {S} {b : Trail} {k : Kind}

theorem text_of_ident {t u : Token} (h : S.token t u) (hk : t.kind = .ident) : u.text = t.text :=
  S.text_of_token h (by rw [hk]; rfl)

theorem not_loose (h : b.admitsComment k = false) : ¬S.loose b k := by
  intro hl
  rw [S.admits_of_loose hl] at h
  cases h

theorem IsStrict.isCalm (h : S.IsStrict) (b : Trail) : S.IsCalm b := ⟨h b, .inr h⟩

theorem isCalm_of_parens (hb : Trail.parens (k :: b) = 0) (h : k.leadsOn = true) :
    S.IsCalm (k :: b) :=
  ⟨fun _ => not_loose (Trail.not_admitsComment_of_leadsOn hb h _), .inl hb⟩

/-- Behind what leads on, a plain place is calm. -/
theorem IsPlain.cons (hb : S.IsPlain b) (h : k.leadsOn = true) : S.IsCalm (k :: b) := by
  rcases hb with hb | hb
  · exact isCalm_of_parens (Trail.parens_of_leadsOn hb h) h
  · exact hb.isCalm _

/-- Only an opening parenthesis makes a place behind a plain one other than plain. -/
theorem IsPlain.cons_of_ne (hb : S.IsPlain b) (h : k ≠ .punct .lParen) : S.IsPlain (k :: b) :=
  hb.imp_left fun (hp : b.parens = 0) => Nat.le_zero.mp (hp ▸ Trail.parens_cons_le b h)

theorem IsCalm.cons (hb : S.IsCalm b) (h : k.leadsOn = true) : S.IsCalm (k :: b) :=
  hb.plain.cons h

/-- A gap and the one that takes its place. -/
structure Gap (S : Respacing) (b : Trail) (k : Kind) (gap gap' : List Token) : Prop where
  ne_nil : gap ≠ []
  ne_nil' : gap' ≠ []
  trivia : ∀ t ∈ gap, t.kind.isTrivia = true
  passed : ∀ t ∈ gap', t.kind.isTrivia = true ∨ t.kind = .blockComment
  tight : ¬S.loose b k → ∀ t ∈ gap', t.kind.isTrivia = true
  firm : S.firm b k → Tokens.lineEnds gap' = Tokens.lineEnds gap
  same : S.same (Token.textOf gap) (Token.textOf gap')
  blanks : S.blanks gap gap'

end Respacing

namespace Tokens

/-- The same tokens with other gaps, behind a trail. -/
inductive Respaced (S : Respacing) : Trail → List Token → List Token → Prop
  | nil {b : Trail} : Respaced S b [] []
  | token {b : Trail} {t u : Token} {ts us : List Token} (fits : S.fits (u :: us))
    (h : S.token t u) (more : Respaced S (t.kind :: b) ts us) : Respaced S b (t :: ts) (u :: us)
  | gap {b : Trail} {gap gap' ts us : List Token} (h : S.Gap b (nextKind ts) gap gap')
    (more : Respaced S b ts us) : Respaced S b (gap ++ ts) (gap' ++ us)

/-- The same tokens with other gaps, from tokens on that are no trivia. -/
inductive RespacedFront (S : Respacing) (b : Trail) : List Token → List Token → Prop
  | nil : RespacedFront S b [] []
  | cons {t u : Token} {ts us : List Token} (fits : S.fits (u :: us)) (h : S.token t u)
    (more : Respaced S (t.kind :: b) ts us) : RespacedFront S b (t :: ts) (u :: us)

theorem skipTrivia_append {gap : List Token} (h : ∀ t ∈ gap, t.kind.isTrivia = true)
    (ts : List Token) : skipTrivia (gap ++ ts) = skipTrivia ts :=
  List.dropWhile_append_of_pos h

theorem nextKind_append {gap : List Token} (h : ∀ t ∈ gap, t.kind.isTrivia = true)
    (ts : List Token) : nextKind (gap ++ ts) = nextKind ts := by
  rw [nextKind, skipTrivia_append h, nextKind]

variable {S : Respacing} {b : Trail} {k : Kind} {t u : Token} {ts us : List Token}

theorem nextKind_of_token (h : S.token t u) (ts : List Token) : nextKind (t :: ts) = t.kind := by
  rw [nextKind, skipTrivia_of_not (S.not_trivia h)]
  rfl

theorem RespacedFront.respaced (h : RespacedFront S b ts us) : Respaced S b ts us := by
  cases h with
  | nil => exact .nil
  | cons fits h more => exact .token fits h more

/-- Behind a gap without comments come tokens that are the same. -/
theorem Respaced.front (h : Respaced S b ts us) (ht : ¬S.loose b (nextKind ts)) :
    RespacedFront S b (skipTrivia ts) (skipTrivia us) := by
  induction h with
  | nil => exact .nil
  | @token b t u ts us fits h more _ =>
    have hu : u.kind.isTrivia = false := by rw [S.kind_of_token h, S.not_trivia h]
    rw [skipTrivia_of_not (S.not_trivia h), skipTrivia_of_not hu]
    exact .cons fits h more
  | gap h _ ih =>
    rw [nextKind_append h.trivia] at ht
    rw [skipTrivia_append h.trivia, skipTrivia_append (h.tight ht)]
    exact ih ht

theorem RespacedFront.headKind (h : RespacedFront S b ts us) : headKind us = headKind ts := by
  cases h with
  | nil => rfl
  | cons _ h => exact S.kind_of_token h

theorem Respaced.skipTrivia (h : Respaced S b ts us) (ht : ¬S.loose b (nextKind ts)) :
    Respaced S b (skipTrivia ts) (skipTrivia us) := (h.front ht).respaced

theorem Respaced.nextKind (h : Respaced S b ts us) (ht : ¬S.loose b (nextKind ts)) :
    nextKind us = nextKind ts :=
  (h.front ht).headKind

/-- What is looked for behind a gap is there or not, even if the gap gets comments, unless
these would hide it. -/
theorem Respaced.nextKind_beq (h : Respaced S b ts us) (hc : k.isComment = false)
    (hk : b.admitsComment k = false) : (Tokens.nextKind us == k) = (Tokens.nextKind ts == k) := by
  by_cases hl : S.loose b (Tokens.nextKind ts)
  · have hne : Tokens.nextKind ts ≠ k := by
      rintro rfl
      exact Respacing.not_loose hk hl
    have hstrict : ¬S.IsStrict := fun hs => hs _ _ hl
    rw [beq_false_of_ne hne, beq_eq_false_iff_ne]
    clear hl
    induction h with
    | nil => exact hne
    | @token b t u ts us _ h =>
      have hu : u.kind.isTrivia = false := by rw [S.kind_of_token h, S.not_trivia h]
      rw [nextKind_of_token h] at hne
      rwa [Tokens.nextKind, skipTrivia_of_not hu, Tokens.headKind, List.head?_cons, Option.map_some,
        Option.getD_some, S.kind_of_token h]
    | @gap b gap gap' ts us h more ih =>
      rw [nextKind_append h.trivia] at hne
      have hmore := ih hk hne
      have hpassed := h.passed
      clear h ih
      induction gap' with
      | nil => exact hmore
      | cons v gap' ih =>
        rcases hpassed v List.mem_cons_self with hv | hv
        · rw [List.cons_append, Tokens.nextKind, skipTrivia_of_trivia hv]
          exact ih fun w hw => hpassed w (List.mem_cons_of_mem v hw)
        · rw [List.cons_append, Tokens.nextKind, skipTrivia_of_not (by rw [hv]; rfl)]
          rintro rfl
          rw [show Tokens.headKind (v :: _) = v.kind from rfl, hv] at hc
          cases hc
  · rw [h.nextKind hl]

end Tokens
end HeaderOutline
