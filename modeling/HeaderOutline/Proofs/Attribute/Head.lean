import HeaderOutline.Proofs.Attribute.Scan
import HeaderOutline.Proofs.Cover
import HeaderOutline.Proofs.Probe

/-! # Reading behind an attribute

The probe for a function passes over an attribute (`Construct.Declaration.isFunction_attributed`).
What reads the declaration afterwards does not: no variable is read from an attribute on
(`Construct.Variable.read_bracket_fails`), and a function keeps what it has noted there.  That
comes to nothing if the attribute is plain and a name of the declaration takes the place of
the one in the attribute, before it matters whether there is one
(`Construct.Function.read_attributed`).
-/
namespace HeaderOutline

open Token (Alike)

/-! ## The probe -/

namespace Tokens

/-- All brackets among some tokens are properly nested. -/
inductive Nested : List Token → Prop
  | nil : Nested []
  | plain {t : Token} {ts : List Token}
    (ht : t.kind ∉ [.punct .lParen, .punct .rParen, .punct .lBrace, .punct .rBrace,
      .punct .lBracket, .punct .rBracket]) (more : Nested ts) : Nested (t :: ts)
  | group {o c : Token} {inside behind : List Token}
    (pair : (o.kind, c.kind) ∈ [(.punct .lParen, .punct .rParen),
      (.punct .lBrace, .punct .rBrace), (.punct .lBracket, .punct .rBracket)])
    (inner : Nested inside) (more : Nested behind) : Nested (o :: (inside ++ c :: behind))

theorem Nested.of_plain {ts : List Token} (h : ∀ t ∈ ts, t.kind ∉ [.punct .lParen,
    .punct .rParen, .punct .lBrace, .punct .rBrace, .punct .lBracket, .punct .rBracket]) :
    Nested ts := by
  induction ts with
  | nil => exact .nil
  | cons t ts ih =>
    exact .plain (h t List.mem_cons_self) (ih fun u hu => h u (List.mem_cons_of_mem _ hu))

theorem Nested.map {ts : List Token} (h : Nested ts) (f : Token → Token) [Alike f] :
    Nested (ts.map f) := by
  induction h with
  | nil => exact .nil
  | plain ht _ ih => exact .plain (by rwa [Alike.kind (f := f)]) ih
  | group pair _ _ ihi ihm =>
    rw [List.map_cons, List.map_append, List.map_cons]
    exact .group (by rwa [Alike.kind (f := f), Alike.kind (f := f)]) ihi ihm

section

variable {t : Token} {ts rest : List Token} {depth : Nat}

theorem afterSquares_open (h : t.kind = .punct .lBracket) :
    afterSquares depth (t :: ts) = afterSquares (depth + 1) ts :=
  if_pos (beq_iff_eq.mpr h)

theorem afterSquares_close (h : t.kind = .punct .rBracket) :
    afterSquares depth (t :: ts) = if depth ≤ 1 then ts else afterSquares (depth - 1) ts := by
  rw [afterSquares, if_neg (by simp [h]), if_pos (beq_iff_eq.mpr h)]

theorem afterSquares_other (ho : t.kind ≠ .punct .lBracket) (hc : t.kind ≠ .punct .rBracket) :
    afterSquares depth (t :: ts) = afterSquares depth ts := by
  rw [afterSquares, if_neg (by simpa using ho), if_neg (by simpa using hc)]

/-- Within a square bracket, nested tokens are passed over. -/
theorem Nested.afterSquares (h : Nested ts) (depth : Nat) (rest : List Token) :
    afterSquares (depth + 1) (ts ++ rest) = afterSquares (depth + 1) rest := by
  induction h generalizing depth rest with
  | nil => rfl
  | @plain t ts ht _ ih =>
    rw [List.cons_append, afterSquares_other (by rintro hk; simp [hk] at ht)
      (by rintro hk; simp [hk] at ht), ih]
  | @group o c inside behind pair _ _ ihi ihm =>
    rw [List.cons_append, List.append_assoc, List.cons_append]
    by_cases ho : o.kind = .punct .lBracket
    · have hc : c.kind = .punct .rBracket := by simpa [ho] using pair
      rw [afterSquares_open ho, ihi, afterSquares_close hc, if_neg (by omega)]
      exact ihm depth rest
    · have hne : o.kind ≠ .punct .rBracket ∧ c.kind ≠ .punct .lBracket ∧
          c.kind ≠ .punct .rBracket := by
        simp only [List.mem_cons, Prod.mk.injEq, List.not_mem_nil, or_false] at pair
        rcases pair with ⟨h, h'⟩ | ⟨h, h'⟩ | ⟨h, h'⟩
        · simp [h, h']
        · simp [h, h']
        · exact absurd h ho
      rw [afterSquares_other ho hne.1, ihi, afterSquares_other hne.2.1 hne.2.2, ihm]

/-- An attribute in which brackets are nested is passed as a whole. -/
theorem Attributed.afterAttribute? {all us : List Token} (h : Attributed ts us all)
    (hn : Nested ts) : afterAttribute? all = some us := by
  obtain ⟨ha, hb, hc, hd⟩ := h
  rw [Tokens.afterAttribute?, if_pos (by simp [headKind, ha, hb]), afterSquares_open ha,
    afterSquares_open hb, hn.afterSquares, afterSquares_close hc, if_neg (by omega),
    afterSquares_close hd, if_pos (by omega)]

end

end Tokens

namespace Construct

namespace Declaration

/-- **The probe passes over an attribute.** -/
theorem isFunction_attributed {inner us all : List Token} {blank : Token}
    (h : Tokens.Attributed inner (blank :: us) all) (hn : Tokens.Nested inner)
    (hb : blank.kind = .whitespace) :
    isFunction all = isFunction us := by
  have hattribute := h.afterAttribute? hn
  have hskip : Tokens.skipTrivia all = all := by
    obtain ⟨ha, -, -, -⟩ := h
    exact Tokens.skipTrivia_of_not (by rw [ha]; rfl)
  have hpast : skipSpecifiers false all = skipSpecifiers false (blank :: us) := by
    rw [skipSpecifiers_eq, hskip, hattribute]
  rw [isFunction, hpast, ← isFunction, ← isFunction_skipTrivia,
    Tokens.skipTrivia_of_whitespace hb, isFunction_skipTrivia]

end Declaration

/-! ## Variables -/

namespace Variable

/-- Behind the start of an initializer no name is noted. -/
theorem Progress.read_nameless {p : Progress} (hi : p.initializer = true) (hn : p.name = none)
    (t : Token) : (p.read t).initializer = true ∧ (p.read t).name = none := by
  unfold read
  split <;> first | exact ⟨hi, hn⟩ | (split <;> simp_all) | simp [hi, hn]

theorem extent_nameless {done ts taken rest : List Token} {p q : Progress}
    (h : extent done p ts = .closed q taken rest) (hi : p.initializer = true)
    (hn : p.name = none) : q.name = none := by
  fun_induction extent done p ts with
  | case1 => cases h
  | case2 => cases h
  | case3 =>
    obtain ⟨rfl, -, -⟩ := Extent.closed.inj h
    exact hn
  | case4 done p t ts _ _ ih =>
    obtain ⟨hinitializer, hname⟩ := Progress.read_nameless hi hn t
    exact ih h hinitializer hname

/-- **No variable is read from a square bracket on**, since the bracket starts an
initializer. -/
theorem read_bracket_fails (ds : Definitions) (lead : Lead) {t : Token} (ts : List Token)
    (h : t.kind = .punct .lBracket) : (read ds lead (t :: ts)).Fails := by
  have hextent : extent [] .start (t :: ts) = extent [t] ⟨none, true, 1, .none⟩ ts := by
    rw [extent, if_neg (by simp [Progress.refuses, Progress.start, h]),
      if_neg (by simp [Progress.endsWith, Progress.start, h])]
    simp [Progress.read, Progress.start, h]
  unfold read
  rw [hextent]
  split
  · exact ⟨_, _, _, rfl⟩
  · next he =>
    dsimp only
    rw [extent_nameless he rfl rfl]
    exact ⟨_, _, _, rfl⟩

end Variable

/-! ## Functions -/

namespace Function

/-- What the end of a head says without its tokens. -/
def Extent.bare : Extent → Extent
  | .declared p _ rest => .declared p [] rest
  | .defined p _ rest => .defined p [] rest
  | .broken rest => .broken rest
  | .unclosed brace => .unclosed brace

/-- A head has an end and a name. -/
def Extent.IsNamed : Extent → Prop
  | .declared p _ _ | .defined p _ _ => p.name ≠ none
  | .broken _ | .unclosed _ => False

/-- Where a head ends does not depend on the tokens that have been taken. -/
theorem extent_bare (done done' : List Token) (p : Progress) (ts : List Token) :
    (extent done p ts).bare = (extent done' p ts).bare := by
  fun_induction extent done p ts generalizing done' with
  | case1 => simp [extent, Extent.bare]
  | case2 done p t ts h => rw [extent, if_pos h]
  | case3 done p t ts h hs =>
    rw [extent, if_neg h, if_pos hs]
    rfl
  | case4 done p t ts h hs hb hi hn =>
    rw [extent, if_neg h, if_neg hs, if_pos hb, if_pos hi]
    split
    · rfl
    · next hsome => cases hn.symm.trans hsome
  | case5 done p t ts h hs hb hi block rest hblock ih =>
    rw [extent, if_neg h, if_neg hs, if_pos hb, if_pos hi]
    split
    · next hnone => cases hblock.symm.trans hnone
    · next hsome =>
      obtain ⟨rfl, rfl⟩ := Prod.mk.inj (Option.some.inj (hblock.symm.trans hsome))
      exact ih _
  | case6 done p t ts h hs hb hi =>
    rw [extent, if_neg h, if_neg hs, if_pos hb, if_neg hi]
    rfl
  | case7 done p t ts h hs hb ho ih =>
    rw [extent, if_neg h, if_neg hs, if_neg hb, if_pos ho]
    exact ih _
  | case8 done p t ts h hs hb ho ih =>
    rw [extent, if_neg h, if_neg hs, if_neg hb, if_neg ho]
    exact ih _

namespace Progress

/-- A function of which only specifiers have been read, and maybe the opening parenthesis of
a declarator: a name that has been noted stood in front of it. -/
def opened (inGroup : Bool) (flags : Flags) (name : Option Text) (destructor : Bool)
    (last : Kind) : Progress :=
  ⟨name, destructor, false, flags, inGroup, false, false, false, false,
    if inGroup then 1 else 0, last⟩

/-- The flags with the one that a specifier stands for. -/
def specified (flags : Flags) : Kind → Flags
  | .keyword .staticKw => { flags with isStatic := true }
  | .keyword .inlineKw => { flags with isInline := true }
  | .keyword .virtualKw => { flags with isVirtual := true }
  | _ => flags

section

variable {t : Token} {ts : List Token}

/-- What neither names the function nor is a parenthesis changes the flags at most. -/
theorem note_opened (hi : t.kind ≠ .ident) (ho : t.kind ≠ .punct .lParen)
    (hc : t.kind ≠ .punct .rParen) (inGroup : Bool) (flags : Flags) (name : Option Text)
    (destructor : Bool) (last : Kind) :
    (opened inGroup flags name destructor last).note t ts =
      opened inGroup (if inGroup then flags else specified flags t.kind) name destructor last := by
  unfold note
  split
  · contradiction
  · contradiction
  · contradiction
  · next hk => cases inGroup <;> simp [opened, specified, hk]
  · next hk => cases inGroup <;> simp [opened, specified, hk]
  · next hk => cases inGroup <;> simp [opened, specified, hk]
  · next hk => cases inGroup <;> simp [opened, specified, hk]
  · next hk => cases inGroup <;> simp [opened, specified, hk]
  · next hk => cases inGroup <;> simp [opened, specified, hk]
  · have hk : specified flags t.kind = flags := by
      unfold specified
      split <;> first | contradiction | rfl
    rw [hk, ite_self]

theorem read_opened (hi : t.kind ≠ .ident) (ho : t.kind ≠ .punct .lParen)
    (hc : t.kind ≠ .punct .rParen) (inGroup : Bool) (flags : Flags) (name : Option Text)
    (destructor : Bool) (last : Kind) :
    (opened inGroup flags name destructor last).read t ts
      = opened inGroup (if inGroup then flags else specified flags t.kind) name destructor
        (if t.kind.isTrivia || t.kind.isComment then last else t.kind) := by
  rw [read, note_opened hi ho hc, beq_false_of_ne hc, Bool.false_and]
  split <;> rfl

/-- A name takes the place of the one noted before. -/
theorem read_name (h : t.kind = .ident) (inGroup : Bool) (flags : Flags) (name : Option Text)
    (destructor : Bool) (last : Kind) :
    (opened inGroup flags name destructor last).read t ts
      = opened inGroup flags (some t.text) (last == .punct .tilde) .ident := by
  cases inGroup <;>
    simp [read, note, opened, remember, h, Kind.isTrivia, Kind.isComment]

/-- Parentheses that hold a declarator are opened whether or not a name has been noted. -/
theorem read_group (h : t.kind = .punct .lParen) (hg : opensGroup ts = true) (flags : Flags)
    (name : Option Text) (destructor : Bool) (last : Kind) :
    (opened false flags name destructor last).read t ts
      = opened true flags name destructor (.punct .lParen) := by
  simp [read, note, openParen, opened, remember, h, hg, Kind.isTrivia, Kind.isComment]

end

end Progress

section

open Progress

variable {t : Token} {ts us done : List Token} {inGroup : Bool} {flags : Flags}
  {name : Option Text} {destructor : Bool} {last last' : Kind}

/-- One token that does not end the head. -/
theorem extent_opened (h : inGroup = true ∨
      t.kind ∉ [.punct .rBrace, .punct .semicolon, .punct .lBrace, .keyword .operatorKw]) :
    extent done (opened inGroup flags name destructor last) (t :: ts)
      = extent (t :: done) ((opened inGroup flags name destructor last).read t ts) ts := by
  rw [extent]
  rcases h with rfl | h
  · simp [refuses, opened]
  · simp only [List.mem_cons, List.not_mem_nil, or_false, not_or] at h
    cases inGroup <;> simp [refuses, opened, h]

/-- Trivia change nothing. -/
theorem exists_extent_skipTrivia (flags : Flags) (name : Option Text) (destructor : Bool)
    (last : Kind) (done ts : List Token) :
    ∃ done', extent done (opened false flags name destructor last) ts
      = extent done' (opened false flags name destructor last) (Tokens.skipTrivia ts) := by
  induction ts generalizing done with
  | nil => exact ⟨done, rfl⟩
  | cons t ts ih =>
    cases ht : t.kind.isTrivia with
    | false => exact ⟨done, by rw [Tokens.skipTrivia_of_not ht]⟩
    | true =>
      obtain ⟨done', hdone⟩ := ih (t :: done)
      have hk : t.kind = .whitespace ∨ t.kind = .newline := by
        revert ht
        cases t.kind <;> simp [Kind.isTrivia]
      have hread : (opened false flags name destructor last).read t ts
          = opened false flags name destructor last := by
        rcases hk with hk | hk <;> simp [Progress.read, note, hk, Kind.isTrivia]
      refine ⟨done', ?_⟩
      rw [extent_opened (.inr (by rcases hk with hk | hk <;> simp [hk])), hread, hdone,
        Tokens.skipTrivia_of_trivia ht]

/-- What the head of a function takes notice of in front of its parameters, apart from
names. -/
def noticed : List Kind :=
  [.punct .lParen, .punct .rParen, .punct .lBrace, .punct .rBrace, .punct .semicolon,
   .keyword .operatorKw, .keyword .staticKw, .keyword .inlineKw, .keyword .virtualKw]

/-- Of other tokens only a name is left. -/
theorem exists_extent_plain (h : ∀ t ∈ ts, t.kind ∉ noticed) (flags : Flags)
    (us done : List Token) (name : Option Text) (destructor : Bool) (last : Kind) :
    ∃ done' name' destructor' last',
      extent done (opened false flags name destructor last) (ts ++ us)
        = extent done' (opened false flags name' destructor' last') us := by
  induction ts generalizing done name destructor last with
  | nil => exact ⟨done, name, destructor, last, rfl⟩
  | cons t ts ih =>
    have ht := h t List.mem_cons_self
    simp only [noticed, List.mem_cons, List.not_mem_nil, or_false, not_or] at ht
    have hstep : ∃ name' destructor' last',
        (opened false flags name destructor last).read t (ts ++ us)
          = opened false flags name' destructor' last' := by
      by_cases hi : t.kind = .ident
      · exact ⟨_, _, _, read_name hi ..⟩
      · have hflags : specified flags t.kind = flags := by
          unfold specified
          split <;> simp_all
        exact ⟨_, _, _, hflags ▸ read_opened hi ht.1 ht.2.1 ..⟩
    obtain ⟨name', destructor', last', hread⟩ := hstep
    rw [List.cons_append, extent_opened (.inr (by simp [ht])), hread]
    exact ih (fun u hu => h u (List.mem_cons_of_mem t hu)) ..

/-- Whether a name comes before any parenthesis, but for one that holds a declarator, and
then within that one. -/
def leadsToName (inGroup : Bool) : List Token → Bool
  | [] => false
  | t :: ts =>
    match t.kind with
    | .ident => true
    | .keyword .operatorKw => !inGroup || leadsToName inGroup ts
    | .punct .lParen => !inGroup && opensGroup ts && leadsToName true ts
    | .punct .rParen => false
    | _ => leadsToName inGroup ts

/-- A head that ends before a name has none. -/
theorem not_isNamed_of_end (h : t.kind ∈ [.punct .rBrace, .punct .semicolon, .punct .lBrace]) :
    ¬(extent done (opened false flags none false last) (t :: ts)).IsNamed := by
  intro hn
  simp only [List.mem_cons, List.not_mem_nil, or_false] at h
  rcases h with hk | hk | hk
  · rw [extent, if_pos (by simp [refuses, opened, hk])] at hn
    exact hn.elim
  · rw [extent, if_neg (by simp [refuses, opened, hk]), if_pos (by simp [opened, hk])] at hn
    exact absurd rfl hn
  · rw [extent, if_neg (by simp [refuses, opened, hk]), if_neg (by simp [hk]),
      if_pos (by simp [opened, hk]), if_neg (by simp [bracesInitialize, opened])] at hn
    exact absurd rfl hn

/-- The name of an operator takes the place of the one noted before. -/
theorem extent_operator (h : t.kind = .keyword .operatorKw) :
    (extent done (opened false flags name destructor last) (t :: ts)).bare
      = (extent [] (nameOperator (opened false flags none false .eof)
        (Tokens.join (operatorTokens t ts).1)) (operatorTokens t ts).2).bare := by
  rw [extent, if_neg (by simp [refuses, opened, h]), if_neg (by simp [h]), if_neg (by simp [h]),
    if_pos (by simp [opened, h])]
  exact extent_bare ..

/-- **A name noted before is forgotten**, if a name comes before it matters. -/
theorem extent_of_leadsToName (h : leadsToName inGroup ts = true)
    (hl : (last == .punct .tilde) = (last' == .punct .tilde)) (done done' : List Token)
    (hn : (extent done (opened inGroup flags none false last) ts).IsNamed) :
    (extent done' (opened inGroup flags name destructor last') ts).bare
      = (extent done (opened inGroup flags none false last) ts).bare := by
  induction ts generalizing inGroup flags last last' done done' with
  | nil => cases h
  | cons t ts ih =>
    by_cases hi : t.kind = .ident
    · have hstep : inGroup = true ∨
          t.kind ∉ [.punct .rBrace, .punct .semicolon, .punct .lBrace, .keyword .operatorKw] :=
        .inr (by simp [hi])
      rw [extent_opened hstep, extent_opened hstep, read_name hi, read_name hi, hl]
      exact extent_bare ..
    by_cases hc : t.kind = .punct .rParen
    · simp [leadsToName, hc] at h
    by_cases ho : t.kind = .punct .lParen
    · simp only [leadsToName, ho, Bool.and_eq_true, Bool.not_eq_true'] at h
      obtain ⟨⟨rfl, hgroup⟩, hmore⟩ := h
      have hstep : false = true ∨
          t.kind ∉ [.punct .rBrace, .punct .semicolon, .punct .lBrace, .keyword .operatorKw] :=
        .inr (by simp [ho])
      rw [extent_opened hstep, read_group ho hgroup] at hn ⊢
      rw [extent_opened hstep, read_group ho hgroup]
      exact ih hmore rfl _ _ hn
    by_cases hstep : inGroup = true ∨
        t.kind ∉ [.punct .rBrace, .punct .semicolon, .punct .lBrace, .keyword .operatorKw]
    · have hmore : leadsToName inGroup ts = true := by
        unfold leadsToName at h
        split at h <;> simp_all
      rw [extent_opened hstep, read_opened hi ho hc] at hn ⊢
      rw [extent_opened hstep, read_opened hi ho hc]
      refine ih hmore ?_ _ _ hn
      split
      · exact hl
      · rfl
    -- outside of parentheses the head ends without a name, or the name of an operator follows
    · simp only [not_or, Bool.not_eq_true, Classical.not_not] at hstep
      obtain ⟨rfl, hk⟩ := hstep
      by_cases hoperator : t.kind = .keyword .operatorKw
      · rw [extent_operator hoperator, extent_operator hoperator]
      · refine absurd hn (not_isNamed_of_end ?_)
        simpa [hoperator] using hk

end

theorem leadsToName_map (f : Token → Token) [Alike f] (inGroup : Bool) (ts : List Token) :
    leadsToName inGroup (ts.map f) = leadsToName inGroup ts := by
  induction ts generalizing inGroup with
  | nil => rfl
  | cons t ts ih =>
    simp only [List.map_cons, leadsToName, Alike.kind (f := f), ih, Progress.opensGroup_map]

theorem leadsToName_skipTrivia (inGroup : Bool) (ts : List Token) :
    leadsToName inGroup (Tokens.skipTrivia ts) = leadsToName inGroup ts := by
  induction ts with
  | nil => rfl
  | cons t ts ih =>
    cases ht : t.kind.isTrivia with
    | false => rw [Tokens.skipTrivia_of_not ht]
    | true =>
      rw [Tokens.skipTrivia_of_trivia ht, ih, leadsToName]
      revert ht
      cases t.kind <;> simp [Kind.isTrivia]

/-- **The head of a function behind a plain attribute** ends as it does by itself. -/
theorem extent_attributed {inner us all : List Token} {blank : Token}
    (h : Tokens.Attributed inner (blank :: us) all) (hp : ∀ t ∈ inner, t.kind ∉ noticed)
    (hb : blank.kind = .whitespace) (hl : leadsToName false us = true)
    (hn : (extent [] .start (Tokens.skipTrivia us)).IsNamed) :
    (extent [] .start all).bare = (extent [] .start (Tokens.skipTrivia us)).bare := by
  obtain @⟨a, b, c, d, ha, hb', hc, hd⟩ := h
  have hplain : ∀ t ∈ a :: b :: (inner ++ [c]), t.kind ∉ noticed := by
    have hbracket : ∀ t : Token, t.kind = .punct .lBracket ∨ t.kind = .punct .rBracket →
        t.kind ∉ noticed := by
      rintro t (hk | hk) <;> simp [noticed, hk]
    intro t ht
    simp only [List.mem_cons, List.mem_append, List.not_mem_nil, or_false] at ht
    rcases ht with rfl | rfl | ht | rfl
    · exact hbracket _ (.inl ha)
    · exact hbracket _ (.inl hb')
    · exact hp t ht
    · exact hbracket _ (.inr hc)
  obtain ⟨done, name, destructor, last, hinner⟩ :=
    exists_extent_plain hplain .none (d :: blank :: us) [] none false .eof
  have hall : a :: b :: (inner ++ c :: d :: blank :: us)
      = a :: b :: (inner ++ [c]) ++ d :: blank :: us := by simp
  have hread : (Progress.opened false .none name destructor last).read d (blank :: us)
      = .opened false .none name destructor (.punct .rBracket) := by
    rw [Progress.read_opened (by simp [hd]) (by simp [hd]) (by simp [hd]), hd]
    rfl
  obtain ⟨done', htrivia⟩ := exists_extent_skipTrivia .none name destructor (.punct .rBracket)
    (d :: done) (blank :: us)
  have htilde : (Kind.eof == .punct .tilde) = (Kind.punct .rBracket == .punct .tilde) := rfl
  have hforgotten : (extent done' (.opened false .none name destructor (.punct .rBracket))
      (Tokens.skipTrivia us)).bare
        = (extent [] (.opened false .none none false .eof) (Tokens.skipTrivia us)).bare :=
    extent_of_leadsToName (by rwa [leadsToName_skipTrivia]) htilde [] done' hn
  show (extent [] (.opened false .none none false .eof) _).bare = _
  rw [hall, hinner, extent_opened (.inr (by simp [hd])), hread, htrivia,
    Tokens.skipTrivia_of_whitespace hb, hforgotten]
  rfl

/-- A head ends before some tokens that the whole function leaves. -/
def Extent.Leaves (e : Extent) (p : Progress) (rest : List Token) : Prop :=
  e.bare = .declared p [] rest ∨
    ∃ left block, e.bare = .defined p [] left ∧ Tokens.block? left = some (block, rest)

theorem Extent.Leaves.isNamed {e : Extent} {p : Progress} {rest : List Token}
    (h : e.Leaves p rest) (hn : p.name ≠ none) : e.IsNamed := by
  rcases h with h | ⟨left, block, h, -⟩
  · cases e with
    | declared q taken rest =>
      obtain ⟨rfl, -, -⟩ := Extent.declared.inj h
      exact hn
    | _ => cases h
  · cases e with
    | defined q taken rest =>
      obtain ⟨rfl, -, -⟩ := Extent.defined.inj h
      exact hn
    | _ => cases h

theorem Extent.Leaves.map {e : Extent} {p : Progress} {rest : List Token}
    (h : e.Leaves p rest) (f : Token → Token) [Alike f] : (e.map f).Leaves p (rest.map f) := by
  have hbare : (e.map f).bare = e.bare.map f := by cases e <;> rfl
  unfold Leaves
  rw [hbare]
  rcases h with h | ⟨left, block, h, hb⟩
  · exact .inl (by rw [h]; rfl)
  · refine .inr ⟨left.map f, block.map f, by rw [h]; rfl, ?_⟩
    rw [Tokens.block?_map, hb]
    rfl

/-- A function that is read has a head with an end and a name. -/
theorem leaves_of_read {ds : Definitions} {lead : Lead} {ts rest : List Token} {item : Item}
    (h : read ds lead ts = .read item rest) :
    ∃ p d, item = .entity d ∧ (extent [] .start ts).Leaves p rest ∧
      d.form = p.form ∧ p.name = some d.name ∧ d.flags = p.flags := by
  unfold read at h
  cases he : extent [] .start ts with
  | broken left =>
    rw [he] at h
    cases h
  | unclosed brace =>
    rw [he] at h
    cases h
  | declared p taken left =>
    simp only [he] at h
    cases hname : p.name with
    | none =>
      rw [hname] at h
      cases h
    | some name =>
      simp only [hname] at h
      obtain ⟨rfl, rfl⟩ := Outcome.read.inj h
      exact ⟨p, _, rfl, .inl rfl, rfl, hname, rfl⟩
  | defined p taken left =>
    simp only [he] at h
    cases hname : p.name with
    | none =>
      rw [hname] at h
      cases h
    | some name =>
      simp only [hname] at h
      cases hb : Tokens.block? left with
      | none =>
        rw [hb] at h
        cases h
      | some m =>
        simp only [hb] at h
        obtain ⟨rfl, rfl⟩ := Outcome.read.inj h
        exact ⟨p, _, rfl, .inr ⟨left, _, rfl, hb⟩, rfl, hname, rfl⟩

/-- A function is read if its head has an end and a name. -/
theorem exists_read_of_leaves (ds : Definitions) (lead : Lead) {ts rest : List Token}
    {p : Progress} {name : Text} (h : (extent [] .start ts).Leaves p rest)
    (hn : p.name = some name) :
    ∃ d, read ds lead ts = .read (.entity d) rest ∧
      d.form = p.form ∧ d.name = name ∧ d.flags = p.flags := by
  unfold read
  rcases h with h | ⟨left, block, h, hb⟩
  · cases he : extent [] .start ts with
    | declared q taken left =>
      rw [he] at h
      obtain ⟨rfl, -, rfl⟩ := Extent.declared.inj h
      simp only [hn]
      exact ⟨_, rfl, rfl, rfl, rfl⟩
    | _ =>
      rw [he] at h
      cases h
  · cases he : extent [] .start ts with
    | defined q taken left =>
      rw [he] at h
      obtain ⟨rfl, -, rfl⟩ := Extent.defined.inj h
      simp only [hn, hb]
      exact ⟨_, rfl, rfl, rfl, rfl⟩
    | _ =>
      rw [he] at h
      cases h

/-- **A function behind a plain attribute** is read as it is by itself, up to the places. -/
theorem read_attributed (ds : Definitions) {lead : Lead} (lead' : Lead)
    {inner us all rest : List Token} {blank : Token} {item : Item}
    (f : Token → Token) [Alike f] (h : Tokens.Attributed inner (blank :: us.map f) all)
    (hp : ∀ t ∈ inner, t.kind ∉ noticed) (hb : blank.kind = .whitespace)
    (hl : leadsToName false us = true)
    (hr : read ds lead (Tokens.skipTrivia us) = .read item rest) :
    ∃ d d', item = .entity d ∧ read ds lead' all = .read (.entity d') (rest.map f) ∧
      d'.form = d.form ∧ d'.name = d.name ∧ d'.flags = d.flags := by
  obtain ⟨p, d, hitem, hleaves, hform, hname, hflags⟩ := leaves_of_read hr
  have hmap : extent [] .start (Tokens.skipTrivia (us.map f))
      = (extent [] .start (Tokens.skipTrivia us)).map f := by
    rw [Tokens.skipTrivia_map]
    exact extent_map f [] .start _
  have hleaves' := hleaves.map f
  rw [← hmap] at hleaves'
  have hsame := extent_attributed h hp hb (by rwa [leadsToName_map])
    (hleaves'.isNamed (by simp [hname]))
  have hall : (extent [] .start all).Leaves p (rest.map f) := by
    unfold Extent.Leaves
    rw [hsame]
    exact hleaves'
  obtain ⟨d', hread, hform', hname', hflags'⟩ := exists_read_of_leaves ds lead' hall hname
  exact ⟨d, d', hitem, hread, hform'.trans hform.symm, hname', hflags'.trans hflags.symm⟩

end Function
end Construct
end HeaderOutline
