import HeaderOutline.Proofs.Signatures
import HeaderOutline.Proofs.Written.Reading

/-! # Reading written functions

The heads of written functions and of constructors are read to their ends
(`Written.Function.leads_head`, `Written.Constructor.leads_head`).  What comes next, a semicolon or
a body, makes a function of them, whose signature is the text of the head
(`Construct.Function.read_declared`, `Construct.Function.read_defined`).  The probe for a function
looks no further than to the parenthesis behind the name, so each of them is read as one
(`Construct.read_written`, `Construct.read_constructor`).
-/
namespace HeaderOutline

open Written (braces)
open Token (Spells)

/-! ## The ends of heads -/

/-- Some lexemes end with one that is no trivia, and not in a blank. -/
def Lexeme.EndsSolid (xs : List Lexeme) : Prop :=
  ∃ zs z w c, xs = zs ++ [z] ∧ z.kind.isTrivia = false ∧ z.text = w ++ [c] ∧
    Text.isBlank c = false

namespace Lexeme

variable {x : Lexeme} {xs ys : List Lexeme}

theorem EndsSolid.append (h : EndsSolid ys) (xs : List Lexeme) : EndsSolid (xs ++ ys) := by
  obtain ⟨zs, z, w, c, rfl, hz⟩ := h
  exact ⟨xs ++ zs, z, w, c, (List.append_assoc ..).symm, hz⟩

theorem EndsSolid.cons (h : EndsSolid ys) (x : Lexeme) : EndsSolid (x :: ys) := h.append [x]

theorem EndsSolid.trimEnd (h : EndsSolid xs) : (textOf xs).trimEnd = textOf xs := by
  obtain ⟨zs, z, w, c, rfl, -, htext, hc⟩ := h
  have hend : textOf (zs ++ [z]) = textOf zs ++ w ++ [c] := by
    rw [textOf_append, textOf_cons, textOf_nil, htext, List.append_nil, List.append_assoc]
  rw [hend, Text.trimEnd, List.reverse_append, List.reverse_singleton, List.singleton_append,
    List.dropWhile_cons_of_neg (by simp [hc])]
  simp

theorem endsSolid_closer {p : Punct} (h : p ∈ [.rParen, .rBrace, .semicolon]) :
    EndsSolid [.punct p] := by
  simp only [List.mem_cons, List.not_mem_nil, or_false] at h
  rcases h with rfl | rfl | rfl
  · exact ⟨[], _, [], ')', rfl, rfl, rfl, by decide⟩
  · exact ⟨[], _, [], '\x7d', rfl, rfl, rfl, by decide⟩
  · exact ⟨[], _, [], ';', rfl, rfl, rfl, by decide⟩

end Lexeme

/-- Tokens made of such lexemes lose nothing but the trivia behind them. -/
theorem Construct.Function.withoutTrailingTrivia_spells {us : List Token} {xs : List Lexeme}
    {blank : Token} (h : Spells us xs) (hx : Lexeme.EndsSolid xs) (hb : blank.kind = .whitespace) :
    withoutTrailingTrivia (us ++ [blank]) = us := by
  obtain ⟨zs, z, w, c, rfl, hz, -⟩ := hx
  obtain ⟨vs, ws, rfl, -, _ | ⟨hkind, -, _ | _⟩⟩ := h.split
  have hsolid : Kind.isTrivia _ = false := (congrArg Kind.isTrivia hkind).trans hz
  rw [withoutTrailingTrivia_append, if_pos (by simp [hb, Kind.isTrivia]),
    withoutTrailingTrivia_append, if_neg (by simp [hsolid]), withoutTrailingTrivia_cons hsolid]
  rfl

namespace Written

namespace Function

variable [Alphabet] (f : Function)

theorem endsSolid_headLexemes : Lexeme.EndsSolid f.headLexemes := by
  have hqualifiers : Lexeme.EndsSolid (.punct .rParen :: f.qualifiers) := by
    unfold qualifiers
    cases f.isPure with
    | true =>
      exact .cons (.append ⟨[.blanks 1, .punct .eq, .blanks 1], zero, [], '0', rfl, rfl, rfl,
        by decide⟩ _) _
    | false =>
      cases f.isConst with
      | true =>
        exact .cons ⟨[.blanks 1], .keyword .constKw, "cons".toList, 't', rfl, rfl, by decide,
          by decide⟩ _
      | false => exact Lexeme.endsSolid_closer (by decide)
  exact .append (.cons (.cons (.cons (.cons (.append hqualifiers _) _) _) _) _) _

open Construct.Function in
/-- **The head of a written function** is read to its end. -/
theorem leads_head (ys : List Lexeme) :
    ∃ atEnd last, Leads .start f.headLexemes (.behind f.name.text f.flags false atEnd last) ys := by
  let specified := withSpecifiers .none f.specifiers
  obtain ⟨last, hspecifiers⟩ := leads_leading f.specifiers f.isSpecifier .none .eof
  obtain ⟨name, destructor, last', hne, htype⟩ := leads_type f.returns specified last
  have hflags : specified = _ := withSpecifiers_eq .none f.specifiers
  obtain ⟨atEnd, last'', hqualifiers⟩ : ∃ atEnd last, ∀ ys, Leads _ f.qualifiers _ ys :=
    leads_qualifiers f f.name.text (show specified.isConst = false by rw [hflags]; rfl)
      (by rw [hflags]; rfl)
  have hall : { specified with isConst := f.isConst, isPure := f.isPure } = f.flags := by
    rw [hflags]
    simp [flags, Flags.none]
  rw [hall] at hqualifiers
  have hparams := (leads_params f.name.text specified f.params).append (hqualifiers ys)
  have hhead := (hspecifiers _).append
    ((htype _).cons (leads_blank_opened.cons ((leads_name f.name hne).cons hparams)))
  refine ⟨atEnd, last'', ?_⟩
  show Leads (.opened false .none none false .eof) f.headLexemes _ ys
  simpa [headLexemes] using hhead

end Function

namespace Constructor

open Construct.Function

variable [Alphabet] (c : Constructor)

theorem endsSolid_initializer (i : Initializer) : Lexeme.EndsSolid i.lexemes := by
  have hclose := Lexeme.endsSolid_closer (p := i.bracing.closer) (by cases i.bracing <;> decide)
  exact .cons (.cons (.append hclose _) _) _

theorem endsSolid_headLexemes : Lexeme.EndsSolid c.headLexemes := by
  have hmore : ∀ first others, Lexeme.EndsSolid (Initializer.lexemes first ++ more others) := by
    intro first others
    induction others generalizing first with
    | nil =>
      rw [more, List.flatMap_nil, List.append_nil]
      exact endsSolid_initializer first
    | cons i others ih => exact .append (.cons (.cons (ih i) _) _) _
  exact .cons (.cons (.append (.cons (.cons (.cons (.cons (hmore _ _) _) _) _) _) _) _) _

/-- Further member initializers are passed over like the first one. -/
theorem leads_more (name : Text) (flags : Flags) (first : Bracing) (others : List Initializer) :
    ∃ last : Bracing, ∀ ys, Leads (.behind name flags true false (.punct first.closer))
      (more others) (.behind name flags true false (.punct last.closer)) ys := by
  induction others generalizing first with
  | nil => exact ⟨first, fun _ => .nil⟩
  | cons i others ih =>
    obtain ⟨last, hmore⟩ := ih i.bracing
    exact ⟨last, fun ys =>
      leads_comma.cons (leads_blank.cons ((leads_initializer i).append (hmore ys)))⟩

/-- **The head of a constructor** is read to its end, with all member initializers. -/
theorem leads_head (ys : List Lexeme) :
    ∃ last : Bracing, Leads .start c.headLexemes
      (.behind c.name.text .none true false (.punct last.closer)) ys := by
  obtain ⟨last, hmore⟩ := leads_more c.name.text .none c.first.bracing c.others
  have hinitializers : Leads (.behind c.name.text .none false true (.punct .rParen))
      (.blanks 1 :: .punct .colon :: .blanks 1 :: (c.first.lexemes ++ more c.others))
      (.behind c.name.text .none true false (.punct last.closer)) ys :=
    leads_blank.cons (leads_colon.cons (leads_blank.cons
      ((leads_initializer c.first).append (hmore ys))))
  have hname : ∀ zs, Leads .start [c.name.lexeme]
      (.opened false .none (some c.name.text) false .ident) zs := fun zs =>
    leads_name c.name nofun
  have hhead := (hname _).cons ((leads_params c.name.text .none c.params).append hinitializers)
  exact ⟨last, by simpa [headLexemes] using hhead⟩

end Constructor
end Written

/-! ## What is read -/

/-- A draft is a function with a given name, flags, signature and body. -/
structure Draft.IsFunction (d : Draft) (name : Text) (flags : Flags) (signature : Text)
    (body : Option Text) : Prop where
  form : d.form = .function
  name : d.name = name
  flags : d.flags = flags
  signature : d.signature = signature
  body : d.body.map Body.text = body

namespace Construct

namespace Function

variable {name : Text} {flags : Flags} {inInitializers atEnd : Bool} {last : Kind}
  {xs ys : List Lexeme} {ts : List Token}

/-- **A head that a semicolon follows** is a function without a body. -/
theorem read_declared (first : Token)
    (h : Leads .start xs (.behind name flags inInitializers atEnd last) (.punct .semicolon :: ys))
    (hs : Spells ts (xs ++ .punct .semicolon :: ys)) :
    ∃ d rest, read .empty (.none first) ts = .read (.entity d) rest ∧ Spells rest ys ∧
      d.IsFunction name flags (Lexeme.textOf xs ++ ";".toList) none := by
  obtain ⟨us, vs, rfl, hus, hvs⟩ := hs.split
  have hextent := h [] us vs hus hvs
  obtain _ | @⟨t, _, rest, _, hkind, htext, hrest⟩ := hvs
  have hk : t.kind = .punct .semicolon := hkind
  have hdeclared : extent [] .start (us ++ t :: rest)
      = .declared (.behind name flags inInitializers atEnd last) (us ++ [t]) rest := by
    rw [hextent, extent_cons,
      if_neg (by simp [Progress.refuses, hk, Context.stops, Context.constructStarts]),
      if_pos (by simp [Progress.behind, hk])]
    simp
  have hhead : (Token.textOf (us ++ [t])).trimEnd = Lexeme.textOf xs ++ ";".toList := by
    have hspells : Spells (us ++ [t]) (xs ++ [.punct .semicolon]) :=
      hus.append (.cons hkind htext .nil)
    rw [hspells.textOf, Lexeme.EndsSolid.trimEnd (.append (Lexeme.endsSolid_closer (by decide)) _),
      Lexeme.textOf_append]
    rfl
  have hread : read .empty (.none first) (us ++ t :: rest)
      = .read (.entity (draft .empty (.none first)
        (.behind name flags inInitializers atEnd last) name (us ++ [t])
        ((us ++ [t]).getLastD first) none)) rest := by
    rw [read, hdeclared]
    rfl
  refine ⟨_, rest, hread, hrest, rfl, rfl, rfl, ?_, rfl⟩
  show (Lead.none first).onto (Tokens.substituted .empty (us ++ [t])).trimEnd = _
  rw [Lead.onto_of_text_nil rfl, Tokens.substituted_empty, hhead]

/-- **A head that a body follows** is a function with this body, unless the brace belongs to a
member initializer. -/
theorem read_defined [Alphabet] (first : Token) (hsolid : Lexeme.EndsSolid xs)
    (b : Written.Inner (Kind.NestedBy [braces]))
    (hinit : (Progress.behind name flags inInitializers atEnd last).bracesInitialize = false)
    (h : Leads .start xs (.behind name flags inInitializers atEnd last)
      (.blanks 1 :: (b.bracedLexemes ++ ys)))
    (hs : Spells ts (xs ++ .blanks 1 :: (b.bracedLexemes ++ ys))) :
    ∃ d rest, read .empty (.none first) ts = .read (.entity d) rest ∧ Spells rest ys ∧
      d.IsFunction name flags (Lexeme.textOf xs) (some b.braced) := by
  obtain ⟨us, vs, rfl, hus, hvs⟩ := hs.split
  have hextent := h [] us vs hus hvs
  obtain _ | @⟨blank, _, vs, _, hblank, -, hvs⟩ := hvs
  obtain ⟨block, rest, rfl, hblock, hrest⟩ := hvs.split
  have hbody := hblock.textOf.trans b.textOf_bracedLexemes
  obtain _ | @⟨o, _, _, _, ho, -, hmore⟩ := hblock
  obtain ⟨ws, vs, rfl, hws, _ | @⟨c, _, _, _, hc, -, _ | _⟩⟩ := hmore.split
  rw [List.cons_append, List.append_assoc, List.singleton_append] at hextent ⊢
  have hko : o.kind = .punct .lBrace := ho
  have hdefined : extent [] .start (us ++ blank :: o :: (ws ++ c :: rest))
      = .defined (.behind name flags inInitializers atEnd last) (us ++ [blank])
        (o :: (ws ++ c :: rest)) := by
    have hgo : (Progress.behind name flags inInitializers atEnd last).GoesOn blank.kind := by
      rw [hblank]
      exact goesOn_behind (by decide) (by decide)
    have hkb : blank.kind = .whitespace := hblank
    have hkeep : (Progress.behind name flags inInitializers atEnd last).read blank
        (o :: (ws ++ c :: rest)) = .behind name flags inInitializers atEnd last := by
      simp [Progress.read, Progress.note, hkb, Kind.isTrivia]
    rw [hextent, extent_goesOn hgo, hkeep, extent_cons,
      if_neg (by simp [Progress.refuses, hko, Context.stops, Context.constructStarts]),
      if_neg (by simp [hko]), if_pos (by simp [Progress.behind, hko]), if_neg (by simp [hinit])]
    simp
  have hblock := Tokens.block?_nested ho hc (by rw [hws.map_kind]; exact b.fits_lexemes) rest
  have hread : read .empty (.none first) (us ++ blank :: o :: (ws ++ c :: rest))
      = .read (.entity (draft .empty (.none first) (.behind name flags inInitializers atEnd last)
        name (withoutTrailingTrivia (us ++ [blank])) ((o :: (ws ++ [c])).getLastD first)
        (some ⟨.between o ((o :: (ws ++ [c])).getLastD first),
          Token.textOf (o :: (ws ++ [c]))⟩))) rest := by
    simp only [read, hdefined, hblock]
    rfl
  rw [withoutTrailingTrivia_spells hus hsolid hblank] at hread
  refine ⟨_, rest, hread, hrest, rfl, rfl, rfl, ?_, ?_⟩
  · show (Lead.none first).onto (Tokens.substituted .empty us).trimEnd = _
    rw [Lead.onto_of_text_nil rfl, Tokens.substituted_empty, hus.textOf, hsolid.trimEnd]
  · exact congrArg some hbody

end Function

/-! ## The probe -/

namespace Declaration

variable {t : Token} {ts : List Token} {xs : List Lexeme}

/-- A word of a type or a name is no specifier. -/
theorem skipSpecifiers_word {afterExtern : Bool}
    (h : t.kind = .ident ∨ t.kind.isBuiltinType = true) :
    skipSpecifiers afterExtern (t :: ts) = t :: ts := by
  have hbuiltin : ∀ k ∈ Keyword.all, k.isBuiltinType = true →
      specifiers.contains (.keyword k) = false ∧ typeOpeners.contains (.keyword k) = false := by
    decide
  rcases h with h | h
  · exact skipSpecifiers_of_kind (by rw [h]; rfl) (by rw [h]; exact nofun) (by rw [h]; decide)
      (by rw [h]; decide) (by rw [h]; exact nofun)
  · cases hk : t.kind with
    | keyword k =>
      rw [hk] at h
      obtain ⟨hs, ho⟩ := hbuiltin k k.mem_all h
      exact skipSpecifiers_of_kind (by rw [hk]; rfl) (by rw [hk]; exact nofun) (by rw [hk, hs])
        (by rw [hk, ho]) (by rw [hk]; exact nofun)
    | _ =>
      rw [hk] at h
      cases h

/-- Written specifiers are skipped. -/
theorem skipSpecifiers_leading {ks : List Keyword} (hk : ∀ k ∈ ks, .keyword k ∈ specifiers)
    (afterExtern : Bool) (h : Spells ts (Written.Function.leading ks ++ xs)) :
    ∃ afterExtern' us, skipSpecifiers afterExtern ts = skipSpecifiers afterExtern' us ∧
      Spells us xs := by
  induction ks generalizing afterExtern ts with
  | nil => exact ⟨afterExtern, ts, rfl, h⟩
  | cons k ks ih =>
    obtain _ | @⟨t, _, _, _, hkind, -, _ | @⟨blank, _, vs, _, hblank, -, hvs⟩⟩ := h
    obtain ⟨b, us, hskip, hus⟩ := ih (fun u hu => hk u (List.mem_cons_of_mem k hu))
      (t.kind == .keyword .externKw) hvs
    have hspecifier : specifiers.contains t.kind = true := by
      rw [hkind, List.contains_iff_mem]
      exact hk k List.mem_cons_self
    refine ⟨b, us, ?_, hus⟩
    rw [skipSpecifiers_of_specifier hspecifier, ← skipSpecifiers_skipTrivia,
      Tokens.skipTrivia_of_whitespace hblank, skipSpecifiers_skipTrivia, hskip]

/-- What looks like a written function is one. -/
theorem isFunction_written [Alphabet] (f : Written.Function) (h : Spells ts (f.headLexemes ++ xs)) :
    isFunction ts = true := by
  rw [Written.Function.headLexemes, List.append_assoc] at h
  obtain ⟨b, us, hskip, hus⟩ := skipSpecifiers_leading f.isSpecifier false h
  obtain _ | ⟨htype, -, _ | ⟨hblank, -, _ | ⟨hname, -, _ | ⟨hparen, -, -⟩⟩⟩⟩ := hus
  have hword : ∀ t : Token, t.kind = f.returns.lexeme.kind →
      t.kind = .ident ∨ t.kind.isBuiltinType = true := by
    intro t ht
    rw [ht]
    cases f.returns with
    | named name => exact .inl rfl
    | builtin k isType => exact .inr isType
  rw [isFunction, hskip, skipSpecifiers_word (hword _ htype), maxWords,
    paramsFollow_word (hword _ htype), paramsFollow_blank hblank, paramsFollow_word (.inl hname),
    paramsFollow_lParen hparen]

/-- What looks like a constructor is a function. -/
theorem isFunction_constructor [Alphabet] (c : Written.Constructor)
    (h : Spells ts (c.headLexemes ++ xs)) : isFunction ts = true := by
  obtain _ | ⟨hname, -, _ | ⟨hparen, -, -⟩⟩ := h
  rw [isFunction, skipSpecifiers_word (.inl hname), maxWords, paramsFollow_word (.inl hname),
    paramsFollow_lParen hparen]

end Declaration

/-- A written function starts with a specifier or with a type. -/
theorem exists_first_written [Alphabet] (f : Written.Function) {ts : List Token} {ys : List Lexeme}
    (h : Spells ts (f.headLexemes ++ ys)) :
    ∃ t behind, ts = t :: behind ∧ t.kind.isTrivia = false ∧
      t.kind ∉ [.keyword .classKw, .keyword .structKw, .keyword .unionKw, .keyword .enumKw] := by
  have hspecifier : ∀ k ∈ specifiers, k.isTrivia = false ∧
      k ∉ [.keyword .classKw, .keyword .structKw, .keyword .unionKw, .keyword .enumKw] := by
    decide
  have hbuiltin : ∀ k ∈ Keyword.all, k.isBuiltinType = true → Kind.keyword k ∉
      [.keyword .classKw, .keyword .structKw, .keyword .unionKw, .keyword .enumKw] := by
    decide
  rw [Written.Function.headLexemes] at h
  cases hks : f.specifiers with
  | nil =>
    rw [hks] at h
    obtain _ | ⟨hkind, -, -⟩ := h
    refine ⟨_, _, rfl, ?_⟩
    rw [hkind]
    cases f.returns with
    | named name => exact ⟨rfl, show Kind.ident ∉ _ by decide⟩
    | builtin k isType => exact ⟨rfl, hbuiltin k k.mem_all isType⟩
  | cons k ks =>
    rw [hks] at h
    obtain _ | ⟨hkind, -, -⟩ := h
    refine ⟨_, _, rfl, ?_⟩
    rw [hkind]
    exact hspecifier _ (f.isSpecifier k (hks ▸ List.mem_cons_self))

variable {ts : List Token} {ys : List Lexeme}

/-- **A written function is read** as what it says. -/
theorem read_written [Alphabet] (merge : Bool) (f : Written.Function)
    (hs : Spells ts (f.lexemes ++ ys)) :
    ∃ t behind d rest, ts = t :: behind ∧ t.kind.isTrivia = false ∧
      read .empty merge t behind = .read (.entity d) rest ∧ Spells rest ys ∧
      d.IsFunction f.name.text f.flags f.signature (f.body.map fun _ => f.bodyText) := by
  rw [Written.Function.lexemes, List.append_assoc] at hs
  obtain ⟨t, behind, rfl, htrivia, htype⟩ := exists_first_written f hs
  obtain ⟨d, rest, hread, hrest, hd⟩ : ∃ d rest,
      Function.read .empty (.none t) (t :: behind) = .read (.entity d) rest ∧ Spells rest ys ∧
      d.IsFunction f.name.text f.flags f.signature (f.body.map fun _ => f.bodyText) := by
    obtain ⟨atEnd, last, hhead⟩ := f.leads_head (f.ending ++ ys)
    unfold Written.Function.ending at hs hhead
    unfold Written.Function.signature Written.Function.bodyText
    rw [← f.textOf_headLexemes]
    cases hb : f.body with
    | none =>
      rw [hb] at hs hhead
      exact Function.read_declared t hhead hs
    | some b =>
      rw [hb] at hs hhead
      rw [show (some b).isNone = false from rfl, if_neg Bool.false_ne_true, List.append_nil]
      exact Function.read_defined t f.endsSolid_headLexemes b rfl hhead hs
  exact ⟨t, behind, d, rest, rfl, htrivia,
    (read_function_of_isFunction merge (Declaration.isFunction_written f hs) htype).trans hread,
    hrest, hd⟩

/-- **A constructor is read** as what it says. -/
theorem read_constructor [Alphabet] (merge : Bool) (c : Written.Constructor)
    (hs : Spells ts (c.headLexemes ++ .blanks 1 :: (c.body.bracedLexemes ++ ys))) :
    ∃ t behind d rest, ts = t :: behind ∧ t.kind.isTrivia = false ∧
      read .empty merge t behind = .read (.entity d) rest ∧ Spells rest ys ∧
      d.IsFunction c.name.text .none c.signature (some c.bodyText) := by
  have hfunction := Declaration.isFunction_constructor c hs
  obtain ⟨last, hhead⟩ := c.leads_head (.blanks 1 :: (c.body.bracedLexemes ++ ys))
  obtain ⟨t, behind, rfl, hk⟩ : ∃ t behind, ts = t :: behind ∧ t.kind = .ident := by
    obtain _ | ⟨hkind, -, -⟩ := hs
    exact ⟨_, _, rfl, hkind⟩
  obtain ⟨d, rest, hread, hrest, hd⟩ := Function.read_defined t c.endsSolid_headLexemes c.body
    (by cases last <;> rfl) hhead hs
  exact ⟨t, behind, d, rest, rfl, by rw [hk]; rfl,
    (read_function_of_isFunction merge hfunction (by rw [hk]; decide)).trans hread, hrest,
    c.textOf_headLexemes ▸ hd⟩

end Construct
end HeaderOutline
