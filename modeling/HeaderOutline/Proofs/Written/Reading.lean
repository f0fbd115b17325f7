import HeaderOutline.Proofs.Attribute.Head
import HeaderOutline.Proofs.Core.Tree
import HeaderOutline.Proofs.Respaced.Function
import HeaderOutline.Proofs.Written.Spelling

/-! # Reading the parts of a written function

The head of a function is read in one pass, lexeme by lexeme, and how far it has come is kept in
its progress.  Some lexemes lead from one progress to another if the pass goes so through all
tokens that are made of them (`Construct.Function.Leads`); such steps follow one another
(`Leads.append`), so that each part of a function has a lemma of its own.

Within parentheses the progress only counts them, whatever stands there
(`leads_nested`): names, semicolons and keywords in the parameters are passed over.  Behind the
parameters the name stays what it is (`Progress.behind`), and a brace opens the body unless it
stands directly behind the member of an initializer (`leads_initializer`).
-/
namespace HeaderOutline

open Written (parens braces brackets)

/-! ## Nested brackets -/

namespace Kind.NestedBy

variable {pairs pairs' : List (Kind × Kind)} {ks ks' : List Kind}

theorem append (h : NestedBy pairs ks) (h' : NestedBy pairs ks') : NestedBy pairs (ks ++ ks') := by
  induction h with
  | nil => exact h'
  | plain hk _ ih => exact .plain hk ih
  | group pair inner _ _ ih =>
    rw [List.cons_append, List.append_assoc, List.cons_append]
    exact .group pair inner ih

/-- Brackets of fewer forms are nested, too, if those of the other forms are different kinds. -/
theorem fewer (h : NestedBy pairs ks) (hsub : pairs' ⊆ pairs)
    (hother : ∀ p ∈ pairs, p ∈ pairs' ∨
      ∀ q ∈ pairs', (p.1 ≠ q.1 ∧ p.1 ≠ q.2) ∧ p.2 ≠ q.1 ∧ p.2 ≠ q.2) : NestedBy pairs' ks := by
  induction h with
  | nil => exact .nil
  | plain hk _ ih => exact .plain (fun p hp => hk p (hsub hp)) ih
  | group pair _ _ ihinner ihmore =>
    rcases hother _ pair with hin | hout
    · exact .group hin ihinner ihmore
    · exact .plain (fun q hq => (hout q hq).1)
        (ihinner.append (.plain (fun q hq => (hout q hq).2) ihmore))

end Kind.NestedBy

namespace Tokens

variable {t o c : Token} {ts us rest : List Token} {depth : Nat}

/-- Within a block, tokens whose braces are nested are passed over. -/
theorem closeBraces_nested (h : Kind.NestedBy [braces] (us.map (·.kind))) (done : List Token)
    (depth : Nat) (rest : List Token) :
    closeBraces done (depth + 1) (us ++ rest)
      = closeBraces (us.reverse ++ done) (depth + 1) rest := by
  generalize hks : us.map (·.kind) = ks at h
  induction h generalizing us done depth rest with
  | nil =>
    obtain rfl := List.map_eq_nil_iff.mp hks
    rfl
  | plain hk _ ih =>
    obtain ⟨u, us, rfl, rfl, rfl⟩ := List.map_eq_cons_iff.mp hks
    obtain ⟨ho, hc⟩ : u.kind ≠ .punct .lBrace ∧ u.kind ≠ .punct .rBrace :=
      hk braces List.mem_cons_self
    rw [List.cons_append, closeBraces, if_neg (mt beq_iff_eq.mp ho), if_neg (mt beq_iff_eq.mp hc),
      ih _ _ _ rfl]
    simp
  | group pair _ _ ihinner ihmore =>
    obtain ⟨rfl, rfl⟩ := Prod.mk.inj (List.mem_singleton.mp pair)
    obtain ⟨o, us, rfl, ho, hopen⟩ := List.map_eq_cons_iff.mp hks
    obtain ⟨inside, us, rfl, rfl, hclose⟩ := List.map_eq_append_iff.mp hopen
    obtain ⟨c, behind, rfl, hc, rfl⟩ := List.map_eq_cons_iff.mp hclose
    rw [List.cons_append, closeBraces, if_pos (beq_iff_eq.mpr ho), List.append_assoc,
      ihinner _ _ _ rfl, List.cons_append, closeBraces, if_neg (by simp [hc]),
      if_pos (beq_iff_eq.mpr hc), if_neg (by omega), Nat.add_sub_cancel, ihmore _ _ _ rfl]
    simp

/-- A block ends with the brace that closes it. -/
theorem block?_nested (ho : o.kind = .punct .lBrace) (hc : c.kind = .punct .rBrace)
    (h : Kind.NestedBy [braces] (us.map (·.kind))) (rest : List Token) :
    block? (o :: (us ++ c :: rest)) = some (o :: (us ++ [c]), rest) := by
  rw [block?, closeBraces, if_pos (beq_iff_eq.mpr ho), closeBraces_nested h, closeBraces,
    if_neg (by simp [hc]), if_pos (beq_iff_eq.mpr hc), if_pos (Nat.le_refl 1)]
  simp

end Tokens

/-! ## Tokens made of lexemes -/

namespace Token.Spells

variable {ts : List Token} {x : Lexeme} {xs ys : List Lexeme}

theorem split (h : Spells ts (xs ++ ys)) :
    ∃ us vs, ts = us ++ vs ∧ Spells us xs ∧ Spells vs ys := by
  induction xs generalizing ts with
  | nil => exact ⟨[], ts, rfl, .nil, h⟩
  | cons x xs ih =>
    obtain _ | ⟨kind, text, more⟩ := h
    obtain ⟨us, vs, rfl, hus, hvs⟩ := ih more
    exact ⟨_ :: us, vs, rfl, .cons kind text hus, hvs⟩

theorem append {us : List Token} (h : Spells ts xs) (h' : Spells us ys) :
    Spells (ts ++ us) (xs ++ ys) := by
  induction h with
  | nil => exact h'
  | cons kind text _ ih => exact .cons kind text ih

theorem map_kind (h : Spells ts xs) : ts.map (·.kind) = xs.map (·.kind) := by
  induction h with
  | nil => rfl
  | cons kind _ _ ih => rw [List.map_cons, List.map_cons, kind, ih]

theorem textOf (h : Spells ts xs) : Token.textOf ts = Lexeme.textOf xs := by
  induction h with
  | nil => rfl
  | cons _ text _ ih => rw [Token.textOf_cons, Lexeme.textOf_cons, text, ih]

end Token.Spells

namespace Construct.Function

open Token (Spells)

variable {p q r : Progress} {x : Lexeme} {xs ys zs : List Lexeme}

/-- Some lexemes, in front of others, lead from one progress to another. -/
def Leads (p : Progress) (xs : List Lexeme) (q : Progress) (ys : List Lexeme) : Prop :=
  ∀ done us rest, Spells us xs → Spells rest ys →
    extent done p (us ++ rest) = extent (us.reverse ++ done) q rest

theorem Leads.nil : Leads p [] p ys := by
  rintro done us rest ⟨⟩ -
  rfl

theorem Leads.append (h : Leads p xs q (zs ++ ys)) (h' : Leads q zs r ys) :
    Leads p (xs ++ zs) r ys := by
  intro done us rest hus hrest
  obtain ⟨us, vs, rfl, hus, hvs⟩ := hus.split
  rw [List.append_assoc, h done us (vs ++ rest) hus (hvs.append hrest), h' _ vs rest hvs hrest]
  simp

theorem Leads.cons (h : Leads p [x] q (xs ++ ys)) (h' : Leads q xs r ys) :
    Leads p (x :: xs) r ys :=
  h.append h'

/-- A token of some kind does not end the head. -/
def Progress.GoesOn (p : Progress) (k : Kind) : Prop :=
  p.depth = 0 → k ∉ [.punct .rBrace, .punct .semicolon, .punct .lBrace] ∧
    (p.paramsOpen = false → k ≠ .keyword .operatorKw) ∧
    (p.paramsClosed = true → k ∉ Context.function.stops)

/-- One token that does not end the head is read. -/
theorem extent_goesOn {t : Token} {ts : List Token} (h : p.GoesOn t.kind) (done : List Token) :
    extent done p (t :: ts) = extent (t :: done) (p.read t ts) ts := by
  rw [extent_cons]
  by_cases hd : p.depth = 0
  · obtain ⟨hends, hoperator, hstops⟩ := h hd
    simp only [List.mem_cons, List.not_mem_nil, or_false, not_or] at hends
    have hrefuses : p.refuses t.kind = false := by
      rw [Progress.refuses, beq_false_of_ne hends.1]
      cases hc : p.paramsClosed with
      | false => simp
      | true => simp [hstops hc]
    rw [hrefuses, if_neg Bool.false_ne_true, if_neg (by simp [hends]), if_neg (by simp [hends]),
      if_neg]
    cases ho : p.paramsOpen with
    | false => simp [hoperator ho]
    | true => simp
  · have hne : (p.depth == 0) = false := beq_false_of_ne hd
    simp [Progress.refuses, hne]

theorem Leads.one (h : p.GoesOn x.kind)
    (hread : ∀ t rest, t.kind = x.kind → t.text = x.text → Spells rest ys → p.read t rest = q) :
    Leads p [x] q ys := by
  rintro done us rest (_ | ⟨kind, text, _ | _⟩) hrest
  rw [List.singleton_append, extent_goesOn (by rwa [kind]), hread _ _ kind text hrest]
  rfl

/-! ## In front of the parameters -/

section

open Progress

variable {flags : Flags} {name : Option Text} {destructor : Bool} {last : Kind}

theorem goesOn_opened {k : Kind} (h : k ∉ [.punct .rBrace, .punct .semicolon, .punct .lBrace,
    .keyword .operatorKw]) : (opened false flags name destructor last).GoesOn k := by
  intro _
  simp only [List.mem_cons, List.not_mem_nil, or_false, not_or] at h ⊢
  exact ⟨⟨h.1, h.2.1, h.2.2.1⟩, fun _ => h.2.2.2, nofun⟩

/-- A blank changes nothing. -/
theorem leads_blank_opened : Leads (opened false flags name destructor last) [.blanks 1]
    (opened false flags name destructor last) ys := by
  refine .one (goesOn_opened (by decide)) fun t rest kind _ _ => ?_
  have hk : t.kind = .whitespace := kind
  rw [read_opened (by simp [hk]) (by simp [hk]) (by simp [hk]), hk]
  rfl

/-- The flags with those that some specifiers stand for. -/
def withSpecifiers (flags : Flags) (ks : List Keyword) : Flags :=
  ks.foldl (fun flags k => specified flags (.keyword k)) flags

theorem withSpecifiers_eq (flags : Flags) (ks : List Keyword) :
    withSpecifiers flags ks =
      { flags with
        isStatic := flags.isStatic || ks.contains .staticKw
        isVirtual := flags.isVirtual || ks.contains .virtualKw
        isInline := flags.isInline || ks.contains .inlineKw } := by
  induction ks generalizing flags with
  | nil => simp [withSpecifiers]
  | cons k ks ih =>
    rw [withSpecifiers, List.foldl_cons, ← withSpecifiers, ih]
    cases k <;> simp [specified]

/-- **Specifiers** add to the flags and to nothing else. -/
theorem leads_leading (ks : List Keyword) (hk : ∀ k ∈ ks, .keyword k ∈ specifiers)
    (flags : Flags) (last : Kind) :
    ∃ last', ∀ ys, Leads (opened false flags none false last) (Written.Function.leading ks)
      (opened false (withSpecifiers flags ks) none false last') ys := by
  induction ks generalizing flags last with
  | nil => exact ⟨last, fun _ => .nil⟩
  | cons k ks ih =>
    obtain ⟨last', hmore⟩ := ih (fun u hu => hk u (List.mem_cons_of_mem k hu))
      (specified flags (.keyword k)) (.keyword k)
    refine ⟨last', fun ys => .cons (.one (goesOn_opened ?_) fun t rest kind _ _ => ?_)
      (.cons leads_blank_opened (hmore ys))⟩
    · have hoperator : ∀ k ∈ specifiers, k ≠ .keyword .operatorKw := by decide
      simpa [Lexeme.keyword, Lexeme.sound] using hoperator _ (hk k List.mem_cons_self)
    · have hkind : t.kind = .keyword k := kind
      rw [read_opened (by simp [hkind]) (by simp [hkind]) (by simp [hkind]), hkind]
      rfl

/-- A type of one word is no specifier, and no tilde. -/
theorem leads_type [Alphabet] (w : Written.TypeWord) (flags : Flags) (last : Kind) :
    ∃ name' destructor' last', last' ≠ .punct .tilde ∧ ∀ ys,
      Leads (opened false flags none false last) [w.lexeme]
        (opened false flags name' destructor' last') ys := by
  cases w with
  | named n =>
    refine ⟨some n.text, last == .punct .tilde, .ident, by decide, fun ys =>
      .one (goesOn_opened (k := .ident) (by decide)) fun t rest kind text _ => ?_⟩
    rw [read_name kind, text]
    rfl
  | builtin k hk =>
    have hall : ∀ k ∈ Keyword.all, k.isBuiltinType = true → k ≠ .operatorKw ∧
        specified flags (.keyword k) = flags := by
      intro k _
      cases k <;> simp [Keyword.isBuiltinType, specified]
    obtain ⟨hoperator, hflags⟩ := hall k k.mem_all hk
    refine ⟨none, false, .keyword k, by simp, fun ys =>
      .one (goesOn_opened ?_) fun t rest kind _ _ => ?_⟩
    · simpa [Written.TypeWord.lexeme, Lexeme.keyword, Lexeme.sound] using hoperator
    · have hkind : t.kind = .keyword k := kind
      rw [read_opened (by simp [hkind]) (by simp [hkind]) (by simp [hkind]), hkind,
        if_neg (by simp), hflags]
      rfl

/-- The name of the function. -/
theorem leads_name [Alphabet] (n : Core.Name) (h : last ≠ .punct .tilde) :
    Leads (opened false flags name destructor last) [n.lexeme]
      (opened false flags (some n.text) false .ident) ys :=
  .one (goesOn_opened (k := .ident) (by decide)) fun t rest kind text _ => by
    rw [read_name kind, text, beq_false_of_ne h]
    rfl

end

/-! ## Within parentheses -/

/-- Within parentheses of the parameters, or behind these, no token ends the head. -/
structure Progress.Inside (p : Progress) : Prop where
  depth : p.depth ≠ 0
  paramsOpen : p.paramsOpen = true
  inGroup : p.inGroup = false

namespace Progress.Inside

variable {t : Token} {ts : List Token} {kind : Kind} {atEnd : Bool}

theorem goesOn (h : p.Inside) (k : Kind) : p.GoesOn k := fun hd => absurd hd h.depth

theorem remember (h : p.Inside) (kind : Kind) (atEnd : Bool) : (p.remember kind atEnd).Inside :=
  ⟨h.depth, h.paramsOpen, h.inGroup⟩

theorem deeper (h : p.Inside) : Inside { p with depth := p.depth + 1 } :=
  ⟨Nat.succ_ne_zero _, h.paramsOpen, h.inGroup⟩

/-- What is no parenthesis is at most remembered. -/
theorem note_plain (h : p.Inside) (ho : t.kind ≠ .punct .lParen) (hc : t.kind ≠ .punct .rParen) :
    p.note t ts = p := by
  have hd : (p.depth == 0) = false := beq_false_of_ne h.depth
  unfold note
  split <;> simp_all [h.paramsOpen]

theorem note_open (h : p.Inside) (hk : t.kind = .punct .lParen) :
    p.note t ts = { p with depth := p.depth + 1 } := by
  simp [note, hk, openParen, h.paramsOpen]

theorem exists_read_plain (h : p.Inside) (k : Kind) (ho : k ≠ .punct .lParen)
    (hc : k ≠ .punct .rParen) :
    ∃ last atEnd, ∀ t ts, t.kind = k → p.read t ts = p.remember last atEnd := by
  by_cases hk : (k.isTrivia || k.isComment) = true
  · refine ⟨p.lastKind, p.atParamsEnd, fun t ts ht => ?_⟩
    rw [read, ht, if_pos hk, h.note_plain (ht ▸ ho) (ht ▸ hc)]
    rfl
  · refine ⟨k, false, fun t ts ht => ?_⟩
    rw [read, ht, if_neg hk, h.note_plain (ht ▸ ho) (ht ▸ hc), beq_false_of_ne hc]
    rfl

end Progress.Inside

open Progress in
/-- **Within parentheses**, lexemes whose parentheses are nested are passed over: nothing but the
last token is remembered. -/
theorem leads_nested (h : Kind.NestedBy [parens] (xs.map (·.kind))) (hp : p.Inside) :
    ∃ last atEnd, ∀ ys, Leads p xs (p.remember last atEnd) ys := by
  generalize hks : xs.map (·.kind) = ks at h
  induction h generalizing xs p with
  | nil =>
    obtain rfl := List.map_eq_nil_iff.mp hks
    exact ⟨p.lastKind, p.atParamsEnd, fun _ => .nil⟩
  | plain hk _ ih =>
    obtain ⟨x, xs, rfl, rfl, rfl⟩ := List.map_eq_cons_iff.mp hks
    obtain ⟨ho, hc⟩ : x.kind ≠ .punct .lParen ∧ x.kind ≠ .punct .rParen :=
      hk parens List.mem_cons_self
    obtain ⟨last, atEnd, hread⟩ := hp.exists_read_plain x.kind ho hc
    obtain ⟨last', atEnd', hmore⟩ := ih (hp.remember last atEnd) rfl
    exact ⟨last', atEnd', fun ys =>
      .cons (.one (hp.goesOn _) fun t rest kind _ _ => hread t rest kind) (hmore ys)⟩
  | group pair _ _ ihinner ihmore =>
    obtain ⟨rfl, rfl⟩ := Prod.mk.inj (List.mem_singleton.mp pair)
    obtain ⟨o, xs, rfl, ho, hopen⟩ := List.map_eq_cons_iff.mp hks
    obtain ⟨inside, xs, rfl, rfl, hclose⟩ := List.map_eq_append_iff.mp hopen
    obtain ⟨c, behind, rfl, hc, rfl⟩ := List.map_eq_cons_iff.mp hclose
    have hdeep := hp.deeper.remember (.punct .lParen) false
    obtain ⟨last, atEnd, hinner⟩ := ihinner hdeep rfl
    obtain ⟨last', atEnd', hmore⟩ := ihmore (hp.remember (.punct .rParen) false) rfl
    refine ⟨last', atEnd', fun ys => .cons (.one (hp.goesOn _) fun t rest kind _ _ => ?_)
      (.append (hinner _) (.cons (.one ((hdeep.remember _ _).goesOn _) fun t rest kind _ _ => ?_)
        (hmore ys)))⟩
    · have hk : t.kind = .punct .lParen := kind.trans ho
      rw [Progress.read, hp.note_open hk, hk]
      rfl
    · have hk : t.kind = .punct .rParen := kind.trans hc
      have hdepth := hp.depth
      simp [Progress.read, note, closeParen, closesParams, Progress.remember, hk, hdepth,
        Kind.isTrivia, Kind.isComment]

/-! ## The parameters -/

/-- A function whose parameters have been read. -/
def Progress.behind (name : Text) (flags : Flags) (inInitializers atEnd : Bool) (last : Kind) :
    Progress :=
  ⟨some name, false, false, flags, false, true, true, atEnd, inInitializers, 0, last⟩

theorem Progress.opensGroup_iff (ts : List Token) :
    opensGroup ts = true ↔ ((ts.map (·.kind)).dropWhile (· == .whitespace)).head? ∈
      [some (.punct .star), some (.punct .amp), some (.punct .ampAmp)] := by
  rw [List.dropWhile_map, opensGroup]
  show _ ↔ ((Tokens.skipSpace ts).map (·.kind)).head? ∈ _
  cases Tokens.skipSpace ts with
  | nil => decide
  | cons t ts => simp [Tokens.headKind, or_assoc]

/-- Parameters do not open a declarator. -/
theorem opensGroup_params {ks ks' : List Kind} {ts : List Token} (h : Written.IsParams ks)
    (hts : ts.map (·.kind) = ks ++ .punct .rParen :: ks') : Progress.opensGroup ts = false := by
  rw [← Bool.not_eq_true, Progress.opensGroup_iff, hts, List.dropWhile_append]
  have hhead := h.2
  cases hd : ks.dropWhile (· == .whitespace) with
  | nil => simp
  | cons k ks => simpa [hd] using hhead

/-- **The parameters of a function** are passed over. -/
theorem leads_params [Alphabet] (name : Text) (flags : Flags) (i : Written.Inner Written.IsParams) :
    Leads (.opened false flags (some name) false .ident)
      (.punct .lParen :: (i.lexemes ++ [.punct .rParen]))
      (.behind name flags false true (.punct .rParen)) ys := by
  let inside (last : Kind) (atEnd : Bool) : Progress :=
    ⟨some name, false, false, flags, false, true, false, atEnd, false, 1, last⟩
  have hinside : (inside (.punct .lParen) false).Inside := ⟨Nat.one_ne_zero, rfl, rfl⟩
  obtain ⟨last, atEnd, hinner⟩ := leads_nested i.fits_lexemes.1 hinside
  refine .cons (.one (goesOn_opened (by decide)) fun t rest kind _ hrest => ?_)
    (.append (hinner _) (.one ((hinside.remember last atEnd).goesOn _) fun t rest kind _ _ => ?_))
  · have hk : t.kind = .punct .lParen := kind
    have hkinds : rest.map (·.kind)
        = i.lexemes.map (·.kind) ++ .punct .rParen :: ys.map (·.kind) := by
      simpa [Lexeme.punct, Lexeme.sound] using hrest.map_kind
    have hgroup := opensGroup_params i.fits_lexemes hkinds
    simp [Progress.read, Progress.note, Progress.openParen, Progress.opened, hk, hgroup,
      Kind.isTrivia, Kind.isComment, Progress.remember, inside]
  · have hk : t.kind = .punct .rParen := kind
    simp [Progress.read, Progress.note, Progress.closeParen, Progress.closesParams, hk,
      Kind.isTrivia, Kind.isComment, Progress.remember, inside, Progress.behind]

/-! ## Behind the parameters -/

section

open Progress

variable {name : Text} {flags : Flags} {inInitializers atEnd : Bool} {last : Kind}

theorem goesOn_behind {k : Kind} (h : k ∉ [.punct .rBrace, .punct .semicolon, .punct .lBrace])
    (hs : k ∉ Context.function.stops) :
    (behind name flags inInitializers atEnd last).GoesOn k := fun _ => ⟨h, nofun, fun _ => hs⟩

theorem leads_blank : Leads (behind name flags inInitializers atEnd last) [.blanks 1]
    (behind name flags inInitializers atEnd last) ys := by
  refine .one (goesOn_behind (by decide) (by decide)) fun t rest kind _ _ => ?_
  have hk : t.kind = .whitespace := kind
  simp [Progress.read, note, hk, Kind.isTrivia]

/-- What is no parenthesis may change the flags, or start the member initializers. -/
theorem leads_behind {flags' : Flags} {inInitializers' : Bool}
    (hx : (x.kind.isTrivia || x.kind.isComment) = false)
    (hends : x.kind ∉ [.punct .rBrace, .punct .semicolon, .punct .lBrace])
    (hstops : x.kind ∉ Context.function.stops) (hc : x.kind ≠ .punct .rParen)
    (hnote : ∀ t rest, t.kind = x.kind → Spells rest ys →
      (behind name flags inInitializers atEnd last).note t rest
        = behind name flags' inInitializers' atEnd last) :
    Leads (behind name flags inInitializers atEnd last) [x]
      (behind name flags' inInitializers' false x.kind) ys := by
  refine .one (goesOn_behind hends hstops) fun t rest kind _ hrest => ?_
  rw [Progress.read, hnote t rest kind hrest, kind, hx, if_neg Bool.false_ne_true,
    beq_false_of_ne hc]
  rfl

/-- A `const` directly behind the parameters makes the function one. -/
theorem leads_const : Leads (behind name flags false true last) [.keyword .constKw]
    (behind name { flags with isConst := true } false false (.keyword .constKw)) ys :=
  leads_behind rfl (by decide) (by decide) (by decide) fun t rest kind _ => by
    have hk : t.kind = .keyword .constKw := kind
    simp [note, behind, hk]

/-- A zero behind an equals sign makes the function pure. -/
theorem leads_pure :
    Leads (behind name flags false atEnd last) [.punct .eq, .blanks 1, Written.zero]
      (behind name { flags with isPure := true } false false .number) ys := by
  have heq : Leads (behind name flags false atEnd last) [.punct .eq]
      (behind name { flags with isPure := true } false false (.punct .eq))
      ([.blanks 1, Written.zero] ++ ys) := by
    refine leads_behind rfl (by decide) (by decide) (by decide) fun t rest kind hrest => ?_
    have hk : t.kind = .punct .eq := kind
    have hzero : zeroFollows rest = true := by
      obtain _ | ⟨hblank, -, _ | ⟨hkind, htext, -⟩⟩ := hrest
      have hnumber : Kind.isTrivia _ = false := (congrArg Kind.isTrivia hkind).trans rfl
      rw [zeroFollows, Tokens.skipTrivia_of_whitespace hblank, Tokens.skipTrivia_of_not hnumber]
      simp only [hkind, htext]
      rfl
    simp [note, behind, hk, hzero]
  refine .cons heq (.cons leads_blank
    (leads_behind rfl (by decide) (by decide) (by decide) fun t rest kind _ => ?_))
  have hk : t.kind = .number := kind
  simp [note, hk]

/-- **What may stand behind the parameters** is noted. -/
theorem leads_qualifiers [Alphabet] (f : Written.Function) (name : Text)
    (hc : flags.isConst = false) (hp : flags.isPure = false) :
    ∃ atEnd last, ∀ ys, Leads (behind name flags false true (.punct .rParen)) f.qualifiers
      (behind name { flags with isConst := f.isConst, isPure := f.isPure } false atEnd last)
      ys := by
  obtain ⟨isStatic, isConst, isVirtual, isPure, isInline⟩ := flags
  obtain rfl : isConst = false := hc
  obtain rfl : isPure = false := hp
  unfold Written.Function.qualifiers
  cases f.isConst with
  | false =>
    cases f.isPure with
    | false => exact ⟨true, .punct .rParen, fun _ => .nil⟩
    | true => exact ⟨false, .number, fun _ => .cons leads_blank leads_pure⟩
  | true =>
    cases f.isPure with
    | false => exact ⟨false, .keyword .constKw, fun _ => .cons leads_blank leads_const⟩
    | true =>
      exact ⟨false, .number, fun _ =>
        .cons leads_blank (.cons leads_const (.cons leads_blank leads_pure))⟩

/-- A colon behind the parameters starts the member initializers. -/
theorem leads_colon : Leads (behind name flags false atEnd last) [.punct .colon]
    (behind name flags true false (.punct .colon)) ys :=
  leads_behind rfl (by decide) (by decide) (by decide) fun t rest kind _ => by
    have hk : t.kind = .punct .colon := kind
    simp [note, behind, hk]

theorem leads_comma : Leads (behind name flags inInitializers atEnd last) [.punct .comma]
    (behind name flags inInitializers false (.punct .comma)) ys :=
  leads_behind rfl (by decide) (by decide) (by decide) fun t rest kind _ => by
    have hk : t.kind = .punct .comma := kind
    simp [note, hk]

/-- A name behind the parameters is that of a member. -/
theorem leads_member [Alphabet] (n : Core.Name) :
    Leads (behind name flags inInitializers atEnd last) [n.lexeme]
      (behind name flags inInitializers false .ident) ys := by
  have hk : n.lexeme.kind = .ident := rfl
  refine leads_behind rfl (by rw [hk]; decide) (by rw [hk]; decide) (by rw [hk]; decide)
    fun t rest kind _ => ?_
  simp [note, behind, kind, hk]

/-- **A member initializer** is passed over, whichever brackets it has: a brace directly behind
the member opens its arguments. -/
theorem leads_initializer [Alphabet] (i : Written.Initializer) :
    Leads (behind name flags true atEnd last) i.lexemes
      (behind name flags true false (.punct i.bracing.closer)) ys := by
  refine .cons (leads_member i.member) ?_
  have hargs := i.args.fits_lexemes
  cases i.bracing with
  | round =>
    have hinside : Inside { behind name flags true false (.punct .lParen) with depth := 1 } :=
      ⟨Nat.one_ne_zero, rfl, rfl⟩
    obtain ⟨last, atEnd, hinner⟩ :=
      leads_nested (hargs.fewer (by decide) (by decide)) hinside
    refine .cons (.one (goesOn_behind (by decide) (by decide)) fun t rest kind _ hrest => ?_)
      (.append (hinner _)
        (.one ((hinside.remember last atEnd).goesOn _) fun t rest kind _ _ => ?_))
    · have hk : t.kind = .punct .lParen := kind
      simp [Progress.read, note, openParen, behind, hk, Kind.isTrivia, Kind.isComment, remember]
    · have hk : t.kind = .punct .rParen := kind
      simp [Progress.read, note, closeParen, closesParams, behind, hk, Kind.isTrivia,
        Kind.isComment, remember, Written.Bracing.closer]
  | curly =>
    rintro done us rest (_ | ⟨ho, -, hus⟩) hrest
    obtain ⟨us, vs, rfl, hinner, _ | ⟨hc, -, _ | _⟩⟩ := hus.split
    have hnested : Kind.NestedBy [braces] (us.map (·.kind)) := by
      rw [hinner.map_kind]
      exact hargs.fewer (by decide) (by decide)
    have hblock := Tokens.block?_nested ho hc hnested rest
    have hk : Token.kind _ = Kind.punct .lBrace := ho
    rw [List.cons_append, List.append_assoc, List.singleton_append, extent_cons,
      if_neg (by simp [refuses, behind, hk, Context.stops, Context.constructStarts]),
      if_neg (by simp [hk]), if_pos (by simp [behind, hk]),
      if_pos (by simp [bracesInitialize, behind]), hblock]
    rfl

end

end Construct.Function
end HeaderOutline
