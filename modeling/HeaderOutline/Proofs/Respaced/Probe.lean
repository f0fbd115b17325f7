import HeaderOutline.Proofs.Alike.Declaration
import HeaderOutline.Proofs.Respaced.Brackets

/-! # Probes of respaced tokens

Before a declaration is read it is looked ahead for what it is.  A probe answers the same for
respaced tokens: it starts at a plain place and passes over what leads on, and where it counts
line ends, as in the symbol of an operator, gaps keep their number.
-/
namespace HeaderOutline

namespace Tokens

variable {S : Respacing} {b : Trail} {k : Kind} {t u : Token} {ts us : List Token}

/-- Respaced tokens whose first one that is no trivia stands at a plain place. -/
def RespacedNext (S : Respacing) (ts us : List Token) : Prop :=
  ∃ b, S.IsPlain b ∧ RespacedFront S b (skipTrivia ts) (skipTrivia us)

theorem RespacedFront.skipTrivia_eq (h : RespacedFront S b ts us) :
    skipTrivia ts = ts ∧ skipTrivia us = us := by
  cases h with
  | nil => exact ⟨rfl, rfl⟩
  | cons _ h =>
    exact ⟨skipTrivia_of_not (S.not_trivia h),
      skipTrivia_of_not ((congrArg _ (S.kind_of_token h)).trans (S.not_trivia h))⟩

theorem RespacedFront.eq_nil (h : RespacedFront S b [] us) : us = [] := by
  cases h
  rfl

theorem RespacedFront.uncons (h : RespacedFront S b (t :: ts) us) :
    ∃ u us', us = u :: us' ∧ S.fits us ∧ S.token t u ∧ Respaced S (t.kind :: b) ts us' := by
  cases h with
  | cons fits h more => exact ⟨_, _, rfl, fits, h, more⟩

theorem RespacedFront.next (h : RespacedFront S b ts us) (hb : S.IsPlain b) :
    RespacedNext S ts us := by
  refine ⟨b, hb, ?_⟩
  rwa [h.skipTrivia_eq.1, h.skipTrivia_eq.2]

theorem RespacedCalmly.next (h : RespacedCalmly S ts us) : RespacedNext S ts us := by
  obtain ⟨b, hb, h⟩ := h.front
  exact ⟨b, hb.plain, h⟩

theorem kind_of_mem_space (h : t ∈ ts.takeWhile (·.kind == .whitespace)) :
    t.kind = .whitespace :=
  eq_of_beq (List.all_eq_true.mp List.all_takeWhile t h)

theorem skipSpace_skipSpace (ts : List Token) : skipSpace (skipSpace ts) = skipSpace ts := by
  cases hs : skipSpace ts with
  | nil => rfl
  | cons t rest =>
    have hstop := List.head?_dropWhile_not (fun t : Token => t.kind == .whitespace) ts
    rw [show ts.dropWhile _ = _ from hs] at hstop
    exact Respaced.skipSpace_of_ne (by simpa using hstop)

/-- What stands behind white space is looked for, and line ends do not hide it. -/
theorem nextKind_of_headKind_skipSpace (hk : k.isTrivia = false)
    (h : headKind (skipSpace ts) = k) : nextKind ts = k := by
  rw [nextKind, ← skipTrivia_skipSpace]
  cases hs : skipSpace ts with
  | nil => rwa [hs] at h
  | cons t rest =>
    rw [hs] at h
    obtain rfl : t.kind = k := h
    rw [skipTrivia_of_not hk]
    rfl

/-- What is looked for directly behind white space is there or not, as long as neither line
ends nor comments get in front of it. -/
theorem Respaced.headKind_skipSpace_beq (h : Respaced S b ts us) (hk : ¬k.IsPassed)
    (hl : ¬S.loose b k) (hf : S.firm b k) (hne : Tokens.nextKind ts ≠ k → Tokens.nextKind us ≠ k) :
    (Tokens.headKind (skipSpace us) == k) = (Tokens.headKind (skipSpace ts) == k) := by
  have htrivia : k.isTrivia = false := by
    rw [← Bool.not_eq_true]
    exact fun ht => hk (.of_trivia ht)
  by_cases hn : Tokens.nextKind ts = k
  · subst hn
    rcases h.skipSpace_cases hl hf with ⟨ht, hu⟩ | ⟨ht, hu⟩
    · rw [ht, hu]
    · rw [ht, hu]
      exact congrArg (· == _) (h.front hl).headKind
  · have ht := beq_false_of_ne fun h' => hn (nextKind_of_headKind_skipSpace htrivia h')
    have hu := beq_false_of_ne fun h' => hne hn (nextKind_of_headKind_skipSpace htrivia h')
    rw [ht, hu]

end Tokens

namespace Construct

open Tokens

variable {S : Respacing} {b : Trail} {k : Kind} {t u : Token} {ts us : List Token}

namespace Function

/-- A declarator in parentheses is one in both lists. -/
theorem Progress.opensGroup_respaced (h : Respaced S (.punct .lParen :: b) ts us) :
    opensGroup us = opensGroup ts := by
  have hopens : ∀ p, (Kind.punct p).opensDeclarator = true →
      (headKind (skipSpace us) == .punct p) = (headKind (skipSpace ts) == .punct p) := by
    intro p hp
    have hasks : Trail.asksFor (.punct .lParen :: b) (.punct p) = true := hp
    have hkeeps : Trail.keepsLines (.punct .lParen :: b) (.punct p) = true := by
      simp [Trail.keepsLines, hp]
    have hadmits := Trail.not_admitsComment_of_asksFor hasks
    refine h.headKind_skipSpace_beq (not_isPassed_punct p) (Respacing.not_loose hadmits)
      (S.firm_of_keepsLines hkeeps) fun hne => ?_
    have hbeq := h.nextKind_beq (k := .punct p) rfl hadmits
    rwa [beq_false_of_ne hne, beq_eq_false_iff_ne] at hbeq
  unfold opensGroup
  dsimp only
  rw [hopens .star rfl, hopens .amp rfl, hopens .ampAmp rfl]

theorem Progress.zeroFollows_of_ne (h : nextKind ts ≠ .number) : zeroFollows ts = false := by
  unfold zeroFollows
  split
  · next t rest hs =>
    have ht : t.kind ≠ .number := by
      rintro hk
      rw [nextKind, hs] at h
      exact h hk
    rw [beq_false_of_ne ht, Bool.false_and]
  · rfl

theorem Progress.zeroFollows_respaced (h : Respaced S (.punct .eq :: b) ts us) :
    zeroFollows us = zeroFollows ts := by
  have hasks := Trail.not_admitsComment_of_asksFor (b := .punct .eq :: b) (k := .number) rfl
  have hbeq := h.nextKind_beq (k := .number) rfl hasks
  by_cases hn : nextKind ts = .number
  · have hfront := h.front (by rw [hn]; exact Respacing.not_loose hasks)
    unfold zeroFollows
    generalize skipTrivia ts = ts', skipTrivia us = us' at hfront ⊢
    cases hfront with
    | nil => rfl
    | @cons t u _ _ _ h _ =>
      dsimp only
      rw [S.kind_of_token h]
      cases hk : t.kind == .number with
      | false => rfl
      | true => rw [S.text_of_token h (by rw [eq_of_beq hk]; rfl)]
  · rw [beq_false_of_ne hn, beq_eq_false_iff_ne] at hbeq
    rw [zeroFollows_of_ne hn, zeroFollows_of_ne hbeq]

/-! ## Operators -/

theorem firm_operator (h : b.inOperator = true) (k : Kind) : S.firm b k := by
  refine S.firm_of_keepsLines ?_
  simp [Trail.keepsLines, h]

theorem not_loose_operator (h : b.inOperator = true) (k : Kind) : ¬S.loose b k :=
  Respacing.not_loose (Trail.not_admitsComment_of_inOperator h k)

/-- The tokens up to which the symbol of an operator goes on. -/
def operatorStops : List Kind := [.punct .lParen, .punct .semicolon, .punct .lBrace]

theorem not_isPassed_of_operatorStops : ∀ k ∈ operatorStops, ¬k.IsPassed := by
  intro k hk
  simp only [operatorStops, List.mem_cons, List.not_mem_nil, or_false] at hk
  rcases hk with rfl | rfl | rfl <;> exact not_isPassed_punct _

/-- Whether the call operator is named. -/
def namesCall (ts : List Token) : Bool :=
  headKind ts == .punct .lParen && headKind ts.tail == .punct .rParen

theorem namesCall_of_newline (h : headKind ts = .newline) : namesCall ts = false := by
  rw [namesCall, h]
  rfl

theorem exists_cons_of_namesCall (h : namesCall ts = true) :
    ∃ o c rest, ts = o :: c :: rest ∧ o.kind = .punct .lParen ∧ c.kind = .punct .rParen := by
  obtain ⟨ho, hc⟩ := Bool.and_eq_true_iff.mp h
  match ts with
  | [] => cases ho
  | [o] => cases hc
  | o :: c :: rest => exact ⟨o, c, rest, rfl, eq_of_beq ho, eq_of_beq hc⟩

/-- Behind the keyword of an operator the call operator is named in both lists, or in none. -/
theorem namesCall_respaced (h : Respaced S b ts us) (hb : b.inOperator = true) :
    namesCall (skipSpace us) = namesCall (skipSpace ts) := by
  rcases h.skipSpace_cases (not_loose_operator hb _) (firm_operator hb _) with ⟨ht, hu⟩ | ⟨ht, hu⟩
  · rw [namesCall_of_newline ht, namesCall_of_newline hu]
  · rw [ht, hu]
    exact (h.skipTrivia (not_loose_operator hb _)).headKinds_beq (not_isPassed_punct _)
      (not_isPassed_punct _)

/-- The parentheses of the call operator stand behind white space in both lists. -/
theorem exists_call (h : Respaced S b ts us) (hb : b.inOperator = true)
    (hc : namesCall (skipSpace ts) = true) :
    (skipSpace ts = skipTrivia ts ∧ skipSpace us = skipTrivia us) ∧
    ∃ o c rest o' c' rest', skipSpace ts = o :: c :: rest ∧ skipSpace us = o' :: c' :: rest' ∧
      S.token o o' ∧ S.token c c' ∧
      Respaced S (.punct .rParen :: .punct .lParen :: b) rest rest' := by
  have hcall := (namesCall_respaced h hb).trans hc
  rcases h.skipSpace_cases (not_loose_operator hb _) (firm_operator hb _) with ⟨ht, -⟩ | ⟨ht, hu⟩
  · rw [namesCall_of_newline ht] at hc
    cases hc
  · have hskip := h.skipTrivia (not_loose_operator hb _)
    rw [← ht, ← hu] at hskip
    obtain ⟨o, c, rest, hts, ho, hck⟩ := exists_cons_of_namesCall hc
    rw [hts] at hskip
    obtain ⟨o', us', hus, -, hot, hmore⟩ := hskip.uncons (by rw [ho]; rfl)
    obtain ⟨c', rest', rfl, -, hct, hmore⟩ := hmore.uncons (by rw [hck]; rfl)
    rw [ho, hck] at hmore
    exact ⟨⟨ht, hu⟩, o, c, rest, o', c', rest', hts, hus, hot, hct, hmore⟩

theorem space_eq_trivia (h : skipSpace ts = skipTrivia ts) :
    ts.takeWhile (·.kind == .whitespace) = ts.takeWhile (·.kind.isTrivia) := by
  have happend := (space_append ts).trans (trivia_append ts).symm
  rw [h] at happend
  exact List.append_cancel_right happend

theorem operatorTokens_of_not_namesCall {op : Token} (h : namesCall (skipSpace ts) = false) :
    operatorTokens op ts = (op :: (upTo operatorStops ts).1, (upTo operatorStops ts).2) := by
  have hsymbol : operatorSymbol (skipSpace ts) = upTo operatorStops (skipSpace ts) :=
    if_neg (by rw [show (_ && _) = false from h]; exact Bool.false_ne_true)
  have hspace : ∀ t ∈ ts.takeWhile (·.kind == .whitespace), t.kind.IsPassed :=
    fun t ht => .inl (by rw [kind_of_mem_space ht]; rfl)
  have hts := Respaced.upTo_append_passed not_isPassed_of_operatorStops hspace (skipSpace ts)
  rw [space_append] at hts
  unfold operatorTokens
  dsimp only
  rw [hsymbol, hts]
  rfl

/-- What names an operator is the same, up to gaps. -/
theorem operatorTokens_respaced {op op' : Token} (hop : S.token op op')
    (h : Respaced S b ts us) (hb : b.inOperator = true) :
    RespacedPiece S (operatorTokens op ts).1 (operatorTokens op' us).1 ∧
      ∃ b', Respaced S b' (operatorTokens op ts).2 (operatorTokens op' us).2 := by
  have hcall := namesCall_respaced h hb
  cases hc : namesCall (skipSpace ts) with
  | false =>
    rw [hc] at hcall
    rw [operatorTokens_of_not_namesCall hc, operatorTokens_of_not_namesCall hcall]
    obtain ⟨hpiece, hrest⟩ := h.upTo not_isPassed_of_operatorStops
    exact ⟨.token hop hpiece, hrest⟩
  | true =>
    rw [hc] at hcall
    obtain ⟨⟨ht, hu⟩, o, c, rest, o', c', rest', hts, hus, ho, hct, hmore⟩ := exists_call h hb hc
    have hgap := h.leading (not_loose_operator hb _)
    rw [← space_eq_trivia ht, ← space_eq_trivia hu] at hgap
    have htokens : ∀ {op : Token} {vs : List Token}, namesCall (skipSpace vs) = true →
        operatorTokens op vs = (op :: vs.takeWhile (·.kind == .whitespace) ++
          (skipSpace vs).take 2, (skipSpace vs).drop 2) := by
      intro op vs hv
      have hsymbol : operatorSymbol (skipSpace vs)
          = ((skipSpace vs).take 2, (skipSpace vs).drop 2) := if_pos hv
      unfold operatorTokens
      rw [hsymbol]
    rw [htokens hc, htokens hcall, hts, hus]
    exact ⟨.token hop (hgap.append (.token ho (.single hct))), _, hmore⟩

end Function

namespace Declaration

theorem paramsFollowSymbol_space (n : Nat) (ts : List Token) :
    paramsFollowSymbol n (skipSpace ts) = paramsFollowSymbol n ts := by
  cases n with
  | zero => rfl
  | succ n => rw [paramsFollowSymbol, paramsFollowSymbol, skipSpace_skipSpace]

/-- Among the tokens of a symbol line ends count, and white space does not. -/
theorem paramsFollowSymbol_trivia {gap : List Token} (h : ∀ t ∈ gap, t.kind.isTrivia = true)
    (n : Nat) (ts : List Token) :
    paramsFollowSymbol n (gap ++ ts) = paramsFollowSymbol (n - lineEnds gap) ts := by
  induction gap generalizing n with
  | nil => rfl
  | cons t gap ih =>
    have hgap := ih fun u hu => h u (List.mem_cons_of_mem t hu)
    rw [Respaced.lineEnds_cons, List.cons_append]
    rcases (Kind.IsPassed.of_trivia (h t List.mem_cons_self)).cases with hk | hk | hk
    · rw [← paramsFollowSymbol_space, skipSpace, List.dropWhile_cons_of_pos (by simp [hk]),
        ← skipSpace, paramsFollowSymbol_space, hgap, hk]
      rfl
    · cases n with
      | zero => rw [Nat.zero_sub, paramsFollowSymbol, paramsFollowSymbol]
      | succ n =>
        rw [paramsFollowSymbol, Respaced.skipSpace_of_ne (by simp [hk])]
        simp only [hk, hgap]
        congr 1
        simp
    · have htrivia := h t List.mem_cons_self
      rw [hk] at htrivia
      cases htrivia

/-- As many tokens of a symbol come before the parameter list. -/
theorem paramsFollowSymbol_respaced (h : Respaced S b ts us) (hb : b.inOperator = true)
    (n : Nat) : paramsFollowSymbol n us = paramsFollowSymbol n ts := by
  induction h generalizing n with
  | nil => rfl
  | @token b t u ts us _ h _ ih =>
    cases n with
    | zero => rfl
    | succ n =>
      have ht : t.kind ≠ .whitespace := by
        intro hk
        have htrivia := S.not_trivia h
        rw [hk] at htrivia
        cases htrivia
      rw [paramsFollowSymbol, paramsFollowSymbol, Respaced.skipSpace_of_ne ht,
        Respaced.skipSpace_of_ne (by rwa [S.kind_of_token h])]
      dsimp only
      rw [S.kind_of_token h]
      split
      · rfl
      · rfl
      · rfl
      · rfl
      · next hparen hsemicolon hopen hclose =>
        exact ih (Trail.inOperator_cons hb (by simpa using ⟨hparen, hsemicolon, hopen, hclose⟩)) n
  | @gap b gap gap' ts us h _ ih =>
    have htight := h.tight (Function.not_loose_operator hb _)
    rw [paramsFollowSymbol_trivia h.trivia, paramsFollowSymbol_trivia htight,
      h.firm (Function.firm_operator hb _)]
    exact ih hb _

theorem operatorTakesParams_eq (ts : List Token) :
    operatorTakesParams ts = paramsFollowSymbol maxWords
      (if Function.namesCall (skipSpace ts) then (skipSpace ts).drop 2 else skipSpace ts) := rfl

theorem operatorTakesParams_respaced (h : Respaced S b ts us)
    (hb : ∃ b', b = .keyword .operatorKw :: b') :
    operatorTakesParams us = operatorTakesParams ts := by
  obtain ⟨b', rfl⟩ := hb
  have hop : Trail.inOperator (.keyword .operatorKw :: b') = true := rfl
  have hcall := Function.namesCall_respaced h hop
  rw [operatorTakesParams_eq, operatorTakesParams_eq, hcall]
  cases hc : Function.namesCall (skipSpace ts) with
  | false =>
    rw [if_neg Bool.false_ne_true, if_neg Bool.false_ne_true, paramsFollowSymbol_space,
      paramsFollowSymbol_space]
    exact paramsFollowSymbol_respaced h hop _
  | true =>
    obtain ⟨-, o, c, rest, o', c', rest', hts, hus, -, -, hmore⟩ := Function.exists_call h hop hc
    rw [if_pos rfl, if_pos rfl, hts, hus]
    exact paramsFollowSymbol_respaced hmore rfl _

/-! ## Words of type and name -/

/-- A parameter list comes after words of type and name in both lists, or in none. -/
theorem paramsFollow_respaced (h : RespacedNext S ts us) (seen : Bool) (words : Nat) :
    paramsFollow seen words us = paramsFollow seen words ts := by
  induction hn : ts.length using Nat.strongRecOn generalizing seen words ts us with
  | ind k ih =>
    subst hn
    obtain ⟨b, hb, hfront⟩ := h
    have hlen := skipTrivia_length_le ts
    cases words with
    | zero => simp [paramsFollow]
    | succ n =>
      rw [paramsFollow_succ, paramsFollow_succ]
      generalize hts : skipTrivia ts = vs, skipTrivia us = ws at hfront hlen ⊢
      cases hfront with
      | nil => rfl
      | @cons t u rest rest' fits ht more =>
        have hrest : ∀ seen words, t.kind.leadsOn = true →
            paramsFollow seen words rest' = paramsFollow seen words rest :=
          fun seen words hk => ih _ hlen (RespacedCalmly.next ⟨_, hb.cons hk, more⟩) seen words rfl
        dsimp only
        rw [S.kind_of_token ht]
        split
        · next hk => exact hrest _ _ (by
            rcases Bool.or_eq_true_iff.mp hk with hk | hk
            · rw [eq_of_beq hk]
              rfl
            · revert hk
              cases t.kind <;> simp [Kind.isBuiltinType, Kind.leadsOn])
        · split
          · rfl
          · next hk => exact hrest _ _ (by rw [hk]; rfl)
          · next hk => exact hrest _ _ (by rw [hk]; rfl)
          · next hk => exact hrest _ _ (by rw [hk]; rfl)
          · next hk => exact hrest _ _ (by rw [hk]; rfl)
          · next hk => exact hrest _ _ (by rw [hk]; rfl)
          · next hk => exact hrest _ _ (by rw [hk]; rfl)
          · next hk => exact hrest _ _ (by rw [hk]; rfl)
          · have hangles := (Respaced.token fits ht more).angles? fits hb
            cases ha : angles? (t :: rest) with
            | none =>
              have hu := eq_none_of_rel_none (ha ▸ hangles)
              rw [hu]
            | some x =>
              obtain ⟨y, hu, hlist⟩ := exists_of_rel_some (ha ▸ hangles)
              rw [hu]
              exact ih _ (Nat.lt_of_lt_of_le (angles?_length_lt ha) hlen) hlist.rest.next _ _ rfl
          · next hk => exact operatorTakesParams_respaced more ⟨b, by rw [hk]⟩
          · rfl

theorem leadsOn_of_specifier {afterExtern : Bool}
    (h : (specifiers.contains k || typeOpeners.contains k || afterExtern && k == .string) = true) :
    k.leadsOn = true := by
  cases k <;> simp_all [specifiers, typeOpeners, Kind.leadsOn]

/-- The tokens behind specifiers are the same. -/
theorem skipSpecifiers_respaced (h : RespacedNext S ts us) (afterExtern : Bool) :
    RespacedNext S (skipSpecifiers afterExtern ts) (skipSpecifiers afterExtern us) := by
  obtain ⟨b, hb, hfront⟩ := h
  fun_induction skipSpecifiers afterExtern ts generalizing us b with
  | case1 afterExtern ts rest ha ih =>
    obtain ⟨rest', hu, hcalm⟩ := exists_of_rel_some (ha ▸ hfront.respaced.afterAttribute?)
    obtain ⟨b', hb', hnext⟩ := hcalm.next
    rw [skipSpecifiers_eq afterExtern us, hu]
    exact ih b' hb' hnext
  | case2 afterExtern ts ha hs =>
    have hu := eq_none_of_rel_none (ha ▸ hfront.respaced.afterAttribute?)
    rw [hs] at hfront
    rw [skipSpecifiers_eq, hu, hfront.eq_nil]
    exact ⟨b, hb, .nil⟩
  | case3 afterExtern ts ha t rest hs hk ih =>
    have hu := eq_none_of_rel_none (ha ▸ hfront.respaced.afterAttribute?)
    rw [hs] at hfront
    obtain ⟨u, rest', hus, -, ht, more⟩ := hfront.uncons
    have hcalm : S.IsCalm (t.kind :: b) := hb.cons (leadsOn_of_specifier hk)
    obtain ⟨b', hb', hnext⟩ := RespacedCalmly.next ⟨_, hcalm, more⟩
    rw [skipSpecifiers_eq afterExtern us, hu, hus]
    dsimp only
    rw [S.kind_of_token ht, if_pos hk]
    exact ih b' hb' hnext
  | case4 afterExtern ts ha t rest hs hk =>
    have hu := eq_none_of_rel_none (ha ▸ hfront.respaced.afterAttribute?)
    rw [hs] at hfront
    obtain ⟨u, rest', hus, -, ht, -⟩ := hfront.uncons
    rw [hus] at hfront
    rw [skipSpecifiers_eq, hu, hus]
    dsimp only
    rw [S.kind_of_token ht, if_neg hk]
    exact hfront.next hb

/-- Both lists start with a function, or none of them. -/
theorem isFunction_respaced (h : RespacedNext S ts us) : isFunction us = isFunction ts :=
  paramsFollow_respaced (skipSpecifiers_respaced h false) false maxWords

/-! ## Elaborated types -/

theorem afterQualifiers?_eq (ts : List Token) :
    afterQualifiers? ts =
      if headKind ts == .punct .colonColon then
        if headKind ts.tail == .ident then afterQualifiers? (ts.drop 2) else none
      else some ts := by
  match ts with
  | [] => rfl
  | [c] => rw [afterQualifiers?]; rfl
  | c :: i :: rest => rw [afterQualifiers?]; rfl

/-- The parts of a qualified name are passed over in both lists. -/
theorem afterQualifiers?_respaced (h : RespacedCalmly S ts us) :
    Option.Rel (RespacedCalmly S) (afterQualifiers? ts) (afterQualifiers? us) := by
  induction hn : ts.length using Nat.strongRecOn generalizing ts us with
  | ind n ih =>
    subst hn
    obtain ⟨b, hb, h⟩ := h
    have hcolons := h.headKind_beq (not_isPassed_punct .colonColon)
    have hident := h.headKinds_beq (not_isPassed_punct .colonColon) not_isPassed_ident
    rw [afterQualifiers?_eq, afterQualifiers?_eq us]
    rw [hcolons] at hident ⊢
    cases hc : headKind ts == .punct .colonColon with
    | false => exact .some ⟨b, hb, h⟩
    | true =>
      rw [hc, Bool.true_and, Bool.true_and] at hident
      rw [if_pos rfl, if_pos rfl, hident]
      cases hi : headKind ts.tail == .ident with
      | false => exact .none
      | true =>
        match ts with
        | [] => cases hc
        | [c] => cases hi
        | c :: i :: rest =>
          have hck : c.kind = .punct .colonColon := eq_of_beq hc
          have hik : i.kind = .ident := eq_of_beq hi
          obtain ⟨c', us, rfl, -, -, hmore⟩ := h.uncons (by rw [hck]; rfl)
          obtain ⟨i', us, rfl, -, -, hmore⟩ := hmore.uncons (by rw [hik]; rfl)
          have hcalm : S.IsCalm (i.kind :: c.kind :: b) := by
            rw [hck, hik]
            exact (hb.cons rfl).cons rfl
          exact ih rest.length (by simp only [List.length_cons]; omega) ⟨_, hcalm, hmore⟩ rfl

/-- Both lists declare something of a type that is named with its keyword, or none does. -/
theorem isElaborated_respaced (h : RespacedCalmly S ts us) : isElaborated us = isElaborated ts := by
  obtain ⟨b, hb, hfront⟩ := h.front
  unfold isElaborated
  cases hts : skipTrivia ts with
  | nil =>
    rw [hts] at hfront
    rw [hfront.eq_nil]
  | cons t rest =>
    rw [hts] at hfront
    obtain ⟨u, rest', hus, -, ht, more⟩ := hfront.uncons
    rw [hus]
    dsimp only
    rw [S.kind_of_token ht]
    cases hk : t.kind != .ident with
    | true => rfl
    | false =>
      have hident : t.kind = .ident := by simpa using hk
      have hrest : RespacedCalmly S rest rest' :=
        ⟨_, hb.cons (by rw [hident]; rfl), more⟩
      have hrel := afterQualifiers?_respaced hrest
      rw [if_neg Bool.false_ne_true, if_neg Bool.false_ne_true]
      cases ha : afterQualifiers? rest with
      | none =>
        have hu := eq_none_of_rel_none (ha ▸ hrel)
        rw [hu]
      | some after =>
        obtain ⟨after', hu, hafter⟩ := exists_of_rel_some (ha ▸ hrel)
        rw [hu]
        dsimp only
        obtain ⟨b', hb', hfront'⟩ := hafter.front
        cases hs : skipTrivia after with
        | nil =>
          rw [hs] at hfront'
          rw [hfront'.eq_nil]
        | cons v behind =>
          rw [hs] at hfront'
          obtain ⟨w, behind', hus', -, hv, more'⟩ := hfront'.uncons
          rw [hus']
          dsimp only
          rw [S.kind_of_token hv]
          split
          · rfl
          · rfl
          · rfl
          · next hkind =>
            have hcalm : RespacedCalmly S behind behind' :=
              ⟨_, hb'.cons (by rw [hkind]; rfl), more'⟩
            rw [hcalm.nextKind]
          · rfl

end Declaration

end Construct
end HeaderOutline
