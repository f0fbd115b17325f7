import HeaderOutline.Proofs.Ahead
import HeaderOutline.Proofs.Attribute.Head

/-! # What the probe looks at

The probe for a function passes neither a semicolon nor a brace, attributes aside: while one of them
is ahead, it makes no difference which tokens stand behind the list.
-/
namespace HeaderOutline

namespace Tokens

/-- The kinds of the tokens that end a statement: neither a list in angle brackets nor the probe
for a function passes one. -/
def statementEnds : List Kind := [.punct .semicolon, .punct .lBrace, .punct .rBrace]

namespace Ahead

variable {k : Kind} {t : Token} {ts rest : List Token}

section

variable (hk : k ∈ statementEnds)
include hk

theorem isTrivia_of_mem : k.isTrivia = false := by
  simp only [statementEnds, List.mem_cons, List.not_mem_nil, or_false] at hk
  rcases hk with rfl | rfl | rfl <;> rfl

theorem closeAngles_append (h : Ahead k ts) (done : List Token) (depth parens : Nat)
    (us : List Token) :
    closeAngles done depth parens (ts ++ us)
      = (closeAngles done depth parens ts).map (Prod.map id (· ++ us)) := by
  induction ts generalizing done depth parens with
  | nil => exact absurd rfl h.ne_nil
  | cons t ts ih =>
    have hmore : t.kind ∉ statementEnds → ∀ done depth parens,
        closeAngles done depth parens (ts ++ us)
          = (closeAngles done depth parens ts).map (Prod.map id (· ++ us)) := fun ht =>
      ih (h.pass hk ht)
    rw [List.cons_append, closeAngles, closeAngles]
    split
    · rfl
    · rfl
    · rfl
    · next ht => exact hmore (by simp [ht, statementEnds]) _ _ _
    · next ht => exact hmore (by simp [ht, statementEnds]) _ _ _
    · next ht => exact hmore (by simp [ht, statementEnds]) _ _ _
    · next ht =>
      split
      · split
        · rfl
        · exact hmore (by simp [ht, statementEnds]) _ _ _
      · exact hmore (by simp [ht, statementEnds]) _ _ _
    · next ht =>
      split
      · split
        · rfl
        · exact hmore (by simp [ht, statementEnds]) _ _ _
      · exact hmore (by simp [ht, statementEnds]) _ _ _
    · next hs ho hc _ _ _ _ _ =>
      refine hmore ?_ _ _ _
      simp only [statementEnds, List.mem_cons, List.not_mem_nil, or_false, not_or]
      exact ⟨hs, ho, hc⟩

theorem angles?_append (h : Ahead k ts) (us : List Token) :
    angles? (ts ++ us) = (angles? ts).map (Prod.map id (· ++ us)) :=
  h.closeAngles_append hk [] 0 0 us

/-- A list in angle brackets passes no end of a statement. -/
theorem closeAngles {done taken : List Token} {depth parens : Nat} (h : Ahead k ts)
    (hc : closeAngles done depth parens ts = some (taken, rest)) : Ahead k rest := by
  fun_induction Tokens.closeAngles done depth parens ts with
  | case1 => cases hc
  | case2 => cases hc
  | case3 => cases hc
  | case4 => cases hc
  | case5 _ _ _ t ts ht ih | case6 _ _ _ t ts ht ih | case7 _ _ _ t ts ht ih =>
    exact ih (h.pass hk (by simp [ht, statementEnds])) hc
  | case8 _ _ t ts ht | case11 _ _ t ts ht =>
    obtain ⟨-, rfl⟩ := Prod.mk.inj (Option.some.inj hc)
    exact h.pass hk (by simp [ht, statementEnds])
  | case9 _ _ t ts ht _ ih | case12 _ _ t ts ht _ ih | case10 _ _ _ t ts ht _ ih
  | case13 _ _ _ t ts ht _ ih =>
    exact ih (h.pass hk (by simp [ht, statementEnds])) hc
  | case14 _ _ _ t ts hs ho hb _ _ _ _ _ ih =>
    refine ih (h.pass hk ?_) hc
    simp only [statementEnds, List.mem_cons, List.not_mem_nil, or_false, not_or]
    exact ⟨hs, ho, hb⟩

theorem angles? {taken : List Token} (h : Ahead k ts) (ha : angles? ts = some (taken, rest)) :
    Ahead k rest :=
  h.closeAngles hk ha

end

end Ahead
end Tokens

namespace Construct.Declaration

open Tokens (Ahead statementEnds)

variable {k : Kind} {ts : List Token} (hk : k ∈ statementEnds)
include hk

theorem paramsFollowSymbol_append (h : Ahead k ts) (n : Nat) (us : List Token) :
    paramsFollowSymbol n (ts ++ us) = paramsFollowSymbol n ts := by
  have htrivia := Ahead.isTrivia_of_mem hk
  induction n generalizing ts with
  | zero => rfl
  | succ n ih =>
    obtain ⟨t, rest, ht⟩ := h.exists_skipSpace htrivia
    have hfront := h.skipSpace htrivia
    rw [ht] at hfront
    rw [paramsFollowSymbol, paramsFollowSymbol, h.skipSpace_append htrivia, ht, List.cons_append]
    dsimp only
    split
    · rfl
    · rfl
    · rfl
    · rfl
    · next hs ho hc =>
      refine ih (hfront.pass hk ?_)
      simp only [statementEnds, List.mem_cons, List.not_mem_nil, or_false, not_or]
      exact ⟨hs, ho, hc⟩

theorem operatorTakesParams_append (h : Ahead k ts) (us : List Token) :
    operatorTakesParams (ts ++ us) = operatorTakesParams ts := by
  have htrivia := Ahead.isTrivia_of_mem hk
  have hfront := h.skipSpace htrivia
  have hparen : (.punct .lParen : Kind) ≠ k := by
    rintro rfl
    simp [statementEnds] at hk
  unfold operatorTakesParams
  dsimp only
  rw [h.skipSpace_append htrivia, hfront.headKinds_append hparen]
  split
  · next hkinds =>
    generalize Tokens.skipSpace ts = front at hfront hkinds ⊢
    simp only [Bool.and_eq_true, beq_iff_eq] at hkinds
    rcases front with _ | ⟨o, _ | ⟨c, behind⟩⟩
    · exact absurd rfl hfront.ne_nil
    · simp [Tokens.headKind] at hkinds
    · have ho : o.kind = .punct .lParen := hkinds.1
      have hc : c.kind = .punct .rParen := hkinds.2
      have hbehind := (hfront.pass hk (by simp [ho, statementEnds])).pass hk
        (by simp [hc, statementEnds])
      exact paramsFollowSymbol_append hk hbehind maxWords us
  · exact paramsFollowSymbol_append hk hfront maxWords us

theorem paramsFollow_append (h : Ahead k ts) (seen : Bool) (words : Nat) (us : List Token) :
    paramsFollow seen words (ts ++ us) = paramsFollow seen words ts := by
  have htrivia := Ahead.isTrivia_of_mem hk
  induction hn : ts.length using Nat.strongRecOn generalizing seen words ts with
  | ind m ih =>
    subst hn
    cases words with
    | zero => rw [paramsFollow, paramsFollow]
    | succ n =>
      have hlen := Tokens.skipTrivia_length_le ts
      have hfront := h.skipTrivia htrivia
      obtain ⟨t, rest, ht⟩ := h.exists_skipTrivia htrivia
      rw [ht] at hlen hfront
      rw [paramsFollow_succ, paramsFollow_succ, h.skipTrivia_append htrivia, ht, List.cons_append]
      have hmore : t.kind ∉ statementEnds → ∀ seen words,
          paramsFollow seen words (rest ++ us) = paramsFollow seen words rest :=
        fun ht seen words => ih _ hlen (hfront.pass hk ht) seen words rfl
      dsimp only
      split
      · next ht =>
        refine hmore ?_ _ _
        rw [Bool.or_eq_true, beq_iff_eq] at ht
        intro hmem
        simp only [statementEnds, List.mem_cons, List.not_mem_nil, or_false] at hmem
        rcases hmem with hs | hs | hs <;> simp [hs, Kind.isBuiltinType] at ht
      · split
        · rfl
        · next ht => exact hmore (by simp [ht, statementEnds]) _ _
        · next ht => exact hmore (by simp [ht, statementEnds]) _ _
        · next ht => exact hmore (by simp [ht, statementEnds]) _ _
        · next ht => exact hmore (by simp [ht, statementEnds]) _ _
        · next ht => exact hmore (by simp [ht, statementEnds]) _ _
        · next ht => exact hmore (by simp [ht, statementEnds]) _ _
        · next ht => exact hmore (by simp [ht, statementEnds]) _ _
        · rw [← List.cons_append, hfront.angles?_append hk]
          cases ha : Tokens.angles? (t :: rest) with
          | none => rfl
          | some m =>
            obtain ⟨list, after⟩ := m
            have hlt := Nat.lt_of_lt_of_le (Tokens.angles?_length_lt ha) hlen
            exact ih _ hlt (hfront.angles? hk ha) _ _ rfl
        · next ht =>
          exact operatorTakesParams_append hk (hfront.pass hk (by simp [ht, statementEnds])) us
        · rfl

end Construct.Declaration
end HeaderOutline
