import HeaderOutline.Proofs.Passed

/-! # What lasts while tokens are passed

Many parts of constructs pass neither a semicolon nor a brace that opens: names, lists in angle
brackets, specifiers, clauses.  Whatever is known of the tokens ahead and gets lost only over such a
token is then known of the tokens that the part leaves (`Tokens.Lasting`).
-/
namespace HeaderOutline

namespace Tokens

/-- What is known of the tokens ahead lasts until a semicolon or a brace that opens is passed. -/
def Lasting (P : List Token → Prop) : Prop :=
  ∀ t ts, P (t :: ts) → t.kind ≠ .punct .semicolon → t.kind ≠ .punct .lBrace → P ts

namespace Lasting

variable {P : List Token → Prop} (hP : Lasting P) {t : Token} {ts rest : List Token}
include hP

/-- A token of a known kind is passed. -/
theorem tail {k : Kind} (h : P (t :: ts)) (hk : t.kind = k)
    (hplain : k ∉ [.punct .semicolon, .punct .lBrace]) : P ts := by
  simp only [List.mem_cons, List.not_mem_nil, or_false, not_or] at hplain
  exact hP t ts h (hk ▸ hplain.1) (hk ▸ hplain.2)

theorem dropWhile (h : P ts) {q : Token → Bool}
    (hq : ∀ t, q t = true → t.kind ≠ .punct .semicolon ∧ t.kind ≠ .punct .lBrace) :
    P (ts.dropWhile q) := by
  induction ts with
  | nil => exact h
  | cons t ts ih =>
    by_cases ht : q t = true
    · rw [List.dropWhile_cons_of_pos ht]
      exact ih (hP t ts h (hq t ht).1 (hq t ht).2)
    · rwa [List.dropWhile_cons_of_neg ht]

theorem skipSpace (h : P ts) : P (skipSpace ts) := by
  refine hP.dropWhile h fun t ht => ?_
  rw [beq_iff_eq.mp ht]
  decide

theorem skipTrivia (h : P ts) : P (skipTrivia ts) := by
  refine hP.dropWhile h fun t ht => ?_
  constructor <;> intro hk <;> simp [hk, Kind.isTrivia] at ht

theorem skipGap (h : P ts) : P (skipGap ts) := by
  refine hP.dropWhile h fun t ht => ?_
  constructor <;> intro hk <;> simp [hk, Kind.isTrivia, Kind.isComment] at ht

theorem upTo (h : P ts) (kinds : List Kind) (hs : kinds.contains (.punct .semicolon) = true)
    (hb : kinds.contains (.punct .lBrace) = true) : P (upTo kinds ts).2 := by
  refine hP.dropWhile h fun t ht => ?_
  constructor
  · intro hk
    rw [hk, hs] at ht
    cases ht
  · intro hk
    rw [hk, hb] at ht
    cases ht

theorem eat? {kind : Kind} (h : P ts) (he : eat? kind ts = some rest)
    (hk : kind ∉ [.punct .semicolon, .punct .lBrace]) : P rest := by
  obtain ⟨t, rfl, rfl⟩ := eat?_eq_some_iff.mp he
  exact hP.tail h rfl hk

theorem clause_ok {text : Text} (h : P ts) (hc : clause ts = .ok (text, rest)) : P rest := by
  unfold clause at hc
  dsimp only at hc
  split at hc
  · cases hc
  · obtain ⟨-, rfl⟩ := Prod.mk.inj (Except.ok.inj hc)
    exact hP.upTo (hP.skipTrivia h) _ rfl rfl

theorem clause_error (h : P ts) (hc : clause ts = .error rest) : P rest := by
  unfold clause at hc
  dsimp only at hc
  split at hc
  · obtain rfl := Except.error.inj hc
    exact hP.upTo (hP.skipTrivia h) _ rfl rfl
  · cases hc

theorem closeAngles {done taken : List Token} {depth parens : Nat} (h : P ts)
    (ha : closeAngles done depth parens ts = some (taken, rest)) : P rest := by
  fun_induction Tokens.closeAngles done depth parens ts with
  | case1 => cases ha
  | case2 => cases ha
  | case3 => cases ha
  | case4 => cases ha
  | case5 _ _ _ t ts hk ih | case6 _ _ _ t ts hk ih | case7 _ _ _ t ts hk ih =>
    exact ih (hP.tail h hk (by decide)) ha
  | case8 _ _ t ts hk | case11 _ _ t ts hk =>
    obtain ⟨-, rfl⟩ := Prod.mk.inj (Option.some.inj ha)
    exact hP.tail h hk (by decide)
  | case9 _ _ t ts hk _ ih | case12 _ _ t ts hk _ ih | case10 _ _ _ t ts hk _ ih
  | case13 _ _ _ t ts hk _ ih =>
    exact ih (hP.tail h hk (by decide)) ha
  | case14 _ _ _ t ts hs hb _ _ _ _ _ _ ih => exact ih (hP t ts h hs hb) ha

/-- Neither a semicolon nor a brace stands in a list in angle brackets. -/
theorem angles? {taken : List Token} (h : P ts) (ha : angles? ts = some (taken, rest)) : P rest :=
  hP.closeAngles h ha

end Lasting

end Tokens

namespace Construct

open Tokens (Lasting)

variable {P : List Token → Prop} (hP : Lasting P) {t : Token} {ts rest : List Token}
  {ds : Definitions}
include hP

theorem qualifiedName_lasting (name : Text) (last : Token) (h : P ts) :
    P (qualifiedName name last ts).rest := by
  fun_induction qualifiedName name last ts with
  | case1 _ _ c i rest hk ih =>
    simp only [Bool.and_eq_true, beq_iff_eq] at hk
    exact ih (hP.tail (hP.tail h hk.1 (by decide)) hk.2 (by decide))
  | case2 => exact h
  | case3 => exact h

theorem operatorTokens_lasting (op : Token) (h : P rest) :
    P (Function.operatorTokens op rest).2 := by
  have hsymbol := hP.skipSpace h
  change P (Function.operatorSymbol (Tokens.skipSpace rest)).2
  generalize Tokens.skipSpace rest = ts at hsymbol
  unfold Function.operatorSymbol
  split
  · next hk =>
    rcases ts with _ | ⟨o, _ | ⟨c, behind⟩⟩
    · exact hsymbol
    · simp [Tokens.headKind] at hk
    · simp only [Tokens.headKind, List.tail_cons, Bool.and_eq_true, beq_iff_eq] at hk
      have ho : o.kind = .punct .lParen := hk.1
      have hc : c.kind = .punct .rParen := hk.2
      exact hP.tail (hP.tail hsymbol ho (by decide)) hc (by decide)
  · exact hP.upTo hsymbol _ rfl rfl

/-! ## Heads of classes and enums -/

theorem Head.readClause_lasting {context : Context} {h : Head} (hr : P h.rest) :
    P (Outcome.leftBy (·.rest) (h.readClause context)) := by
  unfold readClause
  split
  · next t rest ht =>
    split
    · next hk =>
      have hbehind : P rest := by
        rw [ht] at hr
        exact hP.tail hr (beq_iff_eq.mp hk) (by decide)
      split
      · next he => exact hP.clause_error hbehind he
      · next he => exact hP.clause_ok hbehind he
    · exact hr
  · exact hr

namespace Class

theorem exported?_lasting {first second : Token} {behind : List Token} (h : P rest)
    (he : exported? ds first rest = some (second, behind)) :
    second.kind = .ident ∧ P behind := by
  have hfront := hP.skipTrivia h
  unfold exported? at he
  split at he
  · next ht =>
    rw [ht] at hfront
    split at he
    · next hs =>
      obtain ⟨rfl, rfl⟩ := Prod.mk.inj (Option.some.inj he)
      simp only [Bool.and_eq_true, beq_iff_eq] at hs
      exact ⟨hs.1, hP.tail hfront hs.1 (by decide)⟩
    · cases he
  · cases he

theorem readName_lasting (ds : Definitions) {h : Head} (hr : P h.rest) :
    P (readName ds h).rest := by
  unfold readName
  split
  · next first rest ht =>
    rw [ht] at hr
    split
    · next hk =>
      have hbehind := hP.tail hr (beq_iff_eq.mp hk) (by decide)
      dsimp only
      split
      · next second behind he =>
        exact qualifiedName_lasting hP _ _ (exported?_lasting hP hbehind he).2
      · exact qualifiedName_lasting hP _ _ hbehind
    · rwa [ht]
  · exact hr

theorem readArguments_lasting {h : Head} (hr : P h.rest) :
    P (Outcome.leftBy (·.rest) (readArguments h)) := by
  have hfront := hP.skipTrivia hr
  unfold readArguments
  split
  · next t rest ht =>
    rw [ht] at hfront
    split
    · split
      · exact hr
      · next ha => exact hP.angles? hfront ha
    · exact hr
  · exact hr

theorem readFinal_lasting {h : Head} (hr : P h.rest) : P (readFinal h).rest := by
  have hfront := hP.skipTrivia hr
  unfold readFinal
  split
  · next t rest ht =>
    rw [ht] at hfront
    split
    · next hk => exact hP.skipTrivia (hP.tail hfront (beq_iff_eq.mp hk) (by decide))
    · exact hfront
  · next ht => rwa [ht] at hfront

theorem head_lasting (ds : Definitions) (keyword : Token)
    (h : P (Tokens.skipAttributes (Tokens.skipTrivia rest))) :
    P (Outcome.leftBy (·.rest) (head ds keyword rest)) := by
  unfold head
  dsimp only
  generalize hn : readName ds _ = named
  have hs : P named.rest := by
    rw [← hn]
    exact readName_lasting hP ds h
  have ha := readArguments_lasting hP hs
  cases he : readArguments named with
  | error outcome =>
    rw [he] at ha
    exact ha
  | ok h =>
    rw [he] at ha
    exact Head.readClause_lasting hP (readFinal_lasting hP ha)

end Class

namespace Enum

theorem readScoped_lasting {h : Head} (hr : P h.rest) : P (readScoped h).rest := by
  unfold readScoped
  split
  · next t rest ht =>
    split
    · next hk =>
      rw [ht] at hr
      simp only [Bool.or_eq_true, beq_iff_eq] at hk
      rcases hk with hk | hk
      · exact hP.skipTrivia (hP.tail hr hk (by decide))
      · exact hP.skipTrivia (hP.tail hr hk (by decide))
    · exact hr
  · exact hr

theorem readName_lasting {h : Head} (hr : P h.rest) : P (readName h).rest := by
  unfold readName
  split
  · next t rest ht =>
    split
    · next hk =>
      rw [ht] at hr
      exact hP.skipTrivia
        (qualifiedName_lasting hP _ _ (hP.tail hr (beq_iff_eq.mp hk) (by decide)))
    · exact hr
  · exact hr

end Enum

/-! ## Namespaces and templates -/

namespace Namespace

theorem afterInline_lasting (h : P ts) : P (afterInline ts) := by
  unfold afterInline
  split
  · next he => exact hP.skipSpace (hP.eat? h he (by decide))
  · exact h

theorem readName_lasting (name : Text) (last : Token) (h : P ts) :
    P (readName name last ts).rest := by
  fun_induction readName name last ts with
  | case1 => exact h
  | case2 _ _ t ts hk rest he ih =>
    have hbehind := hP.tail h (beq_iff_eq.mp hk) (by decide)
    exact ih (afterInline_lasting hP (hP.eat? hbehind he (by decide)))
  | case3 _ _ t ts hk => exact hP.tail h (beq_iff_eq.mp hk) (by decide)
  | case4 => exact h

end Namespace

theorem Template.clauses_lasting (texts parameters : List Text) (h : P ts) :
    P (Outcome.leftBy (·.rest) (clauses texts parameters ts)) := by
  fun_induction clauses texts parameters ts with
  | case1 => exact h
  | case2 _ _ t ts hk => exact hP.skipTrivia (hP.tail h (beq_iff_eq.mp hk) (by decide))
  | case3 _ _ t ts hk => exact hP.skipTrivia (hP.tail h (beq_iff_eq.mp hk) (by decide))
  | case4 _ _ t ts hk _ _ _ after ha _ ih =>
    have hlist := hP.skipTrivia (hP.tail h (beq_iff_eq.mp hk) (by decide))
    exact ih (hP.skipGap (hP.angles? hlist ha))
  | case5 => exact h

/-! ## Comments and macros -/

theorem Comment.nextLine?_lasting {mark : Text} {after : List Token} (h : P ts)
    (hl : nextLine? mark ts = some (t, after)) : P after := by
  obtain ⟨line, hline, ht⟩ := nextLine?_eq_some hl
  have hfront := hP.skipSpace (hP.eat? (hP.skipSpace h) hline (by decide))
  rw [ht] at hfront
  simp only [nextLine?, hline, ht] at hl
  split at hl
  · next hk =>
    simp only [Bool.and_eq_true, beq_iff_eq] at hk
    exact hP.tail hfront hk.1 (by decide)
  · cases hl

theorem Comment.mergeLines_lasting (mark raw : Text) (last : Token) (h : P rest) :
    P (mergeLines mark raw last rest).2.2 := by
  fun_induction mergeLines mark raw last rest with
  | case1 _ _ rest t after hl ih => exact ih (Comment.nextLine?_lasting hP h hl)
  | case2 => exact h

/-- What starts behind a macro starts with the keyword of a class or an enum. -/
theorem exportedHead?_lasting {behind : List Token} (h : P rest)
    (he : exportedHead? rest = some (t, behind)) :
    t.kind ∈ [.keyword .classKw, .keyword .structKw, .keyword .unionKw, .keyword .enumKw] ∧
      P (t :: behind) := by
  have hfront := hP.skipSpace h
  unfold exportedHead? at he
  split at he
  · next hs =>
    rw [hs] at hfront
    split at he
    · next ht =>
      obtain ⟨rfl, rfl⟩ := Prod.mk.inj (Option.some.inj he)
      simp only [Bool.or_eq_true, beq_iff_eq] at ht
      exact ⟨by simpa [or_assoc] using ht, hfront⟩
    · cases he
  · cases he

end Construct
end HeaderOutline
