import HeaderOutline.Construct.Namespace
import HeaderOutline.Proofs.Respaced.Head

/-! # Respaced namespaces

The name of a namespace may hold `inline`, behind which white space is passed over and line
ends are not; so a gap at that place keeps its line ends.
-/
namespace HeaderOutline

namespace Tokens

variable {S : Respacing} {b : Trail} {k : Kind} {t u : Token} {ts us : List Token}

theorem Respaced.eq_nil (h : Respaced S b [] us) : us = [] := by
  generalize hts : [] = ts at h
  cases h with
  | nil => rfl
  | token => cases hts
  | gap h => exact absurd (List.append_eq_nil_iff.mp hts.symm).1 h.ne_nil

theorem headKind_ne_of_newline (h : headKind ts = .newline) (hk : k ≠ .newline) :
    headKind ts ≠ k := h ▸ hk.symm

theorem eat?_of_headKind (h : headKind ts ≠ k) : eat? k ts = none := by
  cases ts with
  | nil => rfl
  | cons t ts => exact eat?_of_ne h

end Tokens

namespace Construct.Namespace

open Tokens

variable {S : Respacing} {b : Trail} {k : Kind} {t u : Token} {ts us : List Token}

theorem readName_of_not (h : headKind ts ≠ .ident) (name : Text) (last : Token) :
    readName name last ts = ⟨name, last, ts⟩ := by
  cases ts with
  | nil => rw [readName]
  | cons t ts =>
    have hk : (t.kind == .ident) = false := beq_false_of_ne h
    rw [readName, hk, if_neg Bool.false_ne_true]

theorem readName_ident (h : t.kind = .ident) (name : Text) (last : Token) (ts : List Token) :
    readName name last (t :: ts) =
      match eat? (.punct .colonColon) ts with
      | some rest => readName (name ++ t.text ++ Text.colons) t (afterInline rest)
      | none => ⟨name ++ t.text, t, ts⟩ := by
  rw [readName, if_pos (beq_iff_eq.mpr h)]
  split <;> simp_all

/-- Behind a double colon and `inline` stand tokens at a calm place, or a line end in both
lists. -/
theorem afterInline_respaced (hb : S.IsCalm (.punct .colonColon :: b))
    (h : Respaced S (.punct .colonColon :: b) ts us) :
    RespacedCalmly S (afterInline ts) (afterInline us) ∨
      RespacedNext S (afterInline ts) (afterInline us) ∧
        headKind (afterInline ts) = .newline ∧ headKind (afterInline us) = .newline := by
  have heat := h.eat? (not_isPassed_keyword .inlineKw)
  unfold afterInline
  cases ho : Tokens.eat? (.keyword .inlineKw) ts with
  | none =>
    have hu := eq_none_of_rel_none (ho ▸ heat)
    rw [hu]
    exact .inl ⟨_, hb, h⟩
  | some rest =>
    obtain ⟨rest', hu, hrest⟩ := exists_of_rel_some (ho ▸ heat)
    have hcalm := hb.cons (k := .keyword .inlineKw) rfl
    rw [hu]
    dsimp only
    rcases hrest.skipSpace_cases (hcalm.tight _)
        (S.firm_of_keepsLines (by simp [Trail.keepsLines])) with
      ⟨ht, hu⟩ | ⟨ht, hu⟩
    · refine .inr ⟨?_, ht, hu⟩
      obtain ⟨b', hb', hfront⟩ := RespacedCalmly.next ⟨_, hcalm, hrest⟩
      refine ⟨b', hb', ?_⟩
      rwa [skipTrivia_skipSpace, skipTrivia_skipSpace]
    · rw [ht, hu]
      exact .inl (RespacedCalmly.front ⟨_, hcalm, hrest⟩).calmly

/-- The name of a namespace is the same. -/
theorem readName_respaced (h : RespacedCalmly S ts us) (name : Text) (last last' : Token) :
    (readName name last' us).name = (readName name last ts).name ∧
      RespacedNext S (readName name last ts).rest (readName name last' us).rest := by
  induction hn : ts.length using Nat.strongRecOn generalizing ts us name last last' with
  | ind n ih =>
    subst hn
    have hnext := h.next
    obtain ⟨b, hb, h⟩ := h
    have hident := h.headKind_beq not_isPassed_ident
    cases hk : headKind ts == .ident with
    | false =>
      rw [hk] at hident
      rw [readName_of_not (ne_of_beq_false hk), readName_of_not (ne_of_beq_false hident)]
      exact ⟨rfl, hnext⟩
    | true =>
      cases ts with
      | nil => cases hk
      | cons t rest =>
        have htk : t.kind = .ident := eq_of_beq hk
        obtain ⟨u, rest', rfl, -, ht, more⟩ := h.uncons (by rw [htk]; rfl)
        have hcalm : S.IsCalm (t.kind :: b) := hb.cons (by rw [htk]; rfl)
        have hcolons := hcalm.cons (k := .punct .colonColon) rfl
        have heat := more.eat? (not_isPassed_punct .colonColon)
        rw [readName_ident htk, readName_ident ((S.kind_of_token ht).trans htk),
          S.text_of_token ht (by rw [htk]; rfl)]
        cases ho : Tokens.eat? (.punct .colonColon) rest with
        | none =>
          have hu := eq_none_of_rel_none (ho ▸ heat)
          rw [hu]
          exact ⟨rfl, RespacedCalmly.next ⟨_, hcalm, more⟩⟩
        | some behind =>
          obtain ⟨behind', hu, hbehind⟩ := exists_of_rel_some (ho ▸ heat)
          rw [hu]
          dsimp only
          rcases afterInline_respaced hcolons hbehind with hafter | ⟨hafter, hts, hus⟩
          · refine ih _ ?_ hafter _ _ _ rfl
            exact Nat.lt_succ_of_le
              ((afterInline_suffix behind).trans (Tokens.eat?_suffix ho)).length_le
          · rw [readName_of_not (headKind_ne_of_newline hts nofun),
              readName_of_not (headKind_ne_of_newline hus nofun)]
            exact ⟨rfl, hafter⟩

theorem not_isPassed_of_aliasStops : ∀ k ∈ aliasStops, ¬k.IsPassed := by
  intro k hk
  simp only [aliasStops, List.mem_cons, List.not_mem_nil, or_false] at hk
  rcases hk with rfl | rfl | rfl <;> exact not_isPassed_punct _

/-- Respaced tokens are read as the same alias. -/
theorem readAlias_respaced (name : Text) (fits : S.fits (u :: us)) (ht : S.token t u)
    (more : Respaced S (t.kind :: b) ts us) :
    Outcome.Respaced S (readAlias name t ts) (readAlias name u us) := by
  obtain ⟨hpiece, b', hrest⟩ := (Respaced.token fits ht more).upTo not_isPassed_of_aliasStops
  unfold readAlias
  dsimp only
  generalize hx : upTo aliasStops (t :: ts) = x, upTo aliasStops (u :: us) = y at hpiece hrest ⊢
  obtain ⟨taken, after⟩ := x
  obtain ⟨taken', after'⟩ := y
  dsimp only at hpiece hrest ⊢
  cases after with
  | nil =>
    rw [hrest.eq_nil]
    exact .unexpected _ _ RespacedNext.nil.exists_behind
  | cons s behind =>
    have hs := kind_mem_of_upTo (congrArg Prod.snd hx)
    have htrivia : s.kind.isTrivia = false := by
      rw [← Bool.not_eq_true]
      exact fun h => not_isPassed_of_aliasStops _ hs (.of_trivia h)
    obtain ⟨s', behind', rfl, -, hss, hmore⟩ := hrest.uncons htrivia
    dsimp only
    rw [S.kind_of_token hss]
    split
    · next hk =>
      exact .entity (Draft.respaced_simple (hpiece.concat hss).same_textOf)
        (respacedOn_of_end hmore (.inl (eq_of_beq hk)))
    · exact .unexpected _ _ ⟨b', hrest.behind⟩

theorem readEnd_respaced (isInline : Bool) (fits : S.fits (u :: us)) (ht : S.token t u)
    (more : Respaced S (t.kind :: b) ts us) {h h' : Head} (hn : h'.name = h.name)
    (hr : RespacedNext S h.rest h'.rest) :
    Outcome.Respaced S (readEnd isInline t ts h) (readEnd isInline u us h') := by
  have hon := hr.on
  obtain ⟨b', hb', hfront⟩ := hr
  have hsame := S.same_refl (signature isInline h.name)
  unfold readEnd
  dsimp only
  rw [hn, hfront.headKind]
  split
  · exact readAlias_respaced _ fits ht more
  · have heat := hfront.respaced.eat? (not_isPassed_punct .lBrace)
    cases ho : Tokens.eat? (.punct .lBrace) (skipTrivia h.rest) with
    | none =>
      have hu := eq_none_of_rel_none (ho ▸ heat)
      rw [hu]
      dsimp only
      split
      · exact .unexpected _ _ hon.exists_behind
      · exact .entity (Draft.respaced_simple hsame) hon
    | some members =>
      obtain ⟨members', hu, hmembers⟩ := exists_of_rel_some (ho ▸ heat)
      rw [hu]
      exact .read (.scope (Draft.respaced_simple (S.same_append hsame (S.same_refl _))) .pub)
        (respacedOn_of_end hmembers (.inr (.inl rfl)))

/-- Respaced tokens are read as the same namespace. -/
theorem read_respaced (hb : S.IsPlain b) (fits : S.fits (u :: us)) (ht : S.token t u)
    (hk : t.kind.leadsOn = true) (more : Respaced S (t.kind :: b) ts us)
    (hn : t.kind = .keyword .inlineKw → nextKind ts = .keyword .namespaceKw) :
    Outcome.Respaced S (read t ts) (read u us) := by
  have hcalm : RespacedCalmly S ts us := ⟨_, hb.cons hk, more⟩
  unfold read
  rw [S.kind_of_token ht]
  split
  · next hinline =>
    have hnext := hn (eq_of_beq hinline)
    obtain ⟨b', hb', hfront⟩ := hcalm.front
    cases hts : skipTrivia ts with
    | nil =>
      rw [hts] at hfront
      rw [hfront.eq_nil]
      exact .unexpected _ _ RespacedNext.nil.exists_behind
    | cons keyword behind =>
      rw [hts] at hfront
      obtain ⟨keyword', behind', hus, -, hkeyword, hbehind⟩ := hfront.uncons
      rw [nextKind, hts] at hnext
      have hkeyword' : keyword.kind.leadsOn = true := by
        rw [show keyword.kind = _ from hnext]
        rfl
      obtain ⟨hname, hr⟩ := readName_respaced
        (RespacedCalmly.front ⟨_, hb'.cons hkeyword', hbehind⟩).calmly [] keyword keyword'
      rw [hus]
      exact readEnd_respaced true fits ht more hname hr
  · obtain ⟨hn, hr⟩ := readName_respaced hcalm.front.calmly [] t u
    exact readEnd_respaced false fits ht more hn hr

/-- A block with a linkage of its own opens in both lists, or in none. -/
theorem afterLinkage?_respaced (h : RespacedCalmly S ts us) :
    Option.Rel (RespacedOn S) (afterLinkage? ts) (afterLinkage? us) := by
  obtain ⟨b, hb, hfront⟩ := h.front
  have hstring := hfront.respaced.eat? not_isPassed_string
  unfold afterLinkage?
  cases ho : Tokens.eat? .string (skipTrivia ts) with
  | none =>
    have hu := eq_none_of_rel_none (ho ▸ hstring)
    rw [hu]
    exact .none
  | some behind =>
    obtain ⟨behind', hu, hbehind⟩ := exists_of_rel_some (ho ▸ hstring)
    obtain ⟨b', -, hfront'⟩ := RespacedCalmly.front ⟨_, hb.cons rfl, hbehind⟩
    have hbrace := hfront'.respaced.eat? (not_isPassed_punct .lBrace)
    rw [hu]
    show Option.Rel _ (Tokens.eat? (.punct .lBrace) (skipTrivia behind))
      (Tokens.eat? (.punct .lBrace) (skipTrivia behind'))
    cases ho : Tokens.eat? (.punct .lBrace) (skipTrivia behind) with
    | none =>
      have hu := eq_none_of_rel_none (ho ▸ hbrace)
      rw [hu]
      exact .none
    | some members =>
      obtain ⟨members', hu, hmembers⟩ := exists_of_rel_some (ho ▸ hbrace)
      rw [hu]
      exact .some (respacedOn_of_end hmembers (.inr (.inl rfl)))

end Construct.Namespace
end HeaderOutline
