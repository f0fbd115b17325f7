import Mathlib.Data.List.TakeWhile
import HeaderOutline.Proofs.Respaced.Declaration

/-! # Respaced functions

The head of a function is read token by token, apart from the names of operators and the
blocks of member initializers, which are taken as a whole.  Behind the head comes a semicolon
or a block.
-/
namespace HeaderOutline.Construct

open Tokens

variable {S : Respacing} {b : Trail} {k : Kind} {t u : Token} {ts us done done' : List Token}

namespace Function

/-! ## Trivia at the end -/

theorem withoutTrailingTrivia_append (ts us : List Token) :
    withoutTrailingTrivia (ts ++ us) =
      if us.all (·.kind.isTrivia) then withoutTrailingTrivia ts
      else ts ++ withoutTrailingTrivia us := by
  unfold withoutTrailingTrivia
  rw [List.reverse_append]
  split
  · next h =>
    rw [List.dropWhile_append_of_pos fun t ht =>
      List.all_eq_true.mp h t (List.mem_reverse.mp ht)]
  · next h =>
    rw [List.dropWhile_append, if_neg, List.reverse_append, List.reverse_reverse]
    rwa [List.isEmpty_iff, List.dropWhile_eq_nil_iff, ← List.all_eq_true, List.all_reverse]

theorem withoutTrailingTrivia_cons (h : t.kind.isTrivia = false) (ts : List Token) :
    withoutTrailingTrivia (t :: ts) = t :: withoutTrailingTrivia ts := by
  have hsplit := withoutTrailingTrivia_append [t] ts
  rw [List.singleton_append] at hsplit
  rw [hsplit]
  split
  · next hall =>
    have hempty : withoutTrailingTrivia ts = [] := by
      unfold withoutTrailingTrivia
      rw [List.reverse_eq_nil_iff, List.dropWhile_eq_nil_iff]
      exact fun u hu => List.all_eq_true.mp hall u (List.mem_reverse.mp hu)
    rw [hempty, withoutTrailingTrivia, List.reverse_singleton,
      List.dropWhile_cons_of_neg (by simp [h]), List.reverse_singleton]
  · rfl

theorem all_trivia_append {gap : List Token} (h : ∀ t ∈ gap, t.kind.isTrivia = true)
    (ts : List Token) : (gap ++ ts).all (·.kind.isTrivia) = ts.all (·.kind.isTrivia) := by
  rw [List.all_append, List.all_eq_true.mpr h, Bool.true_and]

theorem withoutTrailingTrivia_gap {gap : List Token} (h : ∀ t ∈ gap, t.kind.isTrivia = true)
    (ts : List Token) :
    withoutTrailingTrivia (gap ++ ts) =
      if ts.all (·.kind.isTrivia) then [] else gap ++ withoutTrailingTrivia ts := by
  have hgap : withoutTrailingTrivia gap = [] := by
    unfold withoutTrailingTrivia
    rw [List.reverse_eq_nil_iff, List.dropWhile_eq_nil_iff]
    exact fun u hu => h u (List.mem_reverse.mp hu)
  rw [withoutTrailingTrivia_append, hgap]

/-- If no gap gets comments, pieces are so without the trivia at their ends. -/
theorem withoutTrailingTrivia_piece (hs : S.IsStrict) (h : RespacedPiece S ts us) :
    RespacedPiece S (withoutTrailingTrivia ts) (withoutTrailingTrivia us) ∧
      us.all (·.kind.isTrivia) = ts.all (·.kind.isTrivia) := by
  induction h with
  | nil => exact ⟨.nil, rfl⟩
  | @token t u ts us h _ ih =>
    have hu : u.kind.isTrivia = false := (congrArg _ (S.kind_of_token h)).trans (S.not_trivia h)
    rw [withoutTrailingTrivia_cons (S.not_trivia h), withoutTrailingTrivia_cons hu, List.all_cons,
      List.all_cons, S.not_trivia h, hu]
    exact ⟨.token h ih.1, rfl⟩
  | @gap gap gap' ts us trivia passed tight same _ ih =>
    rw [withoutTrailingTrivia_gap trivia, withoutTrailingTrivia_gap (tight hs),
      all_trivia_append trivia, all_trivia_append (tight hs), ih.2]
    refine ⟨?_, rfl⟩
    split
    · exact .nil
    · exact .gap trivia passed tight same ih.1

theorem same_withoutTrailingTrivia (ds : Definitions) (h : RespacedPiece S ts us) :
    S.same (substituted ds (withoutTrailingTrivia ts))
      (substituted ds (withoutTrailingTrivia us)) := by
  by_cases hs : S.IsStrict
  · exact (withoutTrailingTrivia_piece hs h).1.same_substituted ds
  · obtain ⟨b, hb⟩ := Classical.not_forall.mp hs
    obtain ⟨k, hl⟩ := Classical.not_forall_not.mp hb
    exact S.same_of_loose hl _ _

/-! ## The head -/

theorem Progress.read_respaced (p : Progress) (h : S.token t u)
    (more : Respaced S (t.kind :: b) ts us) : p.read u us = p.read t ts := by
  have hnote : p.note u us = p.note t ts :=
    p.note_congr (S.kind_of_token h) (S.text_of_ident h)
      (fun hk => Progress.opensGroup_respaced (hk ▸ more))
      fun hk => Progress.zeroFollows_respaced (hk ▸ more)
  unfold Progress.read
  rw [S.kind_of_token h, hnote]

theorem extent_cons (done : List Token) (p : Progress) (t : Token) (ts : List Token) :
    extent done p (t :: ts) =
      if p.refuses t.kind then .broken (t :: ts)
      else if p.depth == 0 && t.kind == .punct .semicolon then
        .declared p (t :: done).reverse ts
      else if p.depth == 0 && t.kind == .punct .lBrace then
        if p.bracesInitialize then
          match block? (t :: ts) with
          | none => .unclosed t
          | some (block, rest) =>
            extent (block.reverse ++ done) (p.remember (.punct .rBrace) false) rest
        else .defined p done.reverse (t :: ts)
      else if p.depth == 0 && !p.paramsOpen && t.kind == .keyword .operatorKw then
        extent ((operatorTokens t ts).1.reverse ++ done)
          (p.nameOperator (join (operatorTokens t ts).1)) (operatorTokens t ts).2
      else extent (t :: done) (p.read t ts) ts := by
  rw [extent]
  repeat' split
  all_goals simp_all

/-- A gap does not count. -/
theorem extent_gap {gap : List Token} (h : ∀ t ∈ gap, t.kind.IsPassed) (done : List Token)
    (p : Progress) (ts : List Token) :
    extent done p (gap ++ ts) = extent (gap.reverse ++ done) p ts := by
  refine read_gap_onto (fun done p t ts ht => ?_) h done p ts
  rw [extent_cons]
  rcases ht.cases with hk | hk | hk <;>
    simp [hk, Progress.refuses, Progress.read, Progress.note, Context.stops,
      Context.constructStarts, Kind.isTrivia, Kind.isComment]

/-- Heads of functions that end alike. -/
inductive Extent.Respaced (S : Respacing) : Extent → Extent → Prop
  | declared {p : Progress} {taken taken' rest rest' : List Token}
    (piece : RespacedPiece S taken taken') (more : RespacedOn S rest rest') :
    Respaced S (.declared p taken rest) (.declared p taken' rest')
  | defined {b : Trail} {p : Progress} {taken taken' rest rest' : List Token}
    (piece : RespacedPiece S taken taken') (more : Tokens.Respaced S b rest rest') :
    Respaced S (.defined p taken rest) (.defined p taken' rest')
  | broken {b : Trail} {rest rest' : List Token} (more : Tokens.Respaced S b rest rest') :
    Respaced S (.broken rest) (.broken rest')
  | unclosed (brace brace' : Token) : Respaced S (.unclosed brace) (.unclosed brace')

theorem push_all {taken taken' : List Token} (hd : RespacedPiece S done.reverse done'.reverse)
    (h : RespacedPiece S taken taken') :
    RespacedPiece S (taken.reverse ++ done).reverse (taken'.reverse ++ done').reverse := by
  rw [List.reverse_append, List.reverse_append, List.reverse_reverse, List.reverse_reverse]
  exact hd.append h

theorem extent_respaced (h : Respaced S b ts us)
    (hd : RespacedPiece S done.reverse done'.reverse) (p : Progress) :
    Extent.Respaced S (extent done p ts) (extent done' p us) := by
  induction hn : ts.length using Nat.strongRecOn generalizing b ts us done done' p with
  | ind n ih =>
    subst hn
    cases h with
    | nil =>
      rw [extent, extent]
      exact .broken (b := b) .nil
    | @token _ t u ts us fits h more =>
      rw [extent_cons, extent_cons, S.kind_of_token h, p.read_respaced h more]
      split
      · exact .broken (.token fits h more)
      · split
        · next he =>
          rw [Bool.and_eq_true, beq_iff_eq, beq_iff_eq] at he
          exact .declared (hd.push h) (respacedOn_of_end more (.inl he.2))
        · split
          · split
            · have hblock := (Respaced.token fits h more).block?
              cases ho : block? (t :: ts) with
              | none =>
                have hu := eq_none_of_rel_none (ho ▸ hblock)
                rw [hu]
                exact .unclosed t u
              | some x =>
                obtain ⟨y, hu, hpiece, b', hrest⟩ := exists_of_rel_some (ho ▸ hblock)
                rw [hu]
                exact ih _ (block?_length_lt ho) hrest (push_all hd hpiece) _ rfl
            · exact .defined hd (.token fits h more)
          · split
            · next he =>
              rw [Bool.and_eq_true, beq_iff_eq] at he
              have hop : Trail.inOperator (t.kind :: b) = true := by
                rw [he.2]
                rfl
              obtain ⟨hpiece, b', hrest⟩ := operatorTokens_respaced h more hop
              rw [hpiece.join_eq]
              exact ih _ (Nat.lt_succ_of_le (operatorTokens_suffix t ts).length_le) hrest
                (push_all hd hpiece) _ rfl
            · exact ih _ (Nat.lt_succ_self _) more (hd.push h) _ rfl
    | @gap _ gap gap' ts us h more =>
      rw [extent_gap fun t ht => .of_trivia (h.trivia t ht), extent_gap h.passed]
      refine ih _ ?_ more (hd.push_gap h) p rfl
      rw [List.length_append]
      exact Nat.lt_add_of_pos_left (List.length_pos_iff.mpr h.ne_nil)

/-- Respaced tokens are read as the same function. -/
theorem read_respaced (ds : Definitions) {lead lead' : Lead} (hl : lead.Respaced S lead')
    (h : Respaced S b ts us) :
    Outcome.Respaced S (read ds lead ts) (read ds lead' us) := by
  have hextent : Extent.Respaced S (extent [] .start ts) (extent [] .start us) :=
    extent_respaced h .nil .start
  unfold read
  generalize extent [] .start ts = e, extent [] .start us = e' at hextent ⊢
  cases hextent with
  | @broken b _ _ more => exact .unexpected _ _ ⟨b, more.behind⟩
  | unclosed => exact .failed rfl RespacedNext.nil.exists_behind
  | @declared p taken taken' rest rest' piece more =>
    dsimp only
    cases p.name with
    | none => exact .failed rfl more.exists_behind
    | some name =>
      exact .entity (Draft.respaced_of_name rfl rfl
        (hl.onto (S.same_trimEnd (piece.same_substituted ds))) rfl hl.template .none) more
  | @defined b p taken taken' rest rest' piece more =>
    dsimp only
    cases p.name with
    | none => exact .failed rfl ⟨b, more.behind⟩
    | some name =>
      have hblock := more.block?
      dsimp only
      cases ho : block? rest with
      | none =>
        have hu := eq_none_of_rel_none (ho ▸ hblock)
        rw [hu]
        exact .failed rfl RespacedNext.nil.exists_behind
      | some x =>
        obtain ⟨y, hu, hpiece, b', hrest⟩ := exists_of_rel_some (ho ▸ hblock)
        rw [hu]
        exact .entity (Draft.respaced_of_name rfl rfl
          (hl.onto (S.same_trimEnd (same_withoutTrailingTrivia ds piece))) rfl hl.template
          (.some hpiece.same_textOf)) (respacedOn_of_end hrest (.inr (.inr rfl)))

end Function

/-- Respaced tokens are read as the same declaration. -/
theorem Declaration.read_respaced (ds : Definitions) {lead lead' : Lead}
    (hl : lead.Respaced S lead') (hb : S.IsPlain b) (h : RespacedFront S b ts us) :
    Outcome.Respaced S (read ds lead ts) (read ds lead' us) := by
  unfold Declaration.read
  rw [isFunction_respaced (h.next hb)]
  split
  · exact Function.read_respaced ds hl h.respaced
  · exact Variable.read_respaced ds hl h.respaced

end HeaderOutline.Construct
