import HeaderOutline.Construct.Name
import HeaderOutline.Proofs.Passed
import HeaderOutline.Proofs.Respaced.Front

/-! # Respaced groups and names

Groups between brackets, attributes, and qualified names are taken alike from respaced tokens.
In angle brackets the parentheses that are open are those that the trail counts, so that a
place behind them is calm again.
-/
namespace HeaderOutline

/-- Two results that are both errors, or both values, and related as such. -/
inductive ExceptRel {ε ε' α α' : Type} (E : ε → ε' → Prop) (R : α → α' → Prop) :
    Except ε α → Except ε' α' → Prop
  | error {e : ε} {e' : ε'} (h : E e e') : ExceptRel E R (.error e) (.error e')
  | ok {a : α} {a' : α'} (h : R a a') : ExceptRel E R (.ok a) (.ok a')

theorem ExceptRel.bind {ε ε' α α' β β' : Type} {E : ε → ε' → Prop} {R : α → α' → Prop}
    {R' : β → β' → Prop} {x : Except ε α} {x' : Except ε' α'} {f : α → Except ε β}
    {f' : α' → Except ε' β'} (h : ExceptRel E R x x')
    (hf : ∀ a a', R a a' → ExceptRel E R' (f a) (f' a')) :
    ExceptRel E R' (x.bind f) (x'.bind f') := by
  cases h with
  | error h => exact .error h
  | ok h => exact hf _ _ h

theorem exists_of_rel_some {α β : Type} {R : α → β → Prop} {a : α} {o : Option β}
    (h : Option.Rel R (some a) o) : ∃ a', o = some a' ∧ R a a' := by
  cases h with
  | some h => exact ⟨_, rfl, h⟩

theorem eq_none_of_rel_none {α β : Type} {R : α → β → Prop} {o : Option β}
    (h : Option.Rel R none o) : o = none := by
  cases h
  rfl

namespace Tokens

variable {S : Respacing} {b : Trail} {k : Kind} {t u : Token} {ts us done done' : List Token}

/-- Respaced tokens at a calm place. -/
def RespacedCalmly (S : Respacing) (ts us : List Token) : Prop :=
  ∃ b, S.IsCalm b ∧ Respaced S b ts us

theorem RespacedCalmly.nil : RespacedCalmly S [] [] :=
  ⟨[.ident], Respacing.isCalm_of_parens rfl rfl, .nil⟩

/-- Tokens that start with one that is no trivia. -/
theorem Respaced.uncons (h : Respaced S b (t :: ts) us) (ht : t.kind.isTrivia = false) :
    ∃ u us', us = u :: us' ∧ S.fits us ∧ S.token t u ∧ Respaced S (t.kind :: b) ts us' := by
  generalize hts : t :: ts = xs at h
  cases h with
  | nil => cases hts
  | token fits h more =>
    obtain ⟨rfl, rfl⟩ := List.cons.inj hts
    exact ⟨_, _, rfl, fits, h, more⟩
  | @gap _ gap gap' ts us h =>
    obtain ⟨v, gap, rfl⟩ := List.exists_cons_of_ne_nil h.ne_nil
    obtain ⟨rfl, -⟩ := List.cons.inj hts
    rw [h.trivia t List.mem_cons_self] at ht
    cases ht

/-! ## Braces -/

theorem closeBraces_passed {gap : List Token} (h : ∀ t ∈ gap, t.kind.IsPassed)
    (done : List Token) (depth : Nat) (ts : List Token) :
    closeBraces done depth (gap ++ ts) = closeBraces (gap.reverse ++ done) depth ts := by
  refine read_gap_onto (fun done depth t ts ht => ?_) h done depth ts
  rw [closeBraces]
  rcases ht.cases with hk | hk | hk <;> simp [hk]

/-- Pieces are put in front of others in reverse. -/
theorem RespacedPiece.push (h : RespacedPiece S done.reverse done'.reverse) (ht : S.token t u) :
    RespacedPiece S (t :: done).reverse (u :: done').reverse := by
  rw [List.reverse_cons, List.reverse_cons]
  exact h.concat ht

theorem RespacedPiece.push_gap {gap gap' : List Token}
    (h : RespacedPiece S done.reverse done'.reverse) (hg : S.Gap b k gap gap') :
    RespacedPiece S (gap.reverse ++ done).reverse (gap'.reverse ++ done').reverse := by
  rw [List.reverse_append, List.reverse_append, List.reverse_reverse, List.reverse_reverse]
  exact h.concat_gap hg

/-- A block is taken, and what is behind its brace is left. -/
theorem Respaced.closeBraces (h : Respaced S b ts us)
    (hd : RespacedPiece S done.reverse done'.reverse) (depth : Nat) :
    Option.Rel (fun x y => RespacedPiece S x.1 y.1 ∧
        ∃ b', Respaced S (.punct .rBrace :: b') x.2 y.2)
      (closeBraces done depth ts) (closeBraces done' depth us) := by
  induction h generalizing done done' depth with
  | nil => exact .none
  | @token b t u ts us fits h more ih =>
    rw [Tokens.closeBraces, Tokens.closeBraces, S.kind_of_token h]
    split
    · exact ih (hd.push h) _
    · split
      · next hk =>
        split
        · exact .some ⟨hd.push h, b, eq_of_beq hk ▸ more⟩
        · exact ih (hd.push h) _
      · exact ih (hd.push h) _
  | gap h more ih =>
    rw [closeBraces_passed fun t ht => .of_trivia (h.trivia t ht), closeBraces_passed h.passed]
    exact ih (hd.push_gap h) _

theorem Respaced.block? (h : Respaced S b ts us) :
    Option.Rel (fun x y => RespacedPiece S x.1 y.1 ∧
        ∃ b', Respaced S (.punct .rBrace :: b') x.2 y.2) (block? ts) (block? us) := by
  unfold Tokens.block?
  exact h.closeBraces .nil 0

/-! ## Angle brackets -/

theorem closeAngles_passed {gap : List Token} (h : ∀ t ∈ gap, t.kind.IsPassed)
    (done : List Token) (depth parens : Nat) (ts : List Token) :
    closeAngles done depth parens (gap ++ ts)
      = closeAngles (gap.reverse ++ done) depth parens ts := by
  refine read_gap_onto (f := fun done (p : Nat × Nat) => closeAngles done p.1 p.2)
    (fun done p t ts ht => ?_) h done (depth, parens) ts
  rw [closeAngles]
  rcases ht.cases with hk | hk | hk <;> simp [hk]

/-- What is taken with angle brackets, and what is left. -/
structure RespacedList (S : Respacing) (x y : List Token × List Token) : Prop where
  piece : RespacedPiece S x.1 y.1
  rest : RespacedCalmly S x.2 y.2
  params : S.params (Construct.Template.params (Token.textOf x.1))
    (Construct.Template.params (Token.textOf y.1))

/-- A list that ends with its last angle bracket. -/
theorem RespacedList.of_close (hd : RespacedPiece S done.reverse done'.reverse)
    (hf : S.fits (done'.reverse ++ u :: us)) (h : S.token t u) (hk : t.kind.leadsOn = true)
    (hc : t.kind.isComment = false) (hp : S.IsPlain b) (more : Respaced S (t.kind :: b) ts us) :
    RespacedList S ((t :: done).reverse, ts) ((u :: done').reverse, us) where
  piece := hd.push h
  rest := ⟨_, hp.cons hk, more⟩
  params := by
    have hsame := (hd.push h).same_textOf
    simp only [List.reverse_cons] at hsame ⊢
    exact S.params_of_list h hc hsame hf

/-- Angle brackets close behind as many tokens, the parentheses of the trail being among those
that are open. -/
theorem Respaced.closeAngles (h : Respaced S b ts us)
    (hd : RespacedPiece S done.reverse done'.reverse) (hf : S.fits (done'.reverse ++ us))
    (depth : Nat) {parens : Nat} (hp : b.parens ≤ parens ∨ S.IsStrict) :
    Option.Rel (RespacedList S) (closeAngles done depth parens ts)
      (closeAngles done' depth parens us) := by
  induction h generalizing done done' depth parens with
  | nil => exact .none
  | @token b t u ts us fits h more ih =>
    have hfits : S.fits ((u :: done').reverse ++ us) := by
      rwa [List.reverse_cons, List.append_assoc, List.singleton_append]
    have hnext : ∀ {depth n : Nat}, Trail.parens (t.kind :: b) ≤ n ∨ S.IsStrict →
        Option.Rel (RespacedList S) (Tokens.closeAngles (t :: done) depth n ts)
          (Tokens.closeAngles (u :: done') depth n us) := fun hn => ih (hd.push h) hfits _ hn
    have hsame : t.kind ≠ .punct .lParen → Trail.parens (t.kind :: b) ≤ parens ∨ S.IsStrict :=
      fun hk => hp.imp_left fun hle => Nat.le_trans (Trail.parens_cons_le b hk) hle
    rw [Tokens.closeAngles, Tokens.closeAngles, S.kind_of_token h]
    split
    · exact .none
    · exact .none
    · exact .none
    · next hk => exact hnext (hp.imp_left fun hle => by rw [hk]; exact Nat.succ_le_succ hle)
    · next hk =>
      exact hnext (hp.imp_left fun hle => by rw [hk]; exact Nat.sub_le_sub_right hle 1)
    · next hk => exact hnext (hsame (by simp [hk]))
    · next hk =>
      split
      · next hzero =>
        split
        · exact .some (.of_close hd hf h (by rw [hk]; rfl) (by rw [hk]; rfl)
            (hp.imp_left fun hle => by omega) more)
        · exact hnext (hsame (by simp [hk]))
      · exact hnext (hsame (by simp [hk]))
    · next hk =>
      split
      · next hzero =>
        split
        · exact .some (.of_close hd hf h (by rw [hk]; rfl) (by rw [hk]; rfl)
            (hp.imp_left fun hle => by omega) more)
        · exact hnext (hsame (by simp [hk]))
      · exact hnext (hsame (by simp [hk]))
    · next hk _ _ _ _ => exact hnext (hsame hk)
  | gap h more ih =>
    rw [closeAngles_passed fun t ht => .of_trivia (h.trivia t ht), closeAngles_passed h.passed]
    refine ih (hd.push_gap h) ?_ _ hp
    rwa [List.reverse_append, List.reverse_reverse, List.append_assoc]

/-- A list in angle brackets is taken, and what is left is at a calm place. -/
theorem Respaced.angles? (h : Respaced S b ts us) (hf : S.fits us) (hp : S.IsPlain b) :
    Option.Rel (RespacedList S) (angles? ts) (angles? us) := by
  have hfits : S.fits (([] : List Token).reverse ++ us) := hf
  unfold Tokens.angles?
  exact h.closeAngles .nil hfits 0 (hp.imp_left Nat.le_of_eq)

/-! ## Attributes -/

theorem afterSquares_passed {gap : List Token} (h : ∀ t ∈ gap, t.kind.IsPassed) (depth : Nat)
    (ts : List Token) : afterSquares depth (gap ++ ts) = afterSquares depth ts := by
  refine read_gap (fun depth t ts ht => ?_) h depth ts
  rw [afterSquares]
  rcases ht.cases with hk | hk | hk <;> simp [hk]

theorem Respaced.afterSquares (h : Respaced S b ts us) (depth : Nat) :
    RespacedCalmly S (afterSquares depth ts) (afterSquares depth us) := by
  induction h generalizing depth with
  | nil => exact .nil
  | @token b t u ts us fits h more ih =>
    rw [Tokens.afterSquares, Tokens.afterSquares, S.kind_of_token h]
    split
    · exact ih _
    · split
      · next hk =>
        split
        · have hcalm : S.IsCalm (.punct .rBracket :: b) := Respacing.isCalm_of_parens rfl rfl
          exact ⟨_, hcalm, eq_of_beq hk ▸ more⟩
        · exact ih _
      · exact ih _
  | gap h more ih =>
    rw [afterSquares_passed fun t ht => .of_trivia (h.trivia t ht), afterSquares_passed h.passed]
    exact ih _

theorem not_isPassed_punct (p : Punct) : ¬(Kind.punct p).IsPassed := by
  rintro (h | h) <;> cases h

theorem not_isPassed_keyword (w : Keyword) : ¬(Kind.keyword w).IsPassed := by
  rintro (h | h) <;> cases h

theorem not_isPassed_ident : ¬Kind.ident.IsPassed := by
  rintro (h | h) <;> cases h

theorem not_isPassed_string : ¬Kind.string.IsPassed := by
  rintro (h | h) <;> cases h

theorem Respaced.afterAttribute? (h : Respaced S b ts us) :
    Option.Rel (RespacedCalmly S) (afterAttribute? ts) (afterAttribute? us) := by
  unfold Tokens.afterAttribute?
  rw [h.headKinds_beq (not_isPassed_punct _) (not_isPassed_punct _)]
  split
  · exact .some (h.afterSquares 0)
  · exact .none

theorem RespacedCalmly.nextKind (h : RespacedCalmly S ts us) : nextKind us = nextKind ts := by
  obtain ⟨b, hb, h⟩ := h
  exact h.nextKind (hb.tight _)

/-- Respaced tokens at a calm place, from tokens on that are no trivia. -/
def RespacedFrontCalmly (S : Respacing) (ts us : List Token) : Prop :=
  ∃ b, S.IsCalm b ∧ RespacedFront S b ts us

theorem RespacedFrontCalmly.calmly (h : RespacedFrontCalmly S ts us) : RespacedCalmly S ts us := by
  obtain ⟨b, hb, h⟩ := h
  exact ⟨b, hb, h.respaced⟩

theorem RespacedCalmly.front (h : RespacedCalmly S ts us) :
    RespacedFrontCalmly S (Tokens.skipTrivia ts) (Tokens.skipTrivia us) := by
  obtain ⟨b, hb, h⟩ := h
  exact ⟨b, hb, h.front (hb.tight _)⟩

theorem RespacedFrontCalmly.skipAttributes (h : RespacedFrontCalmly S ts us) :
    RespacedFrontCalmly S (skipAttributes ts) (skipAttributes us) := by
  obtain ⟨b, hb, h⟩ := h
  fun_induction Tokens.skipAttributes ts generalizing b us with
  | case1 ts rest ha ih =>
    obtain ⟨rest', hu, hrest⟩ := exists_of_rel_some (ha ▸ h.respaced.afterAttribute?)
    obtain ⟨b', hb', hfront⟩ := hrest.front
    rw [skipAttributes_of_some hu]
    exact ih b' hb' hfront
  | case2 ts ha =>
    rw [skipAttributes_of_none (eq_none_of_rel_none (ha ▸ h.respaced.afterAttribute?))]
    exact ⟨b, hb, h⟩

/-- Comments behind a parameter list are passed over in both lists. -/
theorem RespacedCalmly.skipGap (h : RespacedCalmly S ts us) :
    RespacedCalmly S (skipGap ts) (skipGap us) := by
  obtain ⟨b, hb, h⟩ := h
  induction h with
  | nil => exact .nil
  | @token b t u ts us fits h more ih =>
    rw [Tokens.skipGap, Tokens.skipGap]
    cases hc : t.kind.isComment with
    | true =>
      rw [List.dropWhile_cons_of_pos (by simp [hc]),
        List.dropWhile_cons_of_pos (by simp [S.kind_of_token h, hc])]
      have hstrict : S.IsStrict := S.not_loose_of_comment h hc
      exact ih (hstrict.isCalm _)
    | false =>
      rw [List.dropWhile_cons_of_neg (by simp [hc, S.not_trivia h]),
        List.dropWhile_cons_of_neg (by simp [S.kind_of_token h, hc, S.not_trivia h])]
      exact ⟨b, hb, .token fits h more⟩
  | gap h more ih =>
    have hpassed : ∀ {gap : List Token}, (∀ t ∈ gap, t.kind.IsPassed) → ∀ ts,
        Tokens.skipGap (gap ++ ts) = Tokens.skipGap ts := by
      refine fun hgap ts => List.dropWhile_append_of_pos fun t ht => ?_
      rcases (hgap t ht).cases with hk | hk | hk <;> simp [hk, Kind.isTrivia, Kind.isComment]
    rw [hpassed fun t ht => .of_trivia (h.trivia t ht), hpassed h.passed]
    exact ih hb

/-! ## Clauses -/

theorem upTo_skipTrivia {kinds : List Kind} (hk : ∀ k ∈ kinds, ¬k.IsPassed) (ts : List Token) :
    (upTo kinds (skipTrivia ts)).2 = (upTo kinds ts).2 := by
  conv => rhs; rw [← trivia_append ts]
  rw [Respaced.upTo_append_passed hk fun t ht =>
    .of_trivia (List.all_eq_true.mp List.all_takeWhile t ht)]

/-- A clause and what follows it, or what stands where it should end. -/
theorem Respaced.clause (h : Respaced S b ts us) :
    ExceptRel (fun r r' => ∃ b', Respaced S b' r r')
      (fun x y => S.same x.1 y.1 ∧ (∃ b', Respaced S b' x.2 y.2) ∧
        (headKind x.2 = .punct .lBrace ∨ headKind x.2 = .punct .semicolon))
      (clause ts) (clause us) := by
  have hstops : ∀ k ∈ [Kind.punct .lBrace, .punct .semicolon, .punct .rBrace], ¬k.IsPassed := by
    intro k hk
    simp only [List.mem_cons, List.not_mem_nil, or_false] at hk
    rcases hk with rfl | rfl | rfl <;> exact not_isPassed_punct _
  obtain ⟨-, b', hrest⟩ := h.upTo hstops
  rw [← upTo_skipTrivia hstops, ← upTo_skipTrivia hstops us] at hrest
  have hsame : S.same
      (Token.textOf (Tokens.upTo [.punct .lBrace, .punct .semicolon, .punct .rBrace]
        (Tokens.skipTrivia ts)).1)
      (Token.textOf (Tokens.upTo [.punct .lBrace, .punct .semicolon, .punct .rBrace]
        (Tokens.skipTrivia us)).1) := by
    by_cases hl : S.loose b (Tokens.nextKind ts)
    · exact S.same_of_loose hl _ _
    · exact ((h.skipTrivia hl).upTo hstops).1.same_textOf
  unfold Tokens.clause
  dsimp only
  have hempty : ∀ {r r' : List Token}, Respaced S b' r r' → r'.isEmpty = r.isEmpty := by
    intro r r' hr
    cases hr with
    | nil => rfl
    | token => rfl
    | gap hg =>
      obtain ⟨_, _, hgap⟩ := List.exists_cons_of_ne_nil hg.ne_nil
      obtain ⟨_, _, hgap'⟩ := List.exists_cons_of_ne_nil hg.ne_nil'
      rw [hgap, hgap']
      rfl
  rw [hempty hrest, hrest.headKind_beq (not_isPassed_punct _)]
  split
  · exact .error ⟨b', hrest⟩
  · next hc =>
    refine .ok ⟨S.same_trim hsame, ⟨b', hrest⟩, ?_⟩
    generalize hr : (Tokens.upTo _ (Tokens.skipTrivia ts)).2 = rest at hc
    cases rest with
    | nil => simp at hc
    | cons t rest =>
      have hmem := kind_mem_of_upTo hr
      rw [show Tokens.headKind (t :: rest) = t.kind from rfl] at hc ⊢
      simpa [show t.kind ≠ .punct .rBrace from fun hk => by simp [hk] at hc] using hmem

end Tokens

namespace Construct

variable {S : Respacing} {b : Trail} {ts us : List Token}

/-! ## Names -/

theorem qualifiedName_of_not (name : Text) (last : Token)
    (h : (Tokens.headKind ts == .punct .colonColon && Tokens.headKind ts.tail == .ident) = false) :
    qualifiedName name last ts = ⟨name, last, ts⟩ := by
  unfold qualifiedName
  split
  · next c i rest => exact if_neg (by rw [show (c.kind == _ && i.kind == _) = false from h]; simp)
  · rfl

/-- A qualified name is the same, and what follows it is at a calm place. -/
theorem qualifiedName_respaced (hb : S.IsCalm b) (h : Tokens.Respaced S b ts us) (name : Text)
    (last last' : Token) :
    (qualifiedName name last' us).name = (qualifiedName name last ts).name ∧
      Tokens.RespacedCalmly S (qualifiedName name last ts).rest
        (qualifiedName name last' us).rest := by
  induction hn : ts.length using Nat.strongRecOn generalizing b ts us name last last' with
  | ind n ih =>
    subst hn
    have hheads := h.headKinds_beq (Tokens.not_isPassed_punct .colonColon)
      Tokens.not_isPassed_ident
    cases hc : Tokens.headKind ts == .punct .colonColon && Tokens.headKind ts.tail == .ident with
    | false =>
      rw [qualifiedName_of_not name last hc, qualifiedName_of_not name last' (hheads.trans hc)]
      exact ⟨rfl, b, hb, h⟩
    | true =>
      obtain ⟨hcolons, hident⟩ := Bool.and_eq_true_iff.mp hc
      match ts with
      | [] => cases hcolons
      | [c] => cases hident
      | c :: i :: rest =>
        have hck : c.kind = .punct .colonColon := eq_of_beq hcolons
        have hik : i.kind = .ident := eq_of_beq hident
        obtain ⟨c', us, rfl, -, hct, hmore⟩ := h.uncons (by rw [hck]; rfl)
        obtain ⟨i', us, rfl, -, hit, hmore⟩ := hmore.uncons (by rw [hik]; rfl)
        have hlen : rest.length < (c :: i :: rest).length := by simp only [List.length_cons]; omega
        have hcalm : S.IsCalm (i.kind :: c.kind :: b) := by
          rw [hck, hik]
          exact (hb.cons rfl).cons rfl
        rw [qualifiedName, qualifiedName, S.kind_of_token hct, S.kind_of_token hit,
          S.text_of_token hct (by rw [hck]; rfl), S.text_of_token hit (by rw [hik]; rfl), hck, hik]
        exact ih _ hlen hcalm hmore _ _ _ rfl

end Construct
end HeaderOutline
