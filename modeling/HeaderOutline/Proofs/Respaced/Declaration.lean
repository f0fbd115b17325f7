import HeaderOutline.Construct.Alias
import HeaderOutline.Proofs.Respaced.Outcome

/-! # Respaced declarations

Functions, variables and aliases are read token by token.  No gap changes what is known of
them so far, so that respaced tokens are read alike up to the same end.
-/
namespace HeaderOutline.Construct

open Tokens

variable {S : Respacing} {b : Trail} {k : Kind} {t u : Token} {ts us done done' : List Token}

/-- A declaration ends with a token behind which constructs start. -/
theorem respacedOn_of_end (h : Respaced S (k :: b) ts us)
    (hk : k = .punct .semicolon ∨ k = .punct .lBrace ∨ k = .punct .rBrace) :
    RespacedOn S ts us := by
  refine h.on (.inl ?_)
  rcases hk with rfl | rfl | rfl <;> rfl

/-! ## Variables -/

namespace Variable

/-- A gap does not count. -/
theorem extent_gap {gap : List Token} (h : ∀ t ∈ gap, t.kind.IsPassed) (done : List Token)
    (p : Progress) (ts : List Token) :
    extent done p (gap ++ ts) = extent (gap.reverse ++ done) p ts := by
  refine read_gap_onto (fun done p t ts ht => ?_) h done p ts
  rw [extent]
  rcases ht.cases with hk | hk | hk <;>
    simp [hk, Progress.refuses, Progress.endsWith, Progress.read, Context.stops,
      Context.constructStarts]

theorem Progress.read_respaced (p : Progress) (h : S.token t u) : p.read u = p.read t :=
  p.read_congr (S.kind_of_token h) (S.text_of_ident h)

theorem Progress.endsWith_respaced (p : Progress) (h : Respaced S (k :: b) ts us) :
    p.endsWith k us = p.endsWith k ts := by
  unfold Progress.endsWith
  by_cases hk : k = .punct .rBrace
  · subst hk
    have hnext : ∀ k', Trail.asksFor (.punct .rBrace :: b) k' = true → k'.isComment = false →
        (nextKind us == k') = (nextKind ts == k') := fun k' ha hc =>
      h.nextKind_beq hc (Trail.not_admitsComment_of_asksFor ha)
    unfold continuesAfterBlock
    dsimp only
    rw [hnext (.punct .semicolon) rfl rfl, hnext (.punct .comma) rfl rfl,
      hnext (.punct .eq) rfl rfl]
  · rw [beq_false_of_ne hk, Bool.and_false, Bool.false_and, Bool.false_and]

/-- Declarations that end alike. -/
inductive Extent.Respaced (S : Respacing) : Extent → Extent → Prop
  | closed {p : Progress} {taken taken' rest rest' : List Token}
    (piece : RespacedPiece S taken taken')
    (last : ∀ x y, (taken'.getLastD y).kind = (taken.getLastD x).kind)
    (more : RespacedOn S rest rest') : Respaced S (.closed p taken rest) (.closed p taken' rest')
  | broken {b : Trail} {rest rest' : List Token} (more : Tokens.Respaced S b rest rest') :
    Respaced S (.broken rest) (.broken rest')

theorem getLastD_reverse_cons (t x : Token) (done : List Token) :
    (t :: done).reverse.getLastD x = t := by
  rw [List.reverse_cons, List.getLastD_concat]

theorem extent_respaced (h : Respaced S b ts us)
    (hd : RespacedPiece S done.reverse done'.reverse) (p : Progress) :
    Extent.Respaced S (extent done p ts) (extent done' p us) := by
  induction h generalizing done done' p with
  | @nil b => exact .broken (b := b) .nil
  | @token b t u ts us fits h more ih =>
    rw [extent, extent, S.kind_of_token h, p.read_respaced h, p.endsWith_respaced more]
    split
    · exact .broken (.token fits h more)
    · split
      · next he =>
        refine .closed (hd.push h) (fun x y => ?_) (respacedOn_of_end more ?_)
        · rw [getLastD_reverse_cons, getLastD_reverse_cons, S.kind_of_token h]
        · simp only [Progress.endsWith, Bool.or_eq_true, Bool.and_eq_true, beq_iff_eq] at he
          rcases he with he | he
          · exact .inl he.2
          · exact .inr (.inr he.1.2)
      · exact ih (hd.push h) _
  | gap h more ih =>
    rw [extent_gap fun t ht => .of_trivia (h.trivia t ht), extent_gap h.passed]
    exact ih (hd.push_gap h) p

/-- Respaced tokens are read as the same variable. -/
theorem read_respaced (ds : Definitions) {lead lead' : Lead} (hl : lead.Respaced S lead')
    (h : Respaced S b ts us) :
    Outcome.Respaced S (read ds lead ts) (read ds lead' us) := by
  have hextent : Extent.Respaced S (extent [] .start ts) (extent [] .start us) :=
    extent_respaced h .nil .start
  unfold read
  generalize extent [] .start ts = e, extent [] .start us = e' at hextent ⊢
  cases hextent with
  | @broken b _ _ more => exact .unexpected _ _ ⟨b, more.behind⟩
  | @closed p taken taken' rest rest' piece last more =>
    dsimp only
    cases p.name with
    | none =>
      dsimp only
      rw [last lead.first lead'.first]
      exact .failed rfl more.exists_behind
    | some name =>
      exact .entity (Draft.respaced_of_name rfl rfl
        (hl.onto (S.same_trimEnd (piece.same_substituted ds))) rfl hl.template .none) more

end Variable

/-! ## Type definitions -/

namespace Typedef

theorem holdsDeclarator_passed {gap : List Token} (h : ∀ t ∈ gap, t.kind.IsPassed) (depth : Nat)
    (ts : List Token) : holdsDeclarator depth (gap ++ ts) = holdsDeclarator depth ts := by
  refine read_gap (fun depth t ts ht => ?_) h depth ts
  rw [holdsDeclarator]
  rcases ht.cases with hk | hk | hk <;> simp [hk]

theorem holdsDeclarator_respaced (h : Respaced S b ts us) (depth : Nat) :
    holdsDeclarator depth us = holdsDeclarator depth ts := by
  induction h generalizing depth with
  | nil => rfl
  | @token b t u ts us _ h more ih =>
    rw [holdsDeclarator, holdsDeclarator, S.kind_of_token h]
    split
    · exact ih _
    · next hk =>
      have hnext : ∀ k', Trail.asksFor (.punct .rParen :: b) k' = true → k'.isComment = false →
          (nextKind us == k') = (nextKind ts == k') := fun k' ha hc =>
        (hk ▸ more).nextKind_beq hc (Trail.not_admitsComment_of_asksFor ha)
      rw [hnext (.punct .lParen) rfl rfl, hnext (.punct .lBracket) rfl rfl, ih]
    · rfl
    · rfl
    · rfl
    · exact ih _
  | gap h _ ih =>
    rw [holdsDeclarator_passed fun t ht => .of_trivia (h.trivia t ht),
      holdsDeclarator_passed h.passed, ih]

theorem Progress.read_respaced (p : Progress) (h : S.token t u)
    (more : Respaced S (t.kind :: b) ts us) : p.read u us = p.read t ts :=
  p.read_congr (S.kind_of_token h) (S.text_of_ident h) (holdsDeclarator_respaced more 1)

theorem extent_gap {gap : List Token} (h : ∀ t ∈ gap, t.kind.IsPassed) (done : List Token)
    (p : Progress) (ts : List Token) :
    extent done p (gap ++ ts) = extent (gap.reverse ++ done) p ts := by
  refine read_gap_onto (fun done p t ts ht => ?_) h done p ts
  rw [extent]
  rcases ht.cases with hk | hk | hk <;> simp [hk, Progress.read]

/-- Definitions that end alike. -/
inductive Extent.Respaced (S : Respacing) : Extent → Extent → Prop
  | closed {p : Progress} {taken taken' rest rest' : List Token} {last last' : Token}
    (piece : RespacedPiece S taken taken') (more : RespacedOn S rest rest') :
    Respaced S (.closed p taken last rest) (.closed p taken' last' rest')
  | broken {b : Trail} {rest rest' : List Token} (more : Tokens.Respaced S b rest rest') :
    Respaced S (.broken rest) (.broken rest')

theorem extent_respaced (h : Respaced S b ts us)
    (hd : RespacedPiece S done.reverse done'.reverse) (p : Progress) :
    Extent.Respaced S (extent done p ts) (extent done' p us) := by
  induction h generalizing done done' p with
  | @nil b => exact .broken (b := b) .nil
  | @token b t u ts us fits h more ih =>
    rw [extent, extent, S.kind_of_token h, p.read_respaced h more]
    split
    · next he =>
      refine .closed (hd.push h) (respacedOn_of_end more (.inl ?_))
      simp only [Bool.and_eq_true, beq_iff_eq] at he
      exact he.1.1
    · split
      · exact .broken (.token fits h more)
      · exact ih (hd.push h) _
  | gap h more ih =>
    rw [extent_gap fun t ht => .of_trivia (h.trivia t ht), extent_gap h.passed]
    exact ih (hd.push_gap h) p

/-- Respaced tokens are read as the same type definition. -/
theorem read_respaced {keyword keyword' : Token} (hk : S.token keyword keyword')
    (h : Respaced S b ts us) :
    Outcome.Respaced S (read keyword ts) (read keyword' us) := by
  have hpiece : RespacedPiece S [keyword].reverse [keyword'].reverse := .single hk
  have hextent := extent_respaced h hpiece .start
  unfold read
  generalize extent [keyword] .start ts = e, extent [keyword'] .start us = e' at hextent ⊢
  cases hextent with
  | @broken b _ _ more => exact .unexpected _ _ ⟨b, more.behind⟩
  | @closed p taken taken' rest rest' last last' piece more =>
    dsimp only
    cases p.declaratorName.or p.plainName with
    | none => exact .failed rfl more.exists_behind
    | some name => exact .entity (Draft.respaced_simple piece.same_textOf) more

end Typedef

/-! ## Using declarations -/

namespace Using

/-- Declarations that end alike. -/
inductive Extent.Respaced (S : Respacing) : Extent → Extent → Prop
  | closed {name : Text} {taken taken' rest rest' : List Token} {last last' : Token}
    (piece : RespacedPiece S taken taken') (more : RespacedOn S rest rest') :
    Respaced S (.closed name taken last rest) (.closed name taken' last' rest')
  | broken {b : Trail} {rest rest' : List Token} (more : Tokens.Respaced S b rest rest') :
    Respaced S (.broken rest) (.broken rest')

theorem directive_gap {gap : List Token} (h : ∀ t ∈ gap, t.kind.IsPassed) (done : List Token)
    (name : Text) (ts : List Token) :
    directive done name (gap ++ ts) = directive (gap.reverse ++ done) name ts := by
  refine read_gap_onto (fun done name t ts ht => ?_) h done name ts
  rw [directive]
  rcases ht.cases with hk | hk | hk <;> simp [hk, Kind.isTrivia, Kind.isComment]

theorem directive_respaced (h : Respaced S b ts us)
    (hd : RespacedPiece S done.reverse done'.reverse) (name : Text) :
    Extent.Respaced S (directive done name ts) (directive done' name us) := by
  induction h generalizing done done' name with
  | @nil b => exact .broken (b := b) .nil
  | @token b t u ts us fits h more ih =>
    rw [directive, directive, S.kind_of_token h]
    split
    · next hk => exact .closed (hd.push h) (respacedOn_of_end more (.inl hk))
    · exact .broken (.token fits h more)
    · exact .broken (.token fits h more)
    · cases hc : t.kind.isComment with
      | true =>
        rw [Bool.or_true, if_pos rfl, if_pos rfl]
        exact ih (hd.push h) _
      | false =>
        rw [S.text_of_token h hc]
        exact ih (hd.push h) _
  | gap h more ih =>
    rw [directive_gap fun t ht => .of_trivia (h.trivia t ht), directive_gap h.passed]
    exact ih (hd.push_gap h) name

theorem Progress.read_respaced (p : Progress) (h : S.token t u) : p.read u = p.read t :=
  p.read_congr (S.kind_of_token h) (S.text_of_ident h)

theorem declaration_gap {gap : List Token} (h : ∀ t ∈ gap, t.kind.IsPassed) (done : List Token)
    (p : Progress) (ts : List Token) :
    declaration done p (gap ++ ts) = declaration (gap.reverse ++ done) p ts := by
  refine read_gap_onto (fun done p t ts ht => ?_) h done p ts
  rw [declaration]
  rcases ht.cases with hk | hk | hk <;> simp [hk, Progress.read]

theorem declaration_respaced (h : Respaced S b ts us)
    (hd : RespacedPiece S done.reverse done'.reverse) (p : Progress) :
    Extent.Respaced S (declaration done p ts) (declaration done' p us) := by
  induction h generalizing done done' p with
  | @nil b => exact .broken (b := b) .nil
  | @token b t u ts us fits h more ih =>
    rw [declaration, declaration, S.kind_of_token h, p.read_respaced h]
    split
    · next he =>
      refine .closed (hd.push h) (respacedOn_of_end more (.inl ?_))
      simp only [Bool.and_eq_true, beq_iff_eq] at he
      exact he.1
    · split
      · exact .broken (.token fits h more)
      · exact ih (hd.push h) _
  | gap h more ih =>
    rw [declaration_gap fun t ht => .of_trivia (h.trivia t ht), declaration_gap h.passed]
    exact ih (hd.push_gap h) p

theorem extent_respaced {keyword keyword' : Token} (hk : S.token keyword keyword')
    (hb : S.IsCalm b) (h : Respaced S b ts us) :
    Extent.Respaced S (extent keyword ts) (extent keyword' us) := by
  have hfront := h.front (hb.tight _)
  have hdone : RespacedPiece S (keyword :: ts.takeWhile (·.kind.isTrivia)).reverse.reverse
      (keyword' :: us.takeWhile (·.kind.isTrivia)).reverse.reverse := by
    rw [List.reverse_reverse, List.reverse_reverse]
    exact .token hk (h.leading (hb.tight _))
  unfold extent
  dsimp only
  generalize skipTrivia ts = vs, skipTrivia us = ws at hfront ⊢
  cases hfront with
  | nil => exact .broken (b := b) .nil
  | @cons t u ts us fits ht more =>
    dsimp only
    rw [S.kind_of_token ht]
    split
    · exact directive_respaced more (hdone.push ht) _
    · exact declaration_respaced (.token fits ht more) hdone _

/-- Respaced tokens are read as the same using declaration. -/
theorem read_respaced {lead lead' : Lead} (hl : lead.Respaced S lead')
    {keyword keyword' : Token} (hk : S.token keyword keyword') (hb : S.IsCalm b)
    (h : Respaced S b ts us) :
    Outcome.Respaced S (read lead keyword ts) (read lead' keyword' us) := by
  have hextent := extent_respaced hk hb h
  unfold read
  generalize extent keyword ts = e, extent keyword' us = e' at hextent ⊢
  cases hextent with
  | @broken b _ _ more => exact .unexpected _ _ ⟨b, more.behind⟩
  | @closed name taken taken' rest rest' last last' piece more =>
    dsimp only
    split
    · exact .failed rfl more.exists_behind
    · exact .entity (Draft.respaced_of_name rfl rfl (hl.onto piece.same_textOf) rfl hl.template
        .none) more

end Using

end HeaderOutline.Construct
