import Mathlib.Data.List.Forall2
import HeaderOutline.Construct.Reading
import HeaderOutline.Proofs.Respaced.Namespace

/-! # Respaced constructs

A construct that starts at a plain place is the same for respaced tokens
(`Construct.read_respaced`).  That directives and comments are read alike, and that line ends
behind the names of macros are kept, is left to the respacing.
-/
namespace HeaderOutline

open Tokens

variable {S : Respacing} {b : Trail} {k : Kind} {t u : Token} {ts us : List Token}

/-! ## Templates -/

namespace Construct.Template

/-- Texts that count as the same one by one, none of them empty. -/
abbrev RespacedTexts (S : Respacing) : List Text → List Text → Prop :=
  List.Forall₂ fun s s' => S.same s s' ∧ s ≠ [] ∧ s' ≠ []

theorem joinWith_respaced {texts texts' : List Text} (h : RespacedTexts S texts texts') :
    S.same (Text.joinWith [' '] texts) (Text.joinWith [' '] texts') ∧
      (Text.joinWith [' '] texts').isEmpty = (Text.joinWith [' '] texts).isEmpty := by
  induction h with
  | nil => exact ⟨S.same_refl _, rfl⟩
  | @cons s s' texts texts' hs h ih =>
    obtain ⟨hsame, hne, hne'⟩ := hs
    obtain ⟨c, s, rfl⟩ := List.exists_cons_of_ne_nil hne
    obtain ⟨c', s', rfl⟩ := List.exists_cons_of_ne_nil hne'
    cases h with
    | nil =>
      have hsingle : ∀ s : Text, Text.joinWith [' '] [s] = s := fun s => by simp [Text.joinWith]
      rw [hsingle, hsingle]
      exact ⟨hsame, rfl⟩
    | @cons s₁ s₁' texts texts' =>
      have hne := List.cons_ne_nil s₁ texts
      have hne' := List.cons_ne_nil s₁' texts'
      rw [Text.joinWith_cons _ _ hne, Text.joinWith_cons _ _ hne']
      exact ⟨S.same_append (S.same_append hsame (S.same_refl _)) ih.1, rfl⟩

/-- Parameter lists that count as the same, with the same declaration behind them. -/
structure Clauses.Respaced (S : Respacing) (c c' : Clauses) : Prop where
  texts : RespacedTexts S c.texts c'.texts
  params : S.params c.params c'.params
  rest : ∃ b, S.IsPlain b ∧ RespacedFront S b c.rest c'.rest

theorem clauses_cons (texts parameters : List Text) (t : Token) (ts : List Token) :
    clauses texts parameters (t :: ts) =
      if t.kind == .keyword .templateKw then
        if headKind (skipTrivia ts) != .punct .lt then
          .error (.failed ⟨.templateWithoutList t, (skipTrivia ts).head?⟩ false (skipTrivia ts))
        else match angles? (skipTrivia ts) with
          | none =>
            .error (.failed ⟨.unclosedTemplateList, (skipTrivia ts).head?⟩ false (skipTrivia ts))
          | some (taken, after) =>
            clauses (texts ++ ["template ".toList ++ Token.textOf taken])
              (parameters ++ params (Token.textOf taken)) (skipGap after)
      else .ok ⟨texts, parameters, t :: ts⟩ := by
  rw [clauses]
  repeat' split
  all_goals simp_all

theorem skipTrivia_skipGap (ts : List Token) : skipTrivia (skipGap ts) = skipGap ts := by
  cases hs : skipGap ts with
  | nil => rfl
  | cons t rest =>
    have hstop := List.head?_dropWhile_not (fun t : Token => t.kind.isTrivia || t.kind.isComment) ts
    rw [show ts.dropWhile _ = _ from hs] at hstop
    exact skipTrivia_of_not (by simp_all)

theorem clauses_respaced (hb : S.IsPlain b) (h : RespacedFront S b ts us)
    {texts texts' parameters parameters' : List Text} (ht : RespacedTexts S texts texts')
    (hp : S.params parameters parameters') :
    ExceptRel (Outcome.Respaced S) (Clauses.Respaced S) (clauses texts parameters ts)
      (clauses texts' parameters' us) := by
  induction hn : ts.length using Nat.strongRecOn
    generalizing b ts us texts texts' parameters parameters' with
  | ind n ih =>
    subst hn
    have hfront := h
    cases h with
    | nil =>
      rw [clauses, clauses]
      exact .ok ⟨ht, hp, b, hb, .nil⟩
    | @cons t u ts us fits htoken more =>
      rw [clauses_cons, clauses_cons, S.kind_of_token htoken]
      split
      · next hk =>
        have hcalm : RespacedCalmly S ts us := ⟨_, hb.cons (by rw [eq_of_beq hk]; rfl), more⟩
        have hlist := hcalm.front
        obtain ⟨b', hb', hlist'⟩ := hlist
        rw [hlist'.headKind]
        split
        · exact .error (.failed rfl (hlist'.next hb'.plain).exists_behind)
        · have hrel : Option.Rel (RespacedList S) (angles? (skipTrivia ts))
              (angles? (skipTrivia us)) := by
            cases hts : skipTrivia ts with
            | nil =>
              rw [hts] at hlist'
              rw [hlist'.eq_nil]
              exact .none
            | cons s rest =>
              rw [hts] at hlist'
              obtain ⟨s', rest', hus, hfits, -, -⟩ := hlist'.uncons
              rw [hus] at hlist' ⊢
              exact hlist'.respaced.angles? (hus ▸ hfits) hb'.plain
          cases ha : angles? (skipTrivia ts) with
          | none =>
            have hu := eq_none_of_rel_none (ha ▸ hrel)
            rw [hu]
            exact .error (.failed rfl (hlist'.next hb'.plain).exists_behind)
          | some x =>
            obtain ⟨y, hu, hx⟩ := exists_of_rel_some (ha ▸ hrel)
            rw [hu]
            obtain ⟨b'', hb'', hrest⟩ := hx.rest.skipGap.front
            rw [skipTrivia_skipGap, skipTrivia_skipGap] at hrest
            refine ih _ ?_ hb''.plain hrest ?_ (S.params_append hp hx.params) rfl
            · exact Nat.lt_succ_of_le (((skipGap_suffix x.2).trans (angles?_suffix ha)).trans
                (skipTrivia_suffix ts)).length_le
            · exact List.rel_append ht (.cons ⟨S.same_append (S.same_refl _) hx.piece.same_textOf,
                List.cons_ne_nil _ _, List.cons_ne_nil _ _⟩ .nil)
      · exact .ok ⟨ht, hp, b, hb, hfront⟩

/-- Respaced tokens are read as the same declaration behind its parameter lists. -/
theorem readDeclaration_respaced (ds : Definitions) {lead lead' : Lead}
    (hl : lead.Respaced S lead') (he : lead'.text.isEmpty = lead.text.isEmpty)
    (hb : S.IsPlain b) (h : RespacedFront S b ts us) :
    Outcome.Respaced S (readDeclaration ds lead ts) (readDeclaration ds lead' us) := by
  have hnext := h.next hb
  have hrespaced := h.respaced
  unfold readDeclaration
  cases h with
  | nil => exact .unexpected _ _ RespacedNext.nil.exists_behind
  | @cons t u ts us fits ht more =>
    dsimp only
    rw [Declaration.isFunction_respaced hnext, S.kind_of_token ht]
    split
    · next hk =>
      refine Class.read_respaced ds hl he hb fits ht ?_ more
      simp only [Bool.or_eq_true, beq_iff_eq] at hk
      rcases hk with (hk | hk) | hk <;> rw [hk] <;> rfl
    · split
      · next hk =>
        exact Using.read_respaced hl ht (hb.cons (by rw [eq_of_beq hk]; rfl)) more
      · split
        · exact Function.read_respaced ds hl hrespaced
        · split
          · exact Variable.read_respaced ds hl hrespaced
          · exact .unexpected _ _ hnext.exists_behind

/-- Respaced tokens are read as the same template. -/
theorem read_respaced (ds : Definitions) (hb : S.IsPlain b) (fits : S.fits (u :: us))
    (ht : S.token t u) (more : Respaced S (t.kind :: b) ts us) :
    Outcome.Respaced S (read ds t ts) (read ds u us) := by
  have hclauses := clauses_respaced hb (.cons fits ht more) .nil S.params_nil
  unfold read
  generalize clauses [] [] (t :: ts) = r, clauses [] [] (u :: us) = r' at hclauses ⊢
  cases hclauses with
  | error ho => exact ho
  | ok hc =>
    obtain ⟨b', hb', hrest⟩ := hc.rest
    obtain ⟨hsame, hempty⟩ := joinWith_respaced hc.texts
    exact readDeclaration_respaced ds
      (Lead.respaced_of_text hempty hsame (S.template_some hc.params)) hempty hb' hrest

end Construct.Template

/-! ## Constructs -/

/-- A respacing under which directives and comments are read alike. -/
structure Respacing.Reads (S : Respacing) (merge : Bool) : Prop where
  directive {b : Trail} {t u : Token} {ts us : List Token} (hb : S.IsPlain b)
    (fits : S.fits (u :: us)) (ht : S.token t u) (hk : t.kind = .punct .hash)
    (more : Respaced S (t.kind :: b) ts us) :
    Outcome.Respaced S (Construct.Directive.read t ts) (Construct.Directive.read u us)
  comment {b : Trail} {t u : Token} {ts us : List Token} (hb : S.IsPlain b)
    (fits : S.fits (u :: us)) (ht : S.token t u) (hk : t.kind.isComment = true)
    (more : Respaced S (t.kind :: b) ts us) :
    Outcome.Respaced S (Construct.Comment.read merge t ts) (Construct.Comment.read merge u us)

/-- No macro is known, or line ends are kept behind all names. -/
def Respacing.Heeds (S : Respacing) (ds : Definitions) : Prop :=
  (∀ name, ds.contains name = false) ∨ ∀ b k, S.firm b k

namespace Construct

/-- Behind the keyword of an access level stands a colon in both lists, or in none. -/
theorem readAccess_respaced (level : Access) (hb : S.IsCalm (k :: b))
    (hk : k ∈ [.keyword .publicKw, .keyword .protectedKw, .keyword .privateKw])
    (more : Respaced S (k :: b) ts us) :
    Outcome.Respaced S (readAccess t level ts) (readAccess u level us) := by
  have hfirm : S.firm (k :: b) (.punct .colon) := by
    refine S.firm_of_keepsLines ?_
    simp only [List.mem_cons, List.not_mem_nil, or_false] at hk
    rcases hk with rfl | rfl | rfl <;> simp [Trail.keepsLines]
  have hnext := more.nextKind (hb.tight _)
  have hcolon := more.headKind_skipSpace_beq (not_isPassed_punct .colon) (hb.tight _) hfirm
    fun hne => hnext ▸ hne
  unfold readAccess
  dsimp only
  by_cases hs : headKind (skipSpace ts) = .punct .colon
  · have hn := nextKind_of_headKind_skipSpace rfl hs
    rcases more.skipSpace_cases (hb.tight _) (hn ▸ hfirm) with ⟨ht, -⟩ | ⟨ht, hu⟩
    · rw [hs] at ht
      cases ht
    · have hfront := more.front (hb.tight _)
      rw [← ht, ← hu] at hfront
      generalize skipSpace ts = vs, skipSpace us = ws at hfront hs ⊢
      cases hfront with
      | nil => cases hs
      | @cons c c' behind behind' _ hc hmore =>
        have hck : c.kind = .punct .colon := hs
        rw [eat?_of_kind hck, eat?_of_kind ((S.kind_of_token hc).trans hck)]
        exact .read (.access level (Draft.respaced_simple (S.same_refl _)))
          (hmore.on (hb.plain.cons_of_ne (by rw [hck]; decide)))
  · rw [beq_false_of_ne hs] at hcolon
    rw [eat?_of_headKind hs, eat?_of_headKind (ne_of_beq_false hcolon)]
    exact .unexpected _ _ ⟨k :: b, ts, us, skipTrivia_skipSpace ts, skipTrivia_skipSpace us, more⟩

theorem readClose_respaced (more : Respaced S (.punct .rBrace :: b) ts us) :
    Outcome.Respaced S (readClose t ts) (readClose u us) := by
  have heat := more.eat? (not_isPassed_punct .semicolon)
  unfold readClose
  cases ho : Tokens.eat? (.punct .semicolon) ts with
  | none =>
    have hu := eq_none_of_rel_none (ho ▸ heat)
    rw [hu]
    exact .read (.close t u) (respacedOn_of_end more (.inr (.inr rfl)))
  | some behind =>
    obtain ⟨behind', hu, hbehind⟩ := exists_of_rel_some (ho ▸ heat)
    rw [hu]
    exact .read (.close t u) (respacedOn_of_end hbehind (.inl rfl))

/-- The keywords of classes and enums. -/
def exportedHeads : List Kind :=
  [.keyword .classKw, .keyword .structKw, .keyword .unionKw, .keyword .enumKw]

theorem exportedHead?_eq (ts : List Token) :
    exportedHead? ts =
      match skipSpace ts with
      | t :: behind => if exportedHeads.contains t.kind then some (t, behind) else none
      | [] => none := by
  unfold exportedHead?
  cases skipSpace ts with
  | nil => rfl
  | cons t behind => simp [exportedHeads, or_assoc]

/-- A class or an enum behind a macro stands on the same line in both lists, or in none. -/
theorem exportedHead?_respaced (hb : S.IsCalm b) (hf : ∀ b k, S.firm b k)
    (h : Respaced S b ts us) :
    Option.Rel (fun x y => ∃ b, S.IsCalm b ∧ S.fits (y.1 :: y.2) ∧ S.token x.1 y.1 ∧
        x.1.kind ∈ exportedHeads ∧ Respaced S (x.1.kind :: b) x.2 y.2)
      (exportedHead? ts) (exportedHead? us) := by
  have hnone : ∀ {vs : List Token}, headKind (skipSpace vs) = .newline →
      exportedHead? vs = none := by
    intro vs hv
    rw [exportedHead?_eq]
    split
    · next v _ hs =>
      rw [hs] at hv
      rw [show v.kind = _ from hv]
      rfl
    · rfl
  rcases h.skipSpace_cases (hb.tight _) (hf _ _) with ⟨ht, hu⟩ | ⟨ht, hu⟩
  · rw [hnone ht, hnone hu]
    exact .none
  · have hfront := h.front (hb.tight _)
    rw [exportedHead?_eq, exportedHead?_eq, ht, hu]
    generalize skipTrivia ts = vs, skipTrivia us = ws at hfront ⊢
    cases hfront with
    | nil => exact .none
    | cons fits hk more =>
      dsimp only
      rw [S.kind_of_token hk]
      split
      · next hmem => exact .some ⟨b, hb, fits, hk, List.contains_iff_mem.mp hmem, more⟩
      · exact .none

/-- Respaced tokens are read as the same construct from a word on. -/
theorem readWord_respaced {ds : Definitions} (hd : S.Heeds ds) (hb : S.IsPlain b)
    (fits : S.fits (u :: us)) (ht : S.token t u) (hk : t.kind = .ident)
    (more : Respaced S (t.kind :: b) ts us) :
    Outcome.Respaced S (readWord ds t ts) (readWord ds u us) := by
  have hdeclaration := Declaration.read_respaced ds (Lead.respaced_none t u) hb
    (.cons fits ht more)
  unfold readWord
  rw [S.text_of_token ht (by rw [hk]; rfl)]
  cases hc : ds.contains t.text with
  | false => exact hdeclaration
  | true =>
    have hf := hd.resolve_left fun hn => by rw [hn] at hc; cases hc
    have hhead := exportedHead?_respaced (hb.cons (by rw [hk]; rfl)) hf more
    rw [if_pos rfl, if_pos rfl]
    cases ho : exportedHead? ts with
    | none =>
      have hu := eq_none_of_rel_none (ho ▸ hhead)
      rw [hu]
      exact hdeclaration
    | some x =>
      obtain ⟨y, hu, b', hb', hfits, hx, hmem, hbehind⟩ := exists_of_rel_some (ho ▸ hhead)
      have hleads : x.1.kind.leadsOn = true := by
        simp only [exportedHeads, List.mem_cons, List.not_mem_nil, or_false] at hmem
        rcases hmem with hk | hk | hk | hk <;> rw [hk] <;> rfl
      have hlead : Lead.Respaced S ⟨t, (ds.resolve t.text).trim, none⟩
          ⟨u, (ds.resolve t.text).trim, none⟩ :=
        Lead.respaced_of_text rfl (S.same_refl _) S.template_none
      rw [hu]
      dsimp only
      rw [S.kind_of_token hx]
      split
      · exact Enum.read_respaced ds hlead rfl hb'.plain hfits hx hleads hbehind
      · exact Class.read_respaced ds hlead rfl hb'.plain hfits hx hleads hbehind

/-- Respaced tokens at a plain place are read as the same construct. -/
theorem read_respaced {ds : Definitions} {merge : Bool} (hr : S.Reads merge) (hd : S.Heeds ds)
    (hb : S.IsPlain b) (fits : S.fits (u :: us)) (ht : S.token t u)
    (more : Respaced S (t.kind :: b) ts us) :
    Outcome.Respaced S (read ds merge t ts) (read ds merge u us) := by
  have hdeclaration := Declaration.read_respaced ds (Lead.respaced_none t u) hb
    (.cons fits ht more)
  have hcalm : t.kind.leadsOn = true → S.IsCalm (t.kind :: b) := hb.cons
  have hclass : t.kind.leadsOn = true →
      Outcome.Respaced S (Class.read ds (.none t) t ts) (Class.read ds (.none u) u us) :=
    fun hk => Class.read_respaced ds (Lead.respaced_none t u) rfl hb fits ht hk more
  unfold read
  rw [S.kind_of_token ht]
  split
  · next hk => exact hr.directive hb fits ht hk more
  · next hk => exact hr.comment hb fits ht (by rw [hk]; rfl) more
  · next hk => exact hr.comment hb fits ht (by rw [hk]; rfl) more
  · next hk => exact hr.comment hb fits ht (by rw [hk]; rfl) more
  · exact Template.read_respaced ds hb fits ht more
  · next hk =>
    have hinline : t.kind ≠ .keyword .inlineKw := by
      rw [hk]
      decide
    exact Namespace.read_respaced hb fits ht (by rw [hk]; rfl) more fun hi => absurd hi hinline
  · next hk =>
    have hleads : t.kind.leadsOn = true := by rw [hk]; rfl
    rw [RespacedCalmly.nextKind ⟨_, hcalm hleads, more⟩]
    split
    · next hn => exact Namespace.read_respaced hb fits ht hleads more fun _ => eq_of_beq hn
    · exact hdeclaration
  · next hk => exact hclass (by rw [hk]; rfl)
  · next hk => exact hclass (by rw [hk]; rfl)
  · next hk => exact hclass (by rw [hk]; rfl)
  · next hk =>
    exact Enum.read_respaced ds (Lead.respaced_none t u) rfl hb fits ht (by rw [hk]; rfl) more
  · exact Typedef.read_respaced ht more
  · next hk =>
    exact Using.read_respaced (Lead.respaced_none t u) ht (hcalm (by rw [hk]; rfl)) more
  · next hk => exact readAccess_respaced _ (hcalm (by rw [hk]; rfl)) (by simp [hk]) more
  · next hk => exact readAccess_respaced _ (hcalm (by rw [hk]; rfl)) (by simp [hk]) more
  · next hk => exact readAccess_respaced _ (hcalm (by rw [hk]; rfl)) (by simp [hk]) more
  · next hk => exact readClose_respaced (hk ▸ more)
  · next hk => exact .read .nothing (respacedOn_of_end more (.inl hk))
  · next hk =>
    have hlinkage := Namespace.afterLinkage?_respaced ⟨_, hcalm (by rw [hk]; rfl), more⟩
    cases ho : Namespace.afterLinkage? ts with
    | none =>
      have hu := eq_none_of_rel_none (ho ▸ hlinkage)
      rw [hu]
      exact hdeclaration
    | some members =>
      obtain ⟨members', hu, hmembers⟩ := exists_of_rel_some (ho ▸ hlinkage)
      rw [hu]
      exact .read .linkage hmembers
  · next hk => exact readWord_respaced hd hb fits ht hk more
  · exact hdeclaration

end Construct

end HeaderOutline
