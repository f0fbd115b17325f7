import HeaderOutline.Construct.Class
import HeaderOutline.Construct.Enum
import HeaderOutline.Proofs.Respaced.Function

/-! # Respaced heads of classes and enums

The parts of a head are read one after the other.  Each part is the same for respaced tokens,
and up to the end of the head what is left starts at a calm place.
-/
namespace HeaderOutline

namespace Tokens

variable {S : Respacing} {b : Trail} {t : Token} {ts us : List Token}

/-- What follows a head: tokens at a plain place, or a brace or a semicolon. -/
def RespacedEnd (S : Respacing) (ts us : List Token) : Prop :=
  ∃ b, RespacedFront S b ts us ∧
    (S.IsPlain b ∨ headKind ts = .punct .lBrace ∨ headKind ts = .punct .semicolon)

theorem RespacedFrontCalmly.ending (h : RespacedFrontCalmly S ts us) : RespacedEnd S ts us := by
  obtain ⟨b, hb, h⟩ := h
  exact ⟨b, h, .inl hb.plain⟩

theorem RespacedFrontCalmly.next (h : RespacedFrontCalmly S ts us) : RespacedNext S ts us := by
  obtain ⟨b, hb, h⟩ := h
  exact h.next hb.plain

theorem Respaced.front_of_headKind {k : Kind} (h : Respaced S b ts us) (hk : headKind ts = k)
    (ht : k.isTrivia = false) (he : k ≠ .eof) : RespacedFront S b ts us := by
  cases ts with
  | nil => exact absurd hk.symm he
  | cons t ts =>
    obtain rfl : t.kind = k := hk
    obtain ⟨u, us', rfl, fits, htoken, more⟩ := h.uncons ht
    exact .cons fits htoken more

/-- A clause and the brace or semicolon behind it. -/
theorem Respaced.clause_end (h : Respaced S b ts us) :
    ExceptRel (fun r r' => ∃ b', RespacedBehind S b' r r')
      (fun x y => S.same x.1 y.1 ∧ RespacedEnd S x.2 y.2) (Tokens.clause ts)
      (Tokens.clause us) := by
  have hclause := h.clause
  generalize Tokens.clause ts = c, Tokens.clause us = c' at hclause ⊢
  cases hclause with
  | error h =>
    obtain ⟨b', h⟩ := h
    exact .error ⟨b', h.behind⟩
  | ok h =>
    obtain ⟨hsame, ⟨b', hrest⟩, hk⟩ := h
    refine .ok ⟨hsame, b', ?_, .inr hk⟩
    rcases hk with hk | hk
    · exact hrest.front_of_headKind hk rfl nofun
    · exact hrest.front_of_headKind hk rfl nofun

end Tokens

namespace Construct

open Tokens

variable {S : Respacing} {b : Trail} {k : Kind} {t u : Token} {ts us : List Token}

/-! ## Classes and enums -/

/-- Heads that are the same so far, with related tokens behind them. -/
structure Head.Respaced (S : Respacing) (R : List Token → List Token → Prop) (h h' : Head) :
    Prop where
  signature : S.same h.signature h'.signature
  name : h'.name = h.name
  rest : R h.rest h'.rest

theorem Head.readClause_respaced (context : Context) {h h' : Head}
    (hh : Head.Respaced S (RespacedFrontCalmly S) h h') :
    ExceptRel (Outcome.Respaced S) (Head.Respaced S (RespacedEnd S)) (h.readClause context)
      (h'.readClause context) := by
  obtain ⟨signature, name, last, rest⟩ := h
  obtain ⟨signature', name', last', rest'⟩ := h'
  obtain ⟨hsame, hname, hrest⟩ := hh
  have hend := hrest.ending
  obtain ⟨b, hb, hfront⟩ := hrest
  unfold readClause
  dsimp only at hfront hsame hname hend ⊢
  cases hfront with
  | nil => exact .ok ⟨hsame, hname, hend⟩
  | @cons t u ts us fits ht more =>
    dsimp only
    rw [S.kind_of_token ht]
    split
    · have hclause := more.clause_end
      generalize clause ts = c, clause us = c' at hclause ⊢
      cases hclause with
      | error hafter => exact .error (.unexpected _ _ hafter)
      | ok hc =>
        exact .ok ⟨S.same_append (S.same_append hsame (S.same_refl _)) hc.1, hname, hc.2⟩
    · exact .ok ⟨hsame, hname, hend⟩

namespace Class

theorem namesClass_respaced (h : RespacedCalmly S ts us) : namesClass us = namesClass ts := by
  rw [namesClass, namesClass, h.nextKind]

theorem exported?_respaced (ds : Definitions) (ht : S.token t u) (hk : t.kind = .ident)
    (h : RespacedCalmly S ts us) :
    Option.Rel (fun x y => x.1.kind = .ident ∧ S.token x.1 y.1 ∧ RespacedCalmly S x.2 y.2)
      (exported? ds t ts) (exported? ds u us) := by
  obtain ⟨b, hb, hfront⟩ := h.front
  unfold exported?
  rw [S.text_of_token ht (by rw [hk]; rfl)]
  generalize skipTrivia ts = vs, skipTrivia us = ws at hfront ⊢
  cases hfront with
  | nil => exact .none
  | @cons v w behind behind' fits hv more =>
    dsimp only
    rw [S.kind_of_token hv]
    cases hident : v.kind == .ident with
    | false => exact .none
    | true =>
      have hbehind : RespacedCalmly S behind behind' :=
        ⟨_, hb.cons (by rw [eq_of_beq hident]; rfl), more⟩
      rw [namesClass_respaced hbehind]
      split
      · exact .some ⟨eq_of_beq hident, hv, hbehind⟩
      · exact .none

theorem readName_respaced (ds : Definitions) {h h' : Head}
    (hh : Head.Respaced S (RespacedFrontCalmly S) h h') :
    Head.Respaced S (RespacedCalmly S) (readName ds h) (readName ds h') := by
  obtain ⟨signature, name, last, rest⟩ := h
  obtain ⟨signature', name', last', rest'⟩ := h'
  obtain ⟨hsame, hname, hrest⟩ := hh
  have hcalm := hrest.calmly
  obtain ⟨b, hb, hfront⟩ := hrest
  unfold readName
  dsimp only at hfront hsame hname hcalm ⊢
  cases hfront with
  | nil => exact ⟨hsame, hname, hcalm⟩
  | @cons t u ts us fits ht more =>
    dsimp only
    rw [S.kind_of_token ht]
    split
    · next hident =>
      have hk : t.kind = .ident := eq_of_beq hident
      have htext := S.text_of_token ht (by rw [hk]; rfl)
      have hb' : S.IsCalm (t.kind :: b) := hb.cons (by rw [hk]; rfl)
      have hexported := exported?_respaced ds ht hk ⟨_, hb', more⟩
      cases he : exported? ds t ts with
      | none =>
        have hu := eq_none_of_rel_none (he ▸ hexported)
        rw [hu, htext]
        obtain ⟨hn, hrest⟩ := qualifiedName_respaced hb' more t.text t u
        refine ⟨?_, hn, hrest⟩
        dsimp only
        rw [hn]
        exact S.same_append hsame (S.same_refl _)
      | some x =>
        obtain ⟨y, hu, hxk, hx, b', hb'', hbehind⟩ := exists_of_rel_some (he ▸ hexported)
        rw [hu, htext]
        dsimp only
        rw [S.text_of_token hx (by rw [hxk]; rfl)]
        obtain ⟨hn, hrest⟩ := qualifiedName_respaced hb'' hbehind x.1.text x.1 y.1
        refine ⟨?_, hn, hrest⟩
        dsimp only
        rw [hn]
        exact S.same_append (S.same_append hsame (S.same_refl _)) (S.same_refl _)
    · exact ⟨hsame, hname, hcalm⟩

theorem readArguments_respaced {h h' : Head}
    (hh : Head.Respaced S (RespacedCalmly S) h h') :
    ExceptRel (Outcome.Respaced S) (Head.Respaced S (RespacedCalmly S)) (readArguments h)
      (readArguments h') := by
  obtain ⟨b, hb, hfront⟩ := hh.rest.front
  unfold readArguments
  rw [hh.name]
  generalize skipTrivia h.rest = vs, skipTrivia h'.rest = ws at hfront ⊢
  cases hfront with
  | nil => exact .ok hh
  | @cons t u ts us fits ht more =>
    dsimp only
    rw [S.kind_of_token ht]
    split
    · have hangles := (Tokens.Respaced.token fits ht more).angles? fits hb.plain
      cases ha : angles? (t :: ts) with
      | none =>
        have hu := eq_none_of_rel_none (ha ▸ hangles)
        rw [hu]
        exact .error (.failed rfl hh.rest.next.exists_behind)
      | some x =>
        obtain ⟨y, hu, hlist⟩ := exists_of_rel_some (ha ▸ hangles)
        rw [hu]
        exact .ok ⟨S.same_append hh.signature hlist.piece.same_textOf, rfl, hlist.rest⟩
    · exact .ok hh

theorem readFinal_respaced {h h' : Head} (hh : Head.Respaced S (RespacedCalmly S) h h') :
    Head.Respaced S (RespacedFrontCalmly S) (readFinal h) (readFinal h') := by
  have hcalm := hh.rest.front
  obtain ⟨b, hb, hfront⟩ := hh.rest.front
  unfold readFinal
  generalize skipTrivia h.rest = vs, skipTrivia h'.rest = ws at hfront hcalm ⊢
  cases hfront with
  | nil => exact ⟨hh.signature, hh.name, hcalm⟩
  | @cons t u ts us fits ht more =>
    dsimp only
    rw [S.kind_of_token ht]
    split
    · next hk =>
      have hb' : S.IsCalm (t.kind :: b) := hb.cons (by rw [eq_of_beq hk]; rfl)
      exact ⟨S.same_append hh.signature (S.same_refl _), hh.name,
        RespacedCalmly.front ⟨_, hb', more⟩⟩
    · exact ⟨hh.signature, hh.name, hcalm⟩

theorem head_respaced (ds : Definitions) (ht : S.token t u) (h : RespacedCalmly S ts us) :
    ExceptRel (Outcome.Respaced S) (Head.Respaced S (RespacedEnd S)) (head ds t ts)
      (head ds u us) := by
  have hstart : Head.Respaced S (RespacedFrontCalmly S)
      ⟨t.text, [], t, skipAttributes (skipTrivia ts)⟩
      ⟨u.text, [], u, skipAttributes (skipTrivia us)⟩ :=
    ⟨S.same_of_token ht, rfl, h.front.skipAttributes⟩
  exact (readArguments_respaced (readName_respaced ds hstart)).bind fun _ _ hh =>
    Head.readClause_respaced _ (readFinal_respaced hh)

/-- The same class, up to texts that count as the same. -/
theorem draft_respaced {lead lead' : Lead} (hl : lead.Respaced S lead') (kind : EntityKind)
    {s s' : Text} (hs : S.same s s') (name : Text) (last last' : Token) :
    Draft.Respaced S (draft lead kind s name last) (draft lead' kind s' name last') :=
  Draft.respaced_of_name rfl rfl (hl.onto hs) rfl hl.template .none

theorem readEnd_respaced {lead lead' : Lead} (hl : lead.Respaced S lead') (kind : EntityKind)
    (access : Access) {h h' : Head} (hh : Head.Respaced S (RespacedEnd S) h h') :
    Outcome.Respaced S (readEnd lead kind access h) (readEnd lead' kind access h') := by
  obtain ⟨signature, name, last, rest⟩ := h
  obtain ⟨signature', name', last', rest'⟩ := h'
  obtain ⟨hsame, rfl, b, hfront, hb⟩ := hh
  have hrespaced := hfront.respaced
  unfold readEnd
  dsimp only at hfront hsame hb ⊢
  cases hfront with
  | nil =>
    dsimp only
    split
    · exact .unexpected _ _ RespacedNext.nil.exists_behind
    · exact .entity (draft_respaced hl kind hsame _ _ _) RespacedNext.nil.on
  | @cons t u ts us fits ht more =>
    dsimp only
    rw [S.kind_of_token ht]
    split
    · next hk =>
      have hdraft := draft_respaced hl kind (S.same_append hsame (S.same_refl " \x7b".toList))
      have hbrace : t.kind = .punct .lBrace := eq_of_beq hk
      exact .read (.scope (hdraft _ _ _) access) (respacedOn_of_end more (.inr (.inl hbrace)))
    · next hopen =>
      split
      · next hk =>
        exact .entity (draft_respaced hl kind hsame _ _ _)
          (respacedOn_of_end more (.inl (eq_of_beq hk)))
      · next hsemicolon =>
        split
        · exact .unexpected _ _ ⟨b, hrespaced.behind⟩
        · refine .entity (draft_respaced hl kind hsame _ _ _) (hrespaced.on (hb.resolve_right ?_))
          rintro (hk | hk)
          · exact hopen (beq_iff_eq.mpr hk)
          · exact hsemicolon (beq_iff_eq.mpr hk)

theorem startsWithMacro_respaced (ds : Definitions) (h : RespacedCalmly S ts us) :
    startsWithMacro ds us = startsWithMacro ds ts := by
  obtain ⟨b, hb, hfront⟩ := h.front
  unfold startsWithMacro
  generalize skipTrivia ts = vs, skipTrivia us = ws at hfront ⊢
  cases hfront with
  | nil => rfl
  | @cons t u ts us fits ht more =>
    dsimp only
    rw [S.kind_of_token ht]
    cases hk : t.kind == .ident with
    | false => rfl
    | true => rw [S.text_of_token ht (by rw [eq_of_beq hk]; rfl)]

/-- Reads a class that nothing of its type is declared with. -/
def readHead (ds : Definitions) (lead : Lead) (keyword : Token) (rest : List Token) : Outcome :=
  match head ds keyword rest with
  | .error outcome => outcome
  | .ok h =>
    if keyword.kind == .keyword .classKw then readEnd lead .classDecl .priv h
    else readEnd lead .structDecl .pub h

theorem readHead_respaced (ds : Definitions) {lead lead' : Lead} (hl : lead.Respaced S lead')
    (ht : S.token t u) (h : RespacedCalmly S ts us) :
    Outcome.Respaced S (readHead ds lead t ts) (readHead ds lead' u us) := by
  have hhead := head_respaced ds ht h
  unfold readHead
  rw [S.kind_of_token ht]
  generalize head ds t ts = r, head ds u us = r' at hhead ⊢
  cases hhead with
  | error ho => exact ho
  | ok hh =>
    dsimp only
    split
    · exact readEnd_respaced hl _ _ hh
    · exact readEnd_respaced hl _ _ hh

theorem read_eq (ds : Definitions) (lead : Lead) (keyword : Token) (rest : List Token) :
    read ds lead keyword rest =
      if lead.text.isEmpty && !startsWithMacro ds rest && Declaration.isElaborated rest then
        Declaration.read ds lead (keyword :: rest)
      else readHead ds lead keyword rest := rfl

/-- Respaced tokens are read as the same class. -/
theorem read_respaced (ds : Definitions) {lead lead' : Lead} (hl : lead.Respaced S lead')
    (he : lead'.text.isEmpty = lead.text.isEmpty) (hb : S.IsPlain b) (fits : S.fits (u :: us))
    (ht : S.token t u) (hk : t.kind.leadsOn = true)
    (more : Tokens.Respaced S (t.kind :: b) ts us) :
    Outcome.Respaced S (read ds lead t ts) (read ds lead' u us) := by
  have hcalm : RespacedCalmly S ts us := ⟨_, hb.cons hk, more⟩
  rw [read_eq, read_eq, he, startsWithMacro_respaced ds hcalm,
    Declaration.isElaborated_respaced hcalm]
  split
  · exact Declaration.read_respaced ds hl hb (.cons fits ht more)
  · exact readHead_respaced ds hl ht hcalm

end Class

namespace Enum

theorem readScoped_respaced {h h' : Head}
    (hh : Head.Respaced S (RespacedFrontCalmly S) h h') :
    Head.Respaced S (RespacedFrontCalmly S) (readScoped h) (readScoped h') := by
  obtain ⟨signature, name, last, rest⟩ := h
  obtain ⟨signature', name', last', rest'⟩ := h'
  obtain ⟨hsame, hname, hrest⟩ := hh
  have hcalm := hrest
  obtain ⟨b, hb, hfront⟩ := hrest
  unfold readScoped
  dsimp only at hfront hsame hname hcalm ⊢
  cases hfront with
  | nil => exact ⟨hsame, hname, hcalm⟩
  | @cons t u ts us fits ht more =>
    dsimp only
    rw [S.kind_of_token ht]
    split
    · next hk =>
      have hb' : S.IsCalm (t.kind :: b) := hb.cons (by
        simp only [Bool.or_eq_true, beq_iff_eq] at hk
        rcases hk with hk | hk <;> rw [hk] <;> rfl)
      exact ⟨S.same_append hsame (S.same_append (S.same_refl [' ']) (S.same_of_token ht)), hname,
        RespacedCalmly.front ⟨_, hb', more⟩⟩
    · exact ⟨hsame, hname, hcalm⟩

theorem readName_respaced {h h' : Head}
    (hh : Head.Respaced S (RespacedFrontCalmly S) h h') :
    Head.Respaced S (RespacedFrontCalmly S) (readName h) (readName h') := by
  obtain ⟨signature, name, last, rest⟩ := h
  obtain ⟨signature', name', last', rest'⟩ := h'
  obtain ⟨hsame, hname, hrest⟩ := hh
  have hcalm := hrest
  obtain ⟨b, hb, hfront⟩ := hrest
  unfold readName
  dsimp only at hfront hsame hname hcalm ⊢
  cases hfront with
  | nil => exact ⟨hsame, hname, hcalm⟩
  | @cons t u ts us fits ht more =>
    dsimp only
    rw [S.kind_of_token ht]
    split
    · next hident =>
      have hk : t.kind = .ident := eq_of_beq hident
      have hb' : S.IsCalm (t.kind :: b) := hb.cons (by rw [hk]; rfl)
      rw [S.text_of_token ht (by rw [hk]; rfl)]
      obtain ⟨hn, hrest⟩ := qualifiedName_respaced hb' more t.text t u
      refine ⟨?_, hn, hrest.front⟩
      dsimp only
      rw [hn]
      exact S.same_append hsame (S.same_refl _)
    · exact ⟨hsame, hname, hcalm⟩

theorem head_respaced (h : RespacedCalmly S ts us) :
    Head.Respaced S (RespacedFrontCalmly S) (head t ts) (head u us) := by
  have hstart : Head.Respaced S (RespacedFrontCalmly S) ⟨"enum".toList, [], t, skipTrivia ts⟩
      ⟨"enum".toList, [], u, skipTrivia us⟩ := ⟨S.same_refl _, rfl, h.front⟩
  have hscoped := readScoped_respaced hstart
  exact readName_respaced ⟨hscoped.signature, hscoped.name, hscoped.rest.skipAttributes⟩

/-- The same enum, up to texts that count as the same. -/
theorem item_respaced {lead lead' : Lead} (hl : lead.Respaced S lead') {s s' : Text}
    (hs : S.same s s') (name : Text) (last last' : Token) :
    Item.Respaced S (item lead s name last) (item lead' s' name last') :=
  .entity (Draft.respaced_simple (hl.onto hs))

/-- An enum with its body, and with the semicolon directly behind it. -/
theorem readBody_respaced {lead lead' : Lead} (hl : lead.Respaced S lead') {s s' : Text}
    (hs : S.same s s') (name : Text) (last last' : Token) :
    Tokens.Respaced S (.punct .rBrace :: b) ts us → Outcome.Respaced S
      (match ts with
        | s₁ :: behind =>
          if s₁.kind == .punct .semicolon then .read (item lead (s ++ [';']) name s₁) behind
          else .read (item lead s name last) ts
        | [] => .read (item lead s name last) [])
      (match us with
        | s₁ :: behind =>
          if s₁.kind == .punct .semicolon then .read (item lead' (s' ++ [';']) name s₁) behind
          else .read (item lead' s' name last') us
        | [] => .read (item lead' s' name last') []) := by
  intro h
  have hon := respacedOn_of_end h (.inr (.inr rfl))
  cases h with
  | nil => exact .read (item_respaced hl hs _ _ _) hon
  | @token _ t u ts us fits ht more =>
    dsimp only
    rw [S.kind_of_token ht]
    split
    · next hk =>
      exact .read (item_respaced hl (S.same_append hs (S.same_refl _)) _ _ _)
        (respacedOn_of_end more (.inl (eq_of_beq hk)))
    · exact .read (item_respaced hl hs _ _ _) hon
  | @gap _ gap gap' ts us hg more =>
    obtain ⟨t, gap, rfl⟩ := List.exists_cons_of_ne_nil hg.ne_nil
    obtain ⟨u, gap', rfl⟩ := List.exists_cons_of_ne_nil hg.ne_nil'
    have hne : ∀ {v : Token}, v.kind.IsPassed → v.kind ≠ .punct .semicolon :=
      fun hv hk => not_isPassed_punct _ (hk ▸ hv)
    have ht := hne (.of_trivia (hg.trivia t List.mem_cons_self))
    have hu := hne (hg.passed u List.mem_cons_self)
    simp only [List.cons_append, beq_iff_eq, if_neg ht, if_neg hu]
    exact .read (item_respaced hl hs _ _ _) hon

theorem readEnd_respaced {lead lead' : Lead} (hl : lead.Respaced S lead') {h h' : Head}
    (hh : Head.Respaced S (RespacedEnd S) h h') :
    Outcome.Respaced S (readEnd lead h) (readEnd lead' h') := by
  obtain ⟨signature, name, last, rest⟩ := h
  obtain ⟨signature', name', last', rest'⟩ := h'
  obtain ⟨hsame, rfl, b, hfront, hb⟩ := hh
  have hrespaced := hfront.respaced
  unfold readEnd
  dsimp only at hfront hsame hb ⊢
  cases hfront with
  | nil =>
    dsimp only
    split
    · exact .unexpected _ _ RespacedNext.nil.exists_behind
    · exact .read (item_respaced hl hsame _ _ _) RespacedNext.nil.on
  | @cons t u ts us fits ht more =>
    dsimp only
    rw [S.kind_of_token ht]
    split
    · have hblock := hrespaced.block?
      cases ho : block? (t :: ts) with
      | none =>
        have hu := eq_none_of_rel_none (ho ▸ hblock)
        rw [hu]
        exact .failed rfl RespacedNext.nil.exists_behind
      | some x =>
        obtain ⟨y, hu, hpiece, b', hrest⟩ := exists_of_rel_some (ho ▸ hblock)
        rw [hu]
        exact readBody_respaced hl
          (S.same_append hsame (S.same_append (S.same_refl [' ']) hpiece.same_textOf)) _ _ _ hrest
    · next hopen =>
      split
      · next hk =>
        exact .read (item_respaced hl (S.same_append hsame (S.same_refl _)) _ _ _)
          (respacedOn_of_end more (.inl (eq_of_beq hk)))
      · next hsemicolon =>
        split
        · exact .unexpected _ _ ⟨b, hrespaced.behind⟩
        · refine .read (item_respaced hl hsame _ _ _) (hrespaced.on (hb.resolve_right ?_))
          rintro (hk | hk)
          · exact hopen (beq_iff_eq.mpr hk)
          · exact hsemicolon (beq_iff_eq.mpr hk)

/-- Respaced tokens are read as the same enum. -/
theorem read_respaced (ds : Definitions) {lead lead' : Lead} (hl : lead.Respaced S lead')
    (he : lead'.text.isEmpty = lead.text.isEmpty) (hb : S.IsPlain b) (fits : S.fits (u :: us))
    (ht : S.token t u) (hk : t.kind.leadsOn = true)
    (more : Tokens.Respaced S (t.kind :: b) ts us) :
    Outcome.Respaced S (read ds lead t ts) (read ds lead' u us) := by
  have hcalm : RespacedCalmly S ts us := ⟨_, hb.cons hk, more⟩
  unfold read
  rw [he, Declaration.isElaborated_respaced hcalm]
  split
  · exact Declaration.read_respaced ds hl hb (.cons fits ht more)
  · have htype := Head.readClause_respaced .enumHead
      (head_respaced (t := t) (u := u) hcalm)
    generalize (head t ts).readClause .enumHead = r, (head u us).readClause .enumHead = r'
      at htype ⊢
    cases htype with
    | error ho => exact ho
    | ok hh => exact readEnd_respaced hl hh

end Enum

end Construct
end HeaderOutline
