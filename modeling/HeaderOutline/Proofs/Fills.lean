import HeaderOutline.Proofs.Cover
import HeaderOutline.Proofs.Spare

/-! # Constructs that make an entity

A construct that makes an entity makes it reach up to a last token behind which nothing
but spare tokens is passed (`Outcome.Fills`).  All constructs make one but for comments,
directives, semicolons, closing braces and what opens a linkage block
(`Construct.fills_or_of_read`).
-/
namespace HeaderOutline

/-- The entity that an item makes. -/
def Item.draft? : Item → Option Draft
  | .entity d | .scope d _ | .access _ d | .definition _ d | .suspect _ d => some d
  | .linkage | .close _ | .documentation _ | .nothing => none

/-- The entity that a construct makes runs from a first token to the last one passed. -/
def Outcome.Fills (us : List Token) (first : Token) : Outcome → Prop
  | .read item rest =>
    ∃ d ∈ item.draft?, ∃ last, LastPassed us rest last ∧ d.sourceRange = .between first last
  | .failed _ _ _ => True

namespace Outcome

variable {us vs rest : List Token} {first last : Token}

theorem Fills.within {o : Outcome} (h : o.Fills us first) (hs : us <:+ vs) : o.Fills vs first := by
  cases o with
  | failed => trivial
  | read item rest =>
    obtain ⟨d, hd, last, hl, he⟩ := h
    exact ⟨d, hd, last, hl.within hs, he⟩

theorem fills_entity {d : Draft} (hl : LastPassed us rest last)
    (hd : d.sourceRange = .between first last) : (Outcome.read (.entity d) rest).Fills us first :=
  ⟨d, rfl, last, hl, hd⟩

theorem fills_scope {d : Draft} {access : Access} (hl : LastPassed us rest last)
    (hd : d.sourceRange = .between first last) :
    (Outcome.read (.scope d access) rest).Fills us first :=
  ⟨d, rfl, last, hl, hd⟩

theorem Fails.fills {o : Outcome} (h : o.Fails) : o.Fills us first := by
  obtain ⟨_, _, _, rfl⟩ := h
  trivial

end Outcome

namespace Construct

open Outcome

variable {us : List Token}

theorem Typedef.read_fills (keyword : Token) (rest : List Token) :
    (read keyword rest).Fills (keyword :: rest) keyword := by
  unfold read
  split
  · trivial
  · next p taken last after he =>
    obtain ⟨happ, hlast⟩ := extent_append he
    split
    · trivial
    · exact fills_entity (.of_getLast? (happ ▸ List.suffix_rfl) hlast) rfl

theorem Using.read_fills (lead : Lead) (keyword : Token) (rest : List Token) :
    (read lead keyword rest).Fills (keyword :: rest) lead.first := by
  unfold read
  split
  · trivial
  · next name taken last after he =>
    obtain ⟨happ, hlast⟩ := extent_append he
    split
    · trivial
    · exact fills_entity (.of_getLast? (happ ▸ List.suffix_rfl) hlast) rfl

theorem Variable.read_fills (ds : Definitions) (lead : Lead) (ts : List Token) :
    (read ds lead ts).Fills ts lead.first := by
  unfold read
  split
  · trivial
  · next p taken rest he =>
    obtain ⟨happ, hne⟩ := extent_append he
    dsimp only
    split
    · trivial
    · exact fills_entity (.of_getLastD (happ ▸ List.suffix_rfl) hne _) rfl

theorem Function.read_fills (ds : Definitions) (lead : Lead) (ts : List Token) :
    (read ds lead ts).Fills ts lead.first := by
  unfold read
  split
  · trivial
  · trivial
  · next p taken rest he =>
    obtain ⟨happ, hne⟩ := extent_append.1 he
    split
    · trivial
    · exact fills_entity (.of_getLastD (happ ▸ List.suffix_rfl) hne _) rfl
  · next p taken rest he =>
    have happ := extent_append.2 he
    split
    · trivial
    · split
      · trivial
      · next block after hb =>
        -- the body is what follows the head
        have hs : block ++ after <:+ ts := by
          rw [Tokens.block?_append hb]
          exact ⟨taken, happ⟩
        exact fills_entity (.of_getLastD hs (Tokens.block?_ne_nil hb) _) rfl

theorem Declaration.read_fills (ds : Definitions) (lead : Lead) (ts : List Token) :
    (read ds lead ts).Fills ts lead.first := by
  unfold read
  split
  · exact Function.read_fills ds lead ts
  · exact Variable.read_fills ds lead ts

/-! ### Heads of classes and enums

The attributes behind the keyword do not count for the last token of a head.  So a head
without a name has no last token that would do; but such a head makes an entity only if
a brace or a semicolon follows, which then is the last token. -/

/-- A brace that opens or a semicolon comes next. -/
def EndsHead (rest : List Token) : Prop :=
  Tokens.headKind rest = .punct .lBrace ∨ Tokens.headKind rest = .punct .semicolon

/-- A clause ends before a brace that opens or a semicolon. -/
theorem endsHead_of_clause {ts rest : List Token} {text : Text}
    (h : Tokens.clause ts = .ok (text, rest)) : EndsHead rest := by
  unfold Tokens.clause at h
  dsimp only at h
  split at h
  · cases h
  · next hn =>
    obtain ⟨_, rfl⟩ := Prod.mk.inj (Except.ok.inj h)
    simp only [Bool.or_eq_true, List.isEmpty_iff, beq_iff_eq, not_or] at hn
    obtain ⟨hne, hbrace⟩ := hn
    obtain ⟨t, behind, ht⟩ := List.exists_cons_of_ne_nil hne
    have hkind := Tokens.kind_mem_of_upTo ht
    rw [ht] at hbrace ⊢
    simp only [List.mem_cons, List.not_mem_nil, or_false] at hkind
    rcases hkind with hk | hk | hk
    · exact .inl hk
    · exact .inr hk
    · exact absurd hk hbrace

/-- Where nothing ends a head, its last token has been passed. -/
theorem lastPassed_of_settled {t last : Token} {rest : List Token}
    (h : EndsHead (t :: rest) ∨ LastPassed us (t :: rest) last)
    (hbrace : ¬(t.kind == .punct .lBrace) = true) (hsemi : ¬(t.kind == .punct .semicolon) = true) :
    LastPassed us (t :: rest) last := by
  rcases h with (hk | hk) | hl
  · exact absurd (beq_iff_eq.mpr hk) hbrace
  · exact absurd (beq_iff_eq.mpr hk) hsemi
  · exact hl

theorem not_endsHead_nil : ¬EndsHead [] := by
  rintro (hk | hk) <;> cases hk

/-- The last token of a name is the last one passed with it. -/
theorem qualifiedName_lastPassed {name : Text} {last : Token} {ts : List Token}
    (h : LastPassed us ts last) :
    LastPassed us (qualifiedName name last ts).rest (qualifiedName name last ts).last := by
  fun_induction qualifiedName name last ts with
  | case1 _ _ c i rest _ ih => exact ih (.of_cons ((List.suffix_cons c _).trans h.suffix))
  | case2 => exact h
  | case3 => exact h

theorem Head.readClause_settled {context : Context} {h h' : Head}
    (hl : h.name ≠ [] → LastPassed us h.rest h.last) (hr : h.readClause context = .ok h') :
    h'.name ≠ [] → EndsHead h'.rest ∨ LastPassed us h'.rest h'.last := by
  unfold readClause at hr
  split at hr
  · split at hr
    · split at hr
      · cases hr
      · next hc =>
        obtain rfl := Except.ok.inj hr
        exact fun _ => .inl (endsHead_of_clause hc)
    · obtain rfl := Except.ok.inj hr
      exact fun hn => .inr (hl hn)
  · obtain rfl := Except.ok.inj hr
    exact fun hn => .inr (hl hn)

namespace Class

/-- Only a name makes a last token of the head. -/
theorem readName_lastPassed {ds : Definitions} {h : Head} (hs : h.rest <:+ us)
    (hn : h.name = []) (hname : (readName ds h).name ≠ []) :
    LastPassed us (readName ds h).rest (readName ds h).last := by
  unfold readName at hname ⊢
  split at hname
  · next first rest ht =>
    rw [ht] at hs
    simp only
    split at hname
    · next hi =>
      rw [if_pos hi]
      split
      · next second behind he =>
        refine qualifiedName_lastPassed (.of_cons ?_)
        unfold exported? at he
        split at he
        · next hsp =>
          split at he
          · obtain ⟨rfl, rfl⟩ := by simpa using he
            exact (hsp ▸ Tokens.skipTrivia_suffix rest).trans ((List.suffix_cons ..).trans hs)
          · simp at he
        · simp at he
      · exact qualifiedName_lastPassed (.of_cons hs)
    · exact absurd hn hname
  · exact absurd hn hname

theorem readArguments_lastPassed {h h' : Head} (hs : h.rest <:+ us)
    (hl : h.name ≠ [] → LastPassed us h.rest h.last) (hr : readArguments h = .ok h') :
    h'.name ≠ [] → LastPassed us h'.rest h'.last := by
  unfold readArguments at hr
  split at hr
  · next t rest ht =>
    split at hr
    · split at hr
      · cases hr
      · next list after ha =>
        obtain rfl := Except.ok.inj hr
        intro _
        refine .of_getLastD ?_ (Tokens.angles?_ne_nil ha) t
        rw [Tokens.angles?_append ha, ← ht]
        exact (Tokens.skipTrivia_suffix _).trans hs
    · obtain rfl := Except.ok.inj hr
      exact hl
  · obtain rfl := Except.ok.inj hr
    exact hl

theorem readFinal_lastPassed {h : Head} (hs : h.rest <:+ us)
    (hl : h.name ≠ [] → LastPassed us h.rest h.last) :
    (readFinal h).name ≠ [] → LastPassed us (readFinal h).rest (readFinal h).last := by
  unfold readFinal
  split
  · next t rest ht =>
    split
    · intro _
      exact (LastPassed.of_cons ((ht ▸ Tokens.skipTrivia_suffix h.rest).trans hs)).skipTrivia
    · intro hn
      exact ht ▸ (hl hn).skipTrivia
  · next ht =>
    intro hn
    exact ht ▸ (hl hn).skipTrivia

/-- A head with a name is followed by what ends it, or has passed its last token. -/
theorem head_settled {ds : Definitions} {keyword : Token} {rest : List Token} {h : Head}
    (hh : head ds keyword rest = .ok h) (hn : h.name ≠ []) :
    EndsHead h.rest ∨ LastPassed (keyword :: rest) h.rest h.last := by
  have hs : Tokens.skipAttributes (Tokens.skipTrivia rest) <:+ keyword :: rest :=
    ((Tokens.skipAttributes_suffix _).trans (Tokens.skipTrivia_suffix rest)).trans
      (List.suffix_cons keyword rest)
  unfold head at hh
  dsimp only at hh
  generalize hnm : readName ds _ = named at hh
  have hnamed : named.rest <:+ keyword :: rest := hnm ▸ (readName_rest_suffix ds _).trans hs
  have hname : named.name ≠ [] → LastPassed (keyword :: rest) named.rest named.last := by
    rw [← hnm]
    exact readName_lastPassed hs rfl
  have hsa := readArguments_suffix named
  cases ha : readArguments named with
  | error outcome =>
    rw [ha] at hh
    cases hh
  | ok h₁ =>
    rw [ha] at hh hsa
    have hl := readArguments_lastPassed hnamed hname ha
    exact Head.readClause_settled (readFinal_lastPassed (hsa.trans hnamed) hl) hh hn

theorem readEnd_fills {lead : Lead} {kind : EntityKind} {access : Access} {h : Head}
    (hs : h.rest <:+ us) (hl : h.name ≠ [] → EndsHead h.rest ∨ LastPassed us h.rest h.last) :
    (readEnd lead kind access h).Fills us lead.first := by
  unfold readEnd
  split
  · next ht =>
    split
    · trivial
    · next hn =>
      rw [ht] at hl
      exact fills_entity ((hl (by simpa using hn)).resolve_left not_endsHead_nil) rfl
  · next t rest ht =>
    rw [ht] at hs hl
    split
    · exact fills_scope (.of_cons hs) rfl
    · next hbrace =>
      split
      · exact fills_entity (.of_cons hs) rfl
      · next hsemi =>
        split
        · trivial
        · next hn =>
          exact fills_entity (lastPassed_of_settled (hl (by simpa using hn)) hbrace hsemi) rfl

theorem read_fills (ds : Definitions) (lead : Lead) (keyword : Token) (rest : List Token) :
    (read ds lead keyword rest).Fills (keyword :: rest) lead.first := by
  unfold read
  split
  · exact Declaration.read_fills ds lead _
  · have hs := head_suffix ds keyword rest
    split
    · next outcome he => exact (head_fails he).fills
    · next h he =>
      rw [he] at hs
      have hs : h.rest <:+ keyword :: rest := hs.trans (List.suffix_cons keyword rest)
      split <;> exact readEnd_fills hs (head_settled he)

end Class

namespace Enum

theorem readName_lastPassed {h : Head} (hs : h.rest <:+ us) (hn : h.name = [])
    (hname : (readName h).name ≠ []) : LastPassed us (readName h).rest (readName h).last := by
  unfold readName at hname ⊢
  split at hname
  · next t rest ht =>
    rw [ht] at hs
    simp only
    split at hname
    · next hi =>
      rw [if_pos hi]
      exact (qualifiedName_lastPassed (.of_cons hs)).skipTrivia
    · exact absurd hn hname
  · exact absurd hn hname

theorem readScoped_name (h : Head) : (readScoped h).name = h.name := by
  unfold readScoped
  split
  · split <;> rfl
  · rfl

theorem head_lastPassed {keyword : Token} {rest : List Token}
    (hn : (head keyword rest).name ≠ []) :
    LastPassed (keyword :: rest) (head keyword rest).rest (head keyword rest).last := by
  refine readName_lastPassed ?_ (readScoped_name _) hn
  exact ((Tokens.skipAttributes_suffix _).trans (readScoped_rest_suffix _)).trans
    ((Tokens.skipTrivia_suffix rest).trans (List.suffix_cons keyword rest))

theorem readEnd_fills {lead : Lead} {h : Head} (hs : h.rest <:+ us)
    (hl : h.name ≠ [] → EndsHead h.rest ∨ LastPassed us h.rest h.last) :
    (readEnd lead h).Fills us lead.first := by
  unfold readEnd
  split
  · next ht =>
    split
    · trivial
    · next hn =>
      rw [ht] at hl
      exact fills_entity ((hl (by simpa using hn)).resolve_left not_endsHead_nil) rfl
  · next t rest ht =>
    rw [ht] at hs hl
    split
    · split
      · trivial
      · next block after hb =>
        have hb' : block ++ after <:+ us := Tokens.block?_append hb ▸ hs
        have hbody := LastPassed.of_getLastD hb' (Tokens.block?_ne_nil hb) t
        dsimp only
        split
        · next s behind =>
          split
          · exact fills_entity (.of_cons ((List.suffix_append block _).trans hb')) rfl
          · exact fills_entity hbody rfl
        · exact fills_entity hbody rfl
    · next hbrace =>
      split
      · exact fills_entity (.of_cons hs) rfl
      · next hsemi =>
        split
        · trivial
        · next hn =>
          exact fills_entity (lastPassed_of_settled (hl (by simpa using hn)) hbrace hsemi) rfl

theorem read_fills (ds : Definitions) (lead : Lead) (keyword : Token) (rest : List Token) :
    (read ds lead keyword rest).Fills (keyword :: rest) lead.first := by
  unfold read
  split
  · exact Declaration.read_fills ds lead _
  · have hs := (head keyword rest).readClause_suffix .enumHead
    split
    · next outcome he =>
      obtain ⟨_, _, _, _, _, rfl⟩ := Head.readClause_eq_error he
      trivial
    · next h he =>
      rw [he] at hs
      refine readEnd_fills ?_ (Head.readClause_settled head_lastPassed he)
      exact hs.trans ((head_rest_suffix keyword rest).trans (List.suffix_cons keyword rest))

end Enum

/-! ### Namespaces -/

namespace Namespace

/-- What stands behind the double colon of a name qualifies the next part of it. -/
theorem qualifier_of_eat? {ts rest : List Token}
    (h : Tokens.eat? (.punct .colonColon) ts = some rest) :
    ∃ qualifier, Qualifier qualifier ∧ ts = qualifier ++ afterInline rest := by
  obtain ⟨c, hc, rfl⟩ := Tokens.eat?_eq_some_iff.mp h
  unfold afterInline
  split
  · next behind hb =>
    obtain ⟨k, hk, rfl⟩ := Tokens.eat?_eq_some_iff.mp hb
    obtain ⟨gap, hgap, hbehind⟩ := Tokens.exists_space behind
    exact ⟨_, .behindInline hc hk hgap, by rw [List.cons_append, List.cons_append, ← hbehind]⟩
  · exact ⟨[c], .plain hc, rfl⟩

/-- The name of a namespace ends with its last token, or breaks off behind that one with a
qualifier. -/
theorem readName_lastPassed {name : Text} {last : Token} {ts front parts : List Token}
    (hus : us = front ++ (parts ++ ts)) (hfront : NameFront parts)
    (hpart : name ≠ [] → ∃ before qualifier, NameFront before ∧ last.kind = .ident ∧
      Qualifier qualifier ∧ parts = before ++ last :: qualifier)
    (hn : (readName name last ts).name ≠ []) :
    LastPassed us (readName name last ts).rest (readName name last ts).last := by
  -- a name that goes no further leaves the qualifier behind its last part
  have hbreak : ∀ {last : Token} {ts parts : List Token},
      us = front ++ (parts ++ ts) → (∃ before qualifier, NameFront before ∧ last.kind = .ident ∧
        Qualifier qualifier ∧ parts = before ++ last :: qualifier) →
      Tokens.headKind ts ≠ .ident → LastPassed us ts last := by
    rintro last ts _ hus ⟨before, qualifier, hb, hi, hq, rfl⟩ hend
    refine ⟨front ++ before, qualifier, by simp [hus], fun t ht => ?_⟩
    exact .dangling (by simpa using hus) hb hi hq hend ht
  fun_induction readName name last ts generalizing parts with
  | case1 => exact hbreak hus (hpart hn) (by simp [Tokens.headKind])
  | case2 name last t ts hi rest he ih =>
    obtain ⟨qualifier, hq, rfl⟩ := qualifier_of_eat? he
    have hi : t.kind = .ident := eq_of_beq hi
    have hsplit : us = front ++ ((parts ++ t :: qualifier) ++ afterInline rest) := by simp [hus]
    exact ih hsplit (.part hfront hi hq) (fun _ => ⟨parts, qualifier, hfront, hi, hq, rfl⟩) hn
  | case3 =>
    refine .of_cons ?_
    rw [hus]
    exact (List.suffix_append parts _).trans (List.suffix_append front _)
  | case4 _ _ t ts hi =>
    exact hbreak hus (hpart hn) fun hk => hi (beq_iff_eq.mpr hk)

theorem readAlias_fills (name : Text) (first : Token) (rest : List Token) :
    (readAlias name first rest).Fills (first :: rest) first := by
  have hs := Tokens.upTo_suffix aliasStops (first :: rest)
  unfold readAlias
  dsimp only
  split
  · next t behind ht =>
    rw [ht] at hs
    split
    · exact fills_entity (.of_cons hs) rfl
    · trivial
  · trivial

theorem readEnd_fills {isInline : Bool} {first : Token} {rest : List Token} {h : Head}
    (hs : h.rest <:+ first :: rest)
    (hl : h.name ≠ [] → LastPassed (first :: rest) h.rest h.last) :
    (readEnd isInline first rest h).Fills (first :: rest) first := by
  unfold readEnd
  dsimp only
  split
  · exact readAlias_fills _ first rest
  · split
    · next members hm =>
      -- the brace is the first token that is no trivia
      obtain ⟨brace, _, hb⟩ := Tokens.eat?_eq_some_iff.mp hm
      rw [hb]
      exact fills_scope (.of_cons ((hb ▸ Tokens.skipTrivia_suffix h.rest).trans hs)) rfl
    · split
      · trivial
      · next hn => exact fills_entity (hl (by simpa using hn)) rfl

/-- A namespace starts with its keyword, or with `inline` in front of that. -/
theorem read_fills {first : Token} {rest : List Token}
    (h : first.kind = .keyword .namespaceKw ∨
      first.kind = .keyword .inlineKw ∧ Tokens.nextKind rest = .keyword .namespaceKw) :
    (read first rest).Fills (first :: rest) first := by
  have hread : ∀ (isInline : Bool) (front : List Token) {keyword : Token} {behind : List Token},
      first :: rest = front ++ keyword :: behind → keyword.kind = .keyword .namespaceKw →
      (readEnd isInline first rest (readName [] keyword (Tokens.skipTrivia behind))).Fills
        (first :: rest) first := by
    intro isInline front keyword behind hsplit hk
    obtain ⟨gap, hgap, hbehind⟩ := Tokens.exists_trivia behind
    have hs : Tokens.skipTrivia behind <:+ first :: rest :=
      ((Tokens.skipTrivia_suffix behind).trans (List.suffix_cons keyword behind)).trans
        ⟨front, hsplit.symm⟩
    refine readEnd_fills ((readName_rest_suffix ..).trans hs) fun hn => ?_
    have hname : first :: rest = front ++ ((keyword :: gap) ++ Tokens.skipTrivia behind) := by
      rw [hsplit, List.cons_append, ← hbehind]
    exact readName_lastPassed hname (.keyword hk hgap) (fun hne => absurd rfl hne) hn
  unfold read
  rcases h with hk | ⟨hi, hk⟩
  · rw [if_neg (by simp [hk])]
    exact hread false [] rfl hk
  · rw [if_pos (by simp [hi])]
    obtain ⟨gap, -, hrest⟩ := Tokens.exists_trivia rest
    split
    · next keyword behind hb =>
      rw [Tokens.nextKind, hb] at hk
      rw [hb] at hrest
      exact hread true (first :: gap) (by rw [hrest]; rfl) hk
    · trivial

end Namespace

theorem Template.readDeclaration_fills (ds : Definitions) (lead : Lead) (ts : List Token) :
    (readDeclaration ds lead ts).Fills ts lead.first := by
  unfold readDeclaration
  split
  · trivial
  · next t rest =>
    split
    · exact Class.read_fills ds lead t rest
    · split
      · exact Using.read_fills lead t rest
      · split
        · exact Function.read_fills ds lead _
        · split
          · exact Variable.read_fills ds lead _
          · trivial

theorem Template.read_fills (ds : Definitions) (keyword : Token) (rest : List Token) :
    (read ds keyword rest).Fills (keyword :: rest) keyword := by
  have hs := clauses_suffix [] [] (keyword :: rest)
  unfold read
  split
  · next outcome he => exact (clauses_fails he).fills
  · next c hc =>
    rw [hc] at hs
    exact (readDeclaration_fills ..).within hs

theorem readAccess_fills (keyword : Token) (level : Access) (rest : List Token) :
    (readAccess keyword level rest).Fills (keyword :: rest) keyword := by
  have hs := (Tokens.skipSpace_suffix rest).trans (List.suffix_cons keyword rest)
  unfold readAccess
  dsimp only
  split
  · next behind hb =>
    obtain ⟨colon, _, hc⟩ := Tokens.eat?_eq_some_iff.mp hb
    rw [hc] at hs ⊢
    exact ⟨_, rfl, colon, .of_cons hs, rfl⟩
  · trivial

theorem readWord_fills (ds : Definitions) (word : Token) (rest : List Token) :
    (readWord ds word rest).Fills (word :: rest) word := by
  unfold readWord
  split
  · next t behind he =>
    have hs : t :: behind <:+ word :: rest := by
      split at he
      · exact (cons_suffix_of_exportedHead? he).trans (List.suffix_cons word rest)
      · cases he
    dsimp only
    split
    · exact (Enum.read_fills ds _ t behind).within hs
    · exact (Class.read_fills ds _ t behind).within hs
  · exact Declaration.read_fills ds _ _

/-- **Which constructs make an entity.**  A construct, unless it is a directive, makes an entity
that reaches up to the last token which is not spare, or it is one of the few that need not make
any. -/
theorem fills_or_of_read (ds : Definitions) (merge : Bool) {t : Token} (rest : List Token)
    (hh : t.kind ≠ .punct .hash) :
    (read ds merge t rest).Fills (t :: rest) t ∨
    (t.kind.isComment = true ∧ read ds merge t rest = Comment.read merge t rest) ∨
    (t.kind = .punct .rBrace ∧ read ds merge t rest = readClose t rest) ∨
    (t.kind = .punct .semicolon ∧ read ds merge t rest = .read .nothing rest) ∨
    (t.kind = .keyword .externKw ∧ ∃ members, Namespace.afterLinkage? rest = some members ∧
      read ds merge t rest = .read .linkage members) := by
  unfold read
  split
  · next hk => exact absurd hk hh
  · next hk => exact .inr (.inl ⟨by rw [hk]; rfl, rfl⟩)
  · next hk => exact .inr (.inl ⟨by rw [hk]; rfl, rfl⟩)
  · next hk => exact .inr (.inl ⟨by rw [hk]; rfl, rfl⟩)
  · exact .inl (Template.read_fills ds t rest)
  · next hk => exact .inl (Namespace.read_fills (.inl hk))
  · next hk =>
    left
    split
    · next hn => exact Namespace.read_fills (.inr ⟨hk, eq_of_beq hn⟩)
    · exact Declaration.read_fills ds _ _
  · exact .inl (Class.read_fills ds _ t rest)
  · exact .inl (Class.read_fills ds _ t rest)
  · exact .inl (Class.read_fills ds _ t rest)
  · exact .inl (Enum.read_fills ds _ t rest)
  · exact .inl (Typedef.read_fills t rest)
  · exact .inl (Using.read_fills _ t rest)
  · exact .inl (readAccess_fills t _ rest)
  · exact .inl (readAccess_fills t _ rest)
  · exact .inl (readAccess_fills t _ rest)
  · next hk => exact .inr (.inr (.inl ⟨hk, rfl⟩))
  · next hk => exact .inr (.inr (.inr (.inl ⟨hk, rfl⟩)))
  · next hk =>
    split
    · next members hm => exact .inr (.inr (.inr (.inr ⟨hk, members, hm, rfl⟩)))
    · exact .inl (Declaration.read_fills ds _ _)
  · exact .inl (readWord_fills ds t rest)
  · exact .inl (Declaration.read_fills ds _ _)

end Construct

end HeaderOutline
