import HeaderOutline.Proofs.Passed

/-! # The stretch that a construct covers

An entity covers what stands between the first token of its construct and the end of one
that the construct has passed, and so does a documentation comment
(`Construct.read_covers`).  So nothing that is read later lies in it.
-/
namespace HeaderOutline

/-- What an item covers runs from a first token to the end of one of some tokens; only
documentation makes documentation. -/
def Item.Covers (first : Token) (ends : Token → Prop) : Item → Prop
  | .entity d | .scope d _ | .access _ d | .definition _ d | .suspect _ d =>
    ∃ last, ends last ∧ d.sourceRange = .between first last
  | .documentation (some c) =>
    first.kind = .docComment ∧ ∃ last, ends last ∧ c.span = some (.between first last)
  | .documentation none | .linkage | .close _ | .nothing => True

/-- What a construct covers runs from a first token to the end of one that is passed. -/
def Outcome.Covers (us : List Token) (first : Token) : Outcome → Prop
  | .read item rest => item.Covers first (Passed us rest)
  | .failed _ _ _ => True

namespace Outcome

variable {us vs rest : List Token} {first last : Token}

theorem Covers.within {o : Outcome} (h : o.Covers us first) (hs : us <:+ vs) :
    o.Covers vs first := by
  cases o with
  | failed => trivial
  | read item rest =>
    have hmono : ∀ {s : Span}, (∃ last, Passed us rest last ∧ s = .between first last) →
        ∃ last, Passed vs rest last ∧ s = .between first last :=
      fun ⟨last, hp, he⟩ => ⟨last, hp.within hs, he⟩
    cases item with
    | documentation comment =>
      cases comment with
      | none => trivial
      | some c =>
        obtain ⟨hk, last, hp, he⟩ := h
        exact ⟨hk, last, hp.within hs, he⟩
    | entity | scope | access | definition | suspect => exact hmono h
    | linkage | close | nothing => trivial

theorem covers_entity {d : Draft} (hp : Passed us rest last)
    (hd : d.sourceRange = .between first last) : (Outcome.read (.entity d) rest).Covers us first :=
  ⟨last, hp, hd⟩

theorem covers_scope {d : Draft} {access : Access} (hp : Passed us rest last)
    (hd : d.sourceRange = .between first last) :
    (Outcome.read (.scope d access) rest).Covers us first :=
  ⟨last, hp, hd⟩

/-- A construct could not be read. -/
def Fails (o : Outcome) : Prop := ∃ fault ended rest, o = .failed fault ended rest

/-- What could not be read covers nothing. -/
theorem Fails.covers {o : Outcome} (h : o.Fails) : o.Covers us first := by
  obtain ⟨_, _, _, rfl⟩ := h
  trivial

end Outcome

namespace Construct

open Outcome

variable {us : List Token}

theorem Typedef.read_covers (keyword : Token) (rest : List Token) :
    (read keyword rest).Covers (keyword :: rest) keyword := by
  unfold read
  split
  · trivial
  · next p taken last after he =>
    obtain ⟨happ, hlast⟩ := extent_append he
    split
    · trivial
    · exact covers_entity (.of_append (happ ▸ List.suffix_rfl) (List.mem_of_getLast? hlast)) rfl

theorem Using.read_covers (lead : Lead) (keyword : Token) (rest : List Token) :
    (read lead keyword rest).Covers (keyword :: rest) lead.first := by
  unfold read
  split
  · trivial
  · next name taken last after he =>
    obtain ⟨happ, hlast⟩ := extent_append he
    split
    · trivial
    · exact covers_entity (.of_append (happ ▸ List.suffix_rfl) (List.mem_of_getLast? hlast)) rfl

theorem Variable.read_covers (ds : Definitions) (lead : Lead) (ts : List Token) :
    (read ds lead ts).Covers ts lead.first := by
  unfold read
  split
  · trivial
  · next p taken rest he =>
    obtain ⟨happ, hne⟩ := extent_append he
    dsimp only
    split
    · trivial
    · exact covers_entity (.getLastD (happ ▸ List.suffix_rfl) hne _) rfl

theorem Function.read_covers (ds : Definitions) (lead : Lead) (ts : List Token) :
    (read ds lead ts).Covers ts lead.first := by
  unfold read
  split
  · trivial
  · trivial
  · next p taken rest he =>
    obtain ⟨happ, hne⟩ := extent_append.1 he
    split
    · trivial
    · exact covers_entity (.getLastD (happ ▸ List.suffix_rfl) hne _) rfl
  · next p taken rest he =>
    have happ := extent_append.2 he
    split
    · trivial
    · split
      · trivial
      · next block after hb =>
        -- the body is what follows the head
        have hs : block ++ after <:+ ts := by
          rw [Tokens.block?_append hb]
          exact ⟨taken, happ⟩
        exact covers_entity (.getLastD hs (Tokens.block?_ne_nil hb) _) rfl

theorem Declaration.read_covers (ds : Definitions) (lead : Lead) (ts : List Token) :
    (read ds lead ts).Covers ts lead.first := by
  unfold read
  split
  · exact Function.read_covers ds lead ts
  · exact Variable.read_covers ds lead ts

/-! ## Classes and enums -/

theorem Head.readClause_last {context : Context} {h h' : Head} (hp : Passed us h.rest h.last)
    (hr : h.readClause context = .ok h') : Passed us h'.rest h'.last := by
  unfold readClause at hr
  split at hr
  · next t rest ht =>
    split at hr
    · split at hr
      · cases hr
      · next clause after hc =>
        obtain rfl := Except.ok.inj hr
        exact hp.leave ((Tokens.clause_ok_suffix hc).trans (ht ▸ List.suffix_cons t rest))
    · obtain rfl := Except.ok.inj hr
      exact hp
  · obtain rfl := Except.ok.inj hr
    exact hp

/-- A clause cannot be read if nothing ends it. -/
theorem Head.readClause_eq_error {context : Context} {h : Head} {o : Outcome}
    (hr : h.readClause context = .error o) :
    ∃ t rest after, h.rest = t :: rest ∧ Tokens.clause rest = .error after ∧
      o = .unexpected context .misplacedToken after := by
  unfold readClause at hr
  split at hr
  · next t rest ht =>
    split at hr
    · split at hr
      · next after hc => exact ⟨t, rest, after, ht, hc, (Except.error.inj hr).symm⟩
      · cases hr
    · cases hr
  · cases hr

namespace Class

theorem readName_last {ds : Definitions} {h : Head} (hp : Passed us h.rest h.last) :
    Passed us (readName ds h).rest (readName ds h).last := by
  unfold readName
  split
  · next first rest ht =>
    rw [ht] at hp
    split
    · dsimp only
      split
      · next second behind he =>
        refine qualifiedName_last ?_
        unfold exported? at he
        split at he
        · next hs =>
          split at he
          · obtain ⟨rfl, rfl⟩ := by simpa using he
            exact .of_cons ((hs ▸ Tokens.skipTrivia_suffix rest).trans hp.next.suffix)
          · simp at he
        · simp at he
      · exact qualifiedName_last hp.next
    · exact ht ▸ hp
  · exact hp

theorem readArguments_last {h h' : Head} (hp : Passed us h.rest h.last)
    (hr : readArguments h = .ok h') : Passed us h'.rest h'.last := by
  unfold readArguments at hr
  split at hr
  · next t rest ht =>
    split at hr
    · split at hr
      · cases hr
      · next list after ha =>
        obtain rfl := Except.ok.inj hr
        refine .getLastD ?_ (Tokens.angles?_ne_nil ha) t
        rw [Tokens.angles?_append ha, ← ht]
        exact (Tokens.skipTrivia_suffix _).trans hp.suffix
    · obtain rfl := Except.ok.inj hr
      exact hp
  · obtain rfl := Except.ok.inj hr
    exact hp

theorem readFinal_last {h : Head} (hp : Passed us h.rest h.last) :
    Passed us (readFinal h).rest (readFinal h).last := by
  have hs := Tokens.skipTrivia_suffix h.rest
  unfold readFinal
  split
  · next t rest ht =>
    rw [ht] at hs
    split
    · exact (hp.leave hs).next.leave (Tokens.skipTrivia_suffix rest)
    · exact hp.leave hs
  · exact hp.leave List.nil_suffix

/-- The last token that counts in the head of a class is passed with the head. -/
theorem head_last {ds : Definitions} {keyword : Token} {rest : List Token} {h : Head}
    (hh : head ds keyword rest = .ok h) : Passed (keyword :: rest) h.rest h.last := by
  unfold head at hh
  dsimp only at hh
  generalize hn : readName ds _ = named at hh
  have hp : Passed (keyword :: rest) named.rest named.last := by
    rw [← hn]
    exact readName_last
      (.head ((Tokens.skipAttributes_suffix _).trans (Tokens.skipTrivia_suffix rest)))
  cases ha : readArguments named with
  | error outcome =>
    rw [ha] at hh
    cases hh
  | ok h₁ =>
    rw [ha] at hh
    exact Head.readClause_last (readFinal_last (readArguments_last hp ha)) hh

/-- Arguments cannot be read if they are not closed. -/
theorem readArguments_eq_error {h : Head} {o : Outcome} (hr : readArguments h = .error o) :
    ∃ t rest, Tokens.skipTrivia h.rest = t :: rest ∧ t.kind = .punct .lt ∧
      o = .failed ⟨.unclosedClassArguments, some t⟩ false h.rest := by
  unfold readArguments at hr
  split at hr
  · next t rest ht =>
    split at hr
    · next hlt =>
      split at hr
      · rw [Bool.and_eq_true] at hlt
        exact ⟨t, rest, ht, eq_of_beq hlt.2, (Except.error.inj hr).symm⟩
      · cases hr
    · cases hr
  · cases hr

/-- A head that cannot be read fails. -/
theorem head_fails {ds : Definitions} {keyword : Token} {rest : List Token} {o : Outcome}
    (hh : head ds keyword rest = .error o) : o.Fails := by
  unfold head at hh
  dsimp only at hh
  generalize readName ds _ = named at hh
  cases ha : readArguments named with
  | error outcome =>
    rw [ha] at hh
    obtain rfl := Except.error.inj hh
    obtain ⟨_, _, _, _, rfl⟩ := readArguments_eq_error ha
    exact ⟨_, _, _, rfl⟩
  | ok h₁ =>
    rw [ha] at hh
    obtain ⟨_, _, _, _, _, rfl⟩ := Head.readClause_eq_error hh
    exact ⟨_, _, _, rfl⟩

theorem readEnd_covers {lead : Lead} {kind : EntityKind} {access : Access} {h : Head}
    (hp : Passed us h.rest h.last) : (readEnd lead kind access h).Covers us lead.first := by
  unfold readEnd
  split
  · next ht =>
    split
    · trivial
    · exact covers_entity (ht ▸ hp) rfl
  · next t rest ht =>
    rw [ht] at hp
    split
    · exact covers_scope hp.next rfl
    · split
      · exact covers_entity hp.next rfl
      · split
        · trivial
        · exact covers_entity hp rfl

theorem read_covers (ds : Definitions) (lead : Lead) (keyword : Token) (rest : List Token) :
    (read ds lead keyword rest).Covers (keyword :: rest) lead.first := by
  unfold read
  split
  · exact Declaration.read_covers ds lead _
  · split
    · next outcome he => exact (head_fails he).covers
    · next h he => split <;> exact readEnd_covers (head_last he)

end Class

namespace Enum

theorem readScoped_last {h : Head} (hp : Passed us h.rest h.last) :
    Passed us (readScoped h).rest (readScoped h).last := by
  unfold readScoped
  split
  · next t rest ht =>
    split
    · exact (ht ▸ hp : Passed us (t :: rest) h.last).next.leave (Tokens.skipTrivia_suffix rest)
    · exact hp
  · exact hp

theorem readName_last {h : Head} (hp : Passed us h.rest h.last) :
    Passed us (readName h).rest (readName h).last := by
  unfold readName
  split
  · next t rest ht =>
    split
    · have hn : Passed us rest t := (ht ▸ hp : Passed us (t :: rest) h.last).next
      exact (qualifiedName_last hn).leave (Tokens.skipTrivia_suffix _)
    · exact hp
  · exact hp

/-- The last token that counts in the head of an enum is passed with the head. -/
theorem head_last (keyword : Token) (rest : List Token) :
    Passed (keyword :: rest) (head keyword rest).rest (head keyword rest).last := by
  have hp := readScoped_last (h := ⟨"enum".toList, [], keyword, Tokens.skipTrivia rest⟩)
    (.head (Tokens.skipTrivia_suffix rest))
  exact readName_last (hp.leave (Tokens.skipAttributes_suffix _))

theorem readEnd_covers {lead : Lead} {h : Head} (hp : Passed us h.rest h.last) :
    (readEnd lead h).Covers us lead.first := by
  unfold readEnd
  split
  · next ht =>
    split
    · trivial
    · exact covers_entity (ht ▸ hp) rfl
  · next t rest ht =>
    rw [ht] at hp
    split
    · split
      · trivial
      · next block after hb =>
        have hs : block ++ after <:+ us := Tokens.block?_append hb ▸ hp.suffix
        dsimp only
        split
        · next s behind =>
          split
          · exact covers_entity (.of_cons ((List.suffix_append block _).trans hs)) rfl
          · exact covers_entity (.getLastD hs (Tokens.block?_ne_nil hb) t) rfl
        · exact covers_entity (.getLastD hs (Tokens.block?_ne_nil hb) t) rfl
    · split
      · exact covers_entity hp.next rfl
      · split
        · trivial
        · exact covers_entity hp rfl

theorem read_covers (ds : Definitions) (lead : Lead) (keyword : Token) (rest : List Token) :
    (read ds lead keyword rest).Covers (keyword :: rest) lead.first := by
  unfold read
  split
  · exact Declaration.read_covers ds lead _
  · split
    · next outcome he =>
      obtain ⟨_, _, _, _, _, rfl⟩ := Head.readClause_eq_error he
      trivial
    · next h he => exact readEnd_covers (Head.readClause_last (head_last keyword rest) he)

end Enum

/-! ## Namespaces -/

namespace Namespace

theorem readName_last {name : Text} {last : Token} {ts : List Token} (hp : Passed us ts last) :
    Passed us (readName name last ts).rest (readName name last ts).last := by
  fun_induction readName name last ts with
  | case1 => exact hp
  | case2 _ _ t ts _ rest h ih =>
    exact ih (hp.next.leave ((afterInline_suffix rest).trans (Tokens.eat?_suffix h)))
  | case3 => exact hp.next
  | case4 => exact hp

theorem readAlias_covers (name : Text) (first : Token) (rest : List Token) :
    (readAlias name first rest).Covers (first :: rest) first := by
  have hs := Tokens.upTo_suffix aliasStops (first :: rest)
  unfold readAlias
  dsimp only
  split
  · next t behind ht =>
    rw [ht] at hs
    split
    · exact covers_entity (.of_cons hs) rfl
    · trivial
  · trivial

theorem readEnd_covers {isInline : Bool} {first : Token} {rest : List Token} {h : Head}
    (hp : Passed (first :: rest) h.rest h.last) :
    (readEnd isInline first rest h).Covers (first :: rest) first := by
  unfold readEnd
  dsimp only
  split
  · exact readAlias_covers _ first rest
  · split
    · next members hm =>
      -- the brace is the first token that is no trivia
      obtain ⟨brace, _, hb⟩ := Tokens.eat?_eq_some_iff.mp hm
      rw [hb]
      exact covers_scope (.of_cons ((hb ▸ Tokens.skipTrivia_suffix h.rest).trans hp.suffix)) rfl
    · split
      · trivial
      · exact covers_entity hp rfl

theorem read_covers (first : Token) (rest : List Token) :
    (read first rest).Covers (first :: rest) first := by
  unfold read
  split
  · split
    · next keyword behind hk =>
      refine readEnd_covers (readName_last ?_)
      exact Passed.leave (.of_cons ((hk ▸ Tokens.skipTrivia_suffix rest).trans
        (List.suffix_cons first rest))) (Tokens.skipTrivia_suffix behind)
    · trivial
  · exact readEnd_covers (readName_last (.head (Tokens.skipTrivia_suffix rest)))

end Namespace

/-! ## Comments and directives -/

namespace Comment

theorem mergeLines_last {mark raw : Text} {last : Token} {ts : List Token}
    (hp : Passed us ts last) :
    Passed us (mergeLines mark raw last ts).2.2 (mergeLines mark raw last ts).2.1 := by
  fun_induction mergeLines mark raw last ts with
  | case1 _ _ _ t after h ih => exact ih (hp.leave (nextLine?_suffix h)).next
  | case2 => exact hp

theorem documentation_covers {raw : Text} {first last : Token} {rest : List Token}
    (hk : first.kind = .docComment) (hp : Passed us rest last) :
    (Outcome.read (.documentation (documentation raw first last)) rest).Covers us first := by
  unfold documentation
  cases DocComment.read? raw with
  | none => trivial
  | some c => exact ⟨hk, last, hp, rfl⟩

theorem read_covers (merge : Bool) (t : Token) (rest : List Token) :
    (read merge t rest).Covers (t :: rest) t := by
  unfold read
  split
  · next hk =>
    split
    · exact documentation_covers (eq_of_beq hk) (mergeLines_last (.head List.suffix_rfl))
    · exact documentation_covers (eq_of_beq hk) (.head List.suffix_rfl)
  · exact covers_entity (.head List.suffix_rfl) rfl

end Comment

namespace Directive

theorem paramList_append (rest : List Token) :
    (paramList rest).2.1 ++ (paramList rest).2.2 = rest := by
  unfold paramList
  split
  · exact params_append [] [] rest
  · rfl

/-- The last token of a definition is passed with it. -/
theorem definition_last {name : Token} {rest : List Token} (hs : name :: rest <:+ us) :
    Passed us (value .start (paramList rest).2.2).2
      ((value .start (paramList rest).2.2).1.last.getD ((paramList rest).2.1.getLastD name)) := by
  have hlist : Passed us (paramList rest).2.2 ((paramList rest).2.1.getLastD name) := by
    have hs' : name :: (paramList rest).2.1 ++ (paramList rest).2.2 <:+ us := by
      rw [List.cons_append, paramList_append]
      exact hs
    have := Passed.getLastD hs' (List.cons_ne_nil _ _) name
    rwa [List.getLastD_cons] at this
  cases hl : (value .start (paramList rest).2.2).1.last with
  | none => exact hlist.leave (value_suffix ..)
  | some x => exact value_last hlist.suffix (by simp [Value.start]) hl

theorem readDefinition_covers {hash name : Token} {rest : List Token}
    (hs : name :: rest <:+ us) : (readDefinition hash name rest).Covers us hash :=
  ⟨_, definition_last hs, rfl⟩

/-- The last token that a directive keeps is passed with it. -/
theorem headD_kept {hash : Token} {rest ts : List Token} {e : Extent} (hts : ts <:+ rest)
    (hs : e.tokens.reverse ++ ts = hash :: rest) :
    Passed (hash :: rest) (extent e ts).2 ((extent e ts).1.kept.headD hash) := by
  cases hk : (extent e ts).1.kept with
  | nil => exact .head ((extent_suffix e ts).trans hts)
  | cons x kept => exact mem_kept (hs ▸ List.suffix_rfl) (by rw [hk]; exact List.mem_cons_self)

theorem read_covers (hash : Token) (rest : List Token) :
    (read hash rest).Covers (hash :: rest) hash := by
  have hrest := Tokens.space_append rest
  have hstart : (⟨[hash], []⟩ : Extent).tokens = [hash] := rfl
  unfold read
  dsimp only
  split
  · exact covers_entity (.head List.nil_suffix) rfl
  · next t ts ht =>
    have htail := ht ▸ Tokens.skipSpace_suffix rest
    have hcons := htail.trans (List.suffix_cons hash rest)
    have hspace := Tokens.space_append ts
    rw [ht] at hrest
    split
    · split
      · next name behind hn =>
        have hname := (hn ▸ Tokens.skipSpace_suffix ts).trans (List.suffix_cons t ts)
        rw [hn] at hspace
        split
        · exact readDefinition_covers (hname.trans hcons)
        · refine ⟨_, headD_kept (hname.trans htail) ?_, rfl⟩
          simp [hstart, hspace, hrest]
      · exact ⟨t, (Passed.of_cons hcons).leave List.nil_suffix, rfl⟩
    · refine covers_entity (headD_kept htail ?_) rfl
      simp [hstart, hrest]

end Directive

/-! ## Templates -/

namespace Template

theorem clauses_fails {texts parameters : List Text} {ts : List Token} {o : Outcome}
    (h : clauses texts parameters ts = .error o) : o.Fails := by
  fun_induction clauses texts parameters ts with
  | case1 => cases h
  | case2 => exact Except.error.inj h ▸ ⟨_, _, _, rfl⟩
  | case3 => exact Except.error.inj h ▸ ⟨_, _, _, rfl⟩
  | case4 _ _ _ _ _ _ _ _ _ _ _ ih => exact ih h
  | case5 => cases h

theorem readDeclaration_covers (ds : Definitions) (lead : Lead) (ts : List Token) :
    (readDeclaration ds lead ts).Covers ts lead.first := by
  unfold readDeclaration
  split
  · trivial
  · next t rest =>
    split
    · exact Class.read_covers ds lead t rest
    · split
      · exact Using.read_covers lead t rest
      · split
        · exact Function.read_covers ds lead _
        · split
          · exact Variable.read_covers ds lead _
          · trivial

theorem read_covers (ds : Definitions) (keyword : Token) (rest : List Token) :
    (read ds keyword rest).Covers (keyword :: rest) keyword := by
  have hs := clauses_suffix [] [] (keyword :: rest)
  unfold read
  split
  · next outcome he => exact (clauses_fails he).covers
  · next c hc =>
    rw [hc] at hs
    exact (readDeclaration_covers ..).within hs

end Template

/-! ## All constructs -/

theorem readAccess_covers (keyword : Token) (level : Access) (rest : List Token) :
    (readAccess keyword level rest).Covers (keyword :: rest) keyword := by
  have hs := (Tokens.skipSpace_suffix rest).trans (List.suffix_cons keyword rest)
  unfold readAccess
  dsimp only
  split
  · next behind hb =>
    obtain ⟨colon, _, hc⟩ := Tokens.eat?_eq_some_iff.mp hb
    rw [hc] at hs ⊢
    exact ⟨colon, .of_cons hs, rfl⟩
  · trivial

/-- What starts behind a macro stands behind it with its first token. -/
theorem cons_suffix_of_exportedHead? {rest behind : List Token} {t : Token}
    (h : exportedHead? rest = some (t, behind)) : t :: behind <:+ rest := by
  unfold exportedHead? at h
  split at h
  · next hsp =>
    split at h
    · obtain ⟨rfl, rfl⟩ := by simpa using h
      exact hsp ▸ Tokens.skipSpace_suffix rest
    · simp at h
  · simp at h

theorem readWord_covers (ds : Definitions) (word : Token) (rest : List Token) :
    (readWord ds word rest).Covers (word :: rest) word := by
  unfold readWord
  split
  · next t behind he =>
    have hs : t :: behind <:+ word :: rest := by
      split at he
      · exact (cons_suffix_of_exportedHead? he).trans (List.suffix_cons word rest)
      · cases he
    dsimp only
    split
    · exact (Enum.read_covers ds _ t behind).within hs
    · exact (Class.read_covers ds _ t behind).within hs
  · exact Declaration.read_covers ds _ _

/-- **What a construct covers** runs from its first token to the end of one that it has
passed. -/
theorem read_covers (ds : Definitions) (merge : Bool) (t : Token) (rest : List Token) :
    (read ds merge t rest).Covers (t :: rest) t := by
  unfold read
  split
  · exact Directive.read_covers t rest
  · exact Comment.read_covers merge t rest
  · exact Comment.read_covers merge t rest
  · exact Comment.read_covers merge t rest
  · exact Template.read_covers ds t rest
  · exact Namespace.read_covers t rest
  · split
    · exact Namespace.read_covers t rest
    · exact Declaration.read_covers ds _ _
  · exact Class.read_covers ds _ t rest
  · exact Class.read_covers ds _ t rest
  · exact Class.read_covers ds _ t rest
  · exact Enum.read_covers ds _ t rest
  · exact Typedef.read_covers t rest
  · exact Using.read_covers _ t rest
  · exact readAccess_covers t _ rest
  · exact readAccess_covers t _ rest
  · exact readAccess_covers t _ rest
  · trivial
  · trivial
  · split
    · trivial
    · exact Declaration.read_covers ds _ _
  · exact readWord_covers ds t rest
  · exact Declaration.read_covers ds _ _

end Construct
end HeaderOutline
