import HeaderOutline.Proofs.Paths
import HeaderOutline.Proofs.Words

/-! # How scopes nest

New entities become children of the innermost open scope, and scopes are closed from the
inside.  So the open scopes have numbers that fall from the innermost one to the outermost,
and an entity that is no longer the last child of its parent has no open scope below it
(`Outline.Nested`).  It follows that entities are created in tree order
(`Outline.Preordered`).  A scope is opened only by a class, a struct, a union or a
namespace; its signature ends with the brace that opens it, and its name can be cut off a
path, since it is made of identifiers (`Construct.read_opens`).
-/
namespace HeaderOutline

/-- The end of the signature of an entity that opens a scope. -/
def Text.openingBrace : Text := " \x7b".toList

/-- An entity to which others may belong: the root, or one of a kind that opens a scope,
whose name can be cut off a path and whose signature ends with a brace. -/
def Outline.IsScope (o : Outline) (p : EntityId) : Prop :=
  p = Outline.root ∨
    ∃ q, o.get? p = some q ∧ q.kind.isTransparent = true ∧ q.name.Separable ∧
      Text.openingBrace <:+ q.signature

/-- An outline with some open scopes, the innermost first.  All parents are scopes; the
numbers of open scopes fall towards the outermost one; entities are in tree order, and what
has a later sibling is closed. -/
structure Outline.Nested (o : Outline) (opened : List EntityId) : Prop where
  linked : o.Linked
  parents : ∀ i p, o.parent? i = some p → o.IsScope p
  scopes : ∀ f ∈ opened, f < o.entities.size ∧ o.IsScope f
  chain : opened.Pairwise fun f g => g ≤ f
  preordered : o.Preordered
  closed : ∀ a b p, o.parent? a = some p → o.parent? b = some p → a < b →
    ∀ f ∈ opened, ¬o.Below a f

namespace Outline

variable {o : Outline} {p : EntityId} {opened : List EntityId}

theorem IsScope.attach (h : o.IsScope p) (parent : EntityId) (e : Entity) :
    (o.attach parent e).IsScope p := by
  refine h.imp_right ?_
  rintro ⟨q, hq, hopens⟩
  rw [get?_attach_of_lt (lt_size_of_get? hq), hq]
  refine ⟨_, rfl, ?_⟩
  split <;> exact hopens

namespace Nested

theorem sublist {opened' : List EntityId} (h : o.Nested opened) (hs : opened'.Sublist opened) :
    o.Nested opened' :=
  ⟨h.linked, h.parents, fun f hf => h.scopes f (hs.subset hf), h.chain.sublist hs, h.preordered,
    fun a b p ha hb hab f hf => h.closed a b p ha hb hab f (hs.subset hf)⟩

/-- The innermost scope may be opened once more. -/
theorem again (h : o.Nested (p :: opened)) : o.Nested (p :: p :: opened) := by
  refine ⟨h.linked, h.parents, fun f hf => h.scopes f (by simpa using hf), ?_, h.preordered,
    fun a b q ha hb hab f hf => h.closed a b q ha hb hab f (by simpa using hf)⟩
  refine List.pairwise_cons.mpr ⟨fun g hg => ?_, h.chain⟩
  rcases List.mem_cons.mp hg with rfl | hg
  · exact Nat.le_refl _
  · exact (List.pairwise_cons.mp h.chain).1 g hg

/-- No child of the innermost scope lies above an open one. -/
theorem not_below_of_child (h : o.Nested (p :: opened)) {a f : EntityId} (ha : o.parent? a = some p)
    (hf : f ∈ p :: opened) : ¬o.Below a f := by
  intro hb
  have hfp : f ≤ p := by
    rcases List.mem_cons.mp hf with rfl | hf
    · exact Nat.le_refl _
    · exact (List.pairwise_cons.mp h.chain).1 f hf
  have hle := Nat.le_trans (hb.le h.linked.toParented) hfp
  exact absurd hle (Nat.not_le_of_lt (h.linked.parent_lt ha).1)

/-- A new member of the innermost scope. -/
theorem attach (h : o.Nested (p :: opened)) {e : Entity} (he : e.children = #[]) :
    (o.attach p e).Nested (p :: opened) ∧
      ∀ a b q, (o.attach p e).parent? a = some q → (o.attach p e).parent? b = some q → a < b →
        ¬(o.attach p e).Below a o.entities.size := by
  have hp := (h.scopes p List.mem_cons_self).1
  have hhost : o.hostOf p = p := if_pos hp
  have hold : ∀ {i : EntityId}, i < (o.attach p e).entities.size →
      i < o.entities.size ∨ i = o.entities.size := by
    intro i hi
    rw [size_entities_attach] at hi
    exact Nat.lt_succ_iff_lt_or_eq.mp hi
  -- of two siblings, the first one is there before; the second one may be the new entity
  have hsiblings : ∀ {a b q : EntityId}, (o.attach p e).parent? a = some q →
      (o.attach p e).parent? b = some q → a < b → o.parent? a = some q ∧
        (o.parent? b = some q ∧ b < o.entities.size ∨ b = o.entities.size ∧ q = p) := by
    intro a b q ha hb hab
    have hblt := ((h.linked.attach p he).parent_lt hb).2
    rcases hold hblt with hblt | rfl
    · rw [parent?_attach_of_lt (Nat.lt_trans hab hblt)] at ha
      rw [parent?_attach_of_lt hblt] at hb
      exact ⟨ha, .inl ⟨hb, hblt⟩⟩
    · rw [parent?_attach_of_lt hab] at ha
      rw [parent?_attach_size, hhost] at hb
      exact ⟨ha, .inr ⟨rfl, (Option.some.inj hb).symm⟩⟩
  have hnew : ∀ a b q, (o.attach p e).parent? a = some q → (o.attach p e).parent? b = some q →
      a < b → ¬(o.attach p e).Below a o.entities.size := by
    intro a b q ha hb hab hbelow
    obtain ⟨ha', hb'⟩ := hsiblings ha hb hab
    rcases below_attach_size h.linked.toParented hbelow with rfl | hbelow
    · exact Nat.lt_irrefl _ (h.linked.parent_lt ha').2
    · rw [hhost] at hbelow
      rcases hb' with ⟨hb', -⟩ | ⟨-, rfl⟩
      · exact h.closed a b q ha' hb' hab p List.mem_cons_self hbelow
      · exact h.not_below_of_child ha' List.mem_cons_self hbelow
  refine ⟨⟨h.linked.attach p he, fun i q hq => ?_, fun f hf => ?_, h.chain, ?_, ?_⟩, hnew⟩
  · rcases hold ((h.linked.attach p he).parent_lt hq).2 with hi | rfl
    · rw [parent?_attach_of_lt hi] at hq
      exact (h.parents i q hq).attach p e
    · rw [parent?_attach_size, hhost] at hq
      obtain rfl := Option.some.inj hq
      exact (h.scopes _ List.mem_cons_self).2.attach _ e
  · obtain ⟨hlt, hscope⟩ := h.scopes f hf
    exact ⟨by rw [size_entities_attach]; exact Nat.lt_succ_of_lt hlt, hscope.attach p e⟩
  · intro a b q ha hb hab j hbelow
    obtain ⟨ha', hb'⟩ := hsiblings ha hb hab
    rcases Nat.lt_trichotomy j o.entities.size with hj | rfl | hj
    · rcases hb' with ⟨hb', -⟩ | ⟨rfl, -⟩
      · have hold := (below_attach_iff h.linked.toParented hj p e).mp hbelow
        exact h.preordered a b q ha' hb' hab j hold
      · exact hj
    · exact absurd hbelow (hnew a b q ha hb hab)
    · -- nothing is above a number that is not in use
      cases hbelow with
      | refl => exact absurd (Nat.lt_trans (h.linked.parent_lt ha').2 hj) (Nat.lt_irrefl _)
      | step hp _ =>
        have hlt := ((h.linked.attach p he).parent_lt hp).2
        rw [size_entities_attach] at hlt
        exact absurd (Nat.lt_of_lt_of_le hj (Nat.le_of_lt_succ hlt)) (Nat.lt_irrefl _)
  · intro a b q ha hb hab f hf hbelow
    obtain ⟨ha', hb'⟩ := hsiblings ha hb hab
    rw [below_attach_iff h.linked.toParented (h.scopes f hf).1] at hbelow
    rcases hb' with ⟨hb', -⟩ | ⟨-, rfl⟩
    · exact h.closed a b q ha' hb' hab f hf hbelow
    · exact h.not_below_of_child ha' hf hbelow

/-- A new member that opens a scope of its own. -/
theorem push (h : o.Nested (p :: opened)) {e : Entity} (he : e.children = #[])
    (hk : e.kind.isTransparent = true) (hn : e.name.Separable)
    (hs : Text.openingBrace <:+ e.signature) :
    (o.attach p e).Nested (o.entities.size :: p :: opened) := by
  obtain ⟨hnested, hnew⟩ := h.attach he
  refine ⟨hnested.linked, hnested.parents, fun f hf => ?_, ?_, hnested.preordered,
    fun a b q ha hb hab f hf => ?_⟩
  · rcases List.mem_cons.mp hf with rfl | hf
    · exact ⟨by rw [size_entities_attach]; exact Nat.lt_succ_self _,
        .inr ⟨_, get?_attach_size o p e, hk, hn, hs⟩⟩
    · exact hnested.scopes f hf
  · exact List.pairwise_cons.mpr ⟨fun g hg => Nat.le_of_lt (h.scopes g hg).1, h.chain⟩
  · rcases List.mem_cons.mp hf with rfl | hf
    · exact hnew a b q ha hb hab
    · exact hnested.closed a b q ha hb hab f hf

/-- Only the entities count for the nesting. -/
theorem of_entities {o' : Outline} (h : o.Nested opened) (he : o'.entities = o.entities) :
    o'.Nested opened := by
  have hbelow : ∀ {a i : EntityId}, o'.Below a i → o.Below a i := fun hb =>
    hb.congr fun i => by rw [parent?, parent?, get?, get?, he]
  obtain ⟨_, _, _, _⟩ := o
  obtain ⟨_, _, _, _⟩ := o'
  subst he
  exact ⟨h.linked.of_entities rfl, h.parents, h.scopes, h.chain,
    fun a b p ha hb hab j hj => h.preordered a b p ha hb hab j (hbelow hj),
    fun a b p ha hb hab f hf hj => h.closed a b p ha hb hab f hf (hbelow hj)⟩

theorem ofSource (file : String) (source : Text) :
    (Outline.ofSource file source).Nested [root] := by
  have hl := Linked.ofSource file source
  have hnone : ∀ {i p : EntityId}, (Outline.ofSource file source).parent? i ≠ some p := by
    intro i p hp
    have hlt := hl.parent_lt hp
    exact Nat.not_lt_zero p (Nat.lt_of_lt_of_le hlt.1 (Nat.le_of_lt_succ hlt.2))
  refine ⟨hl, fun i p hp => absurd hp hnone, fun f hf => ?_, List.pairwise_singleton _ _,
    fun a b p ha => absurd ha hnone, fun a b p ha => absurd ha hnone⟩
  obtain rfl := List.mem_singleton.mp hf
  exact ⟨hl.size_pos, .inl rfl⟩

end Nested
end Outline

/-! ## What opens a scope -/

/-- What ends with a word is separable. -/
theorem Text.IsWord.separable_append [Alphabet] {w : Text} (h : w.IsWord) (s : Text) :
    (s ++ w).Separable := by
  refine Text.separable_of_getLast? fun hlast => ?_
  rw [List.getLast?_append, List.getLast?_eq_some_getLast h.ne_nil, Option.some_or] at hlast
  exact h.colon_notMem (Option.some.inj hlast ▸ List.getLast_mem h.ne_nil)

/-- The identifiers among some tokens are words. -/
def Token.Words [Alphabet] (ts : List Token) : Prop := ∀ t ∈ ts, t.kind = .ident → t.text.IsWord

theorem Token.Words.suffix [Alphabet] {us ts : List Token} (h : Token.Words ts) (hs : us <:+ ts) :
    Token.Words us :=
  fun t ht => h t (hs.mem ht)

/-- A scope that is opened is of a kind that opens one, its name can be cut off a path, and
its signature ends with a brace. -/
def Outcome.Opens : Outcome → Prop
  | .read (.scope d _) _ => (∃ kind, d.form = .plain kind ∧ kind.isTransparent = true)
    ∧ d.name.Separable ∧ Text.openingBrace <:+ d.signature
  | _ => True

/-- A signature comes behind the text in front of it. -/
theorem Lead.suffix_onto (l : Lead) (signature : Text) : signature <:+ l.onto signature := by
  unfold onto
  split
  · exact List.suffix_rfl
  · exact (List.suffix_cons ' ' signature).trans (List.suffix_append l.text _)

theorem Outcome.Fails.opens {o : Outcome} (h : o.Fails) : o.Opens := by
  obtain ⟨_, _, _, rfl⟩ := h
  trivial

namespace Construct

theorem qualifiedName_separable [Alphabet] {name : Text} {last : Token} {ts : List Token}
    (h : name.Separable) (hw : Token.Words ts) : (qualifiedName name last ts).name.Separable := by
  fun_induction qualifiedName name last ts with
  | case1 name last c i rest hk ih =>
    simp only [Bool.and_eq_true, beq_iff_eq] at hk
    refine ih ((hw i (by simp) hk.2).separable_append _) (hw.suffix ?_)
    exact (List.suffix_cons i rest).trans (List.suffix_cons c _)
  | case2 => exact h
  | case3 => exact h

theorem Declaration.read_opens (ds : Definitions) (lead : Lead) (ts : List Token) :
    (read ds lead ts).Opens := by
  unfold read
  split
  · unfold Function.read
    split <;> try trivial
    all_goals split <;> try trivial
    split <;> trivial
  · unfold Variable.read
    split <;> try trivial
    dsimp only
    split <;> trivial

theorem Using.read_opens (lead : Lead) (keyword : Token) (rest : List Token) :
    (read lead keyword rest).Opens := by
  unfold read
  split
  · trivial
  · split <;> trivial

theorem Typedef.read_opens (keyword : Token) (rest : List Token) : (read keyword rest).Opens := by
  unfold read
  split
  · trivial
  · split <;> trivial

theorem Comment.read_opens (merge : Bool) (t : Token) (rest : List Token) :
    (read merge t rest).Opens := by
  unfold read
  split
  · split <;> trivial
  · trivial

theorem Directive.read_opens (hash : Token) (rest : List Token) : (read hash rest).Opens := by
  unfold read
  dsimp only
  split
  · trivial
  · split
    · split
      · split <;> trivial
      · trivial
    · trivial

theorem readAccess_opens (keyword : Token) (level : Access) (rest : List Token) :
    (readAccess keyword level rest).Opens := by
  unfold readAccess
  dsimp only
  split <;> trivial

theorem Head.readClause_name {context : Context} {h h' : Head}
    (hr : h.readClause context = .ok h') : h'.name = h.name := by
  unfold readClause at hr
  split at hr
  · split at hr
    · split at hr
      · cases hr
      · obtain rfl := Except.ok.inj hr
        rfl
    · obtain rfl := Except.ok.inj hr
      rfl
  · obtain rfl := Except.ok.inj hr
    rfl

namespace Class

theorem readName_separable [Alphabet] {ds : Definitions} {h : Head} (hn : h.name.Separable)
    (hw : Token.Words h.rest) : (readName ds h).name.Separable := by
  unfold readName
  split
  · next first rest ht =>
    rw [ht] at hw
    split
    · next hi =>
      dsimp only
      have hrest : Token.Words rest := hw.suffix (List.suffix_cons first rest)
      split
      · next second behind he =>
        unfold exported? at he
        split at he
        · next hs =>
          split at he
          · next hk =>
            obtain ⟨rfl, rfl⟩ := by simpa using he
            have hsecond := hrest.suffix (hs ▸ Tokens.skipTrivia_suffix rest)
            simp only [Bool.and_eq_true, beq_iff_eq] at hk
            exact qualifiedName_separable
              ((hsecond _ List.mem_cons_self hk.1).separable_append [])
              (hsecond.suffix (List.suffix_cons ..))
          · simp at he
        · simp at he
      · exact qualifiedName_separable
          ((hw first List.mem_cons_self (eq_of_beq hi)).separable_append []) hrest
    · exact hn
  · exact hn

theorem readArguments_name {h h' : Head} (hr : readArguments h = .ok h') :
    h'.name = h.name := by
  unfold readArguments at hr
  split at hr
  · split at hr
    · split at hr
      · cases hr
      · obtain rfl := Except.ok.inj hr
        rfl
    · obtain rfl := Except.ok.inj hr
      rfl
  · obtain rfl := Except.ok.inj hr
    rfl

theorem readFinal_name (h : Head) : (readFinal h).name = h.name := by
  unfold readFinal
  split
  · split <;> rfl
  · rfl

theorem head_separable [Alphabet] {ds : Definitions} {keyword : Token} {rest : List Token}
    {h : Head} (hw : Token.Words rest) (hh : head ds keyword rest = .ok h) : h.name.Separable := by
  unfold head at hh
  dsimp only at hh
  generalize hn : readName ds _ = named at hh
  have hname : named.name.Separable := by
    rw [← hn]
    refine readName_separable Text.separable_nil (hw.suffix ?_)
    exact (Tokens.skipAttributes_suffix _).trans (Tokens.skipTrivia_suffix rest)
  cases ha : readArguments named with
  | error outcome =>
    rw [ha] at hh
    cases hh
  | ok h₁ =>
    rw [ha] at hh
    rw [Head.readClause_name hh, readFinal_name, readArguments_name ha]
    exact hname

theorem readEnd_opens {lead : Lead} {kind : EntityKind} {access : Access} {h : Head}
    (hk : kind.isTransparent = true) (hn : h.name.Separable) :
    (readEnd lead kind access h).Opens := by
  unfold readEnd
  split
  · split <;> trivial
  · split
    · exact ⟨⟨kind, rfl, hk⟩, hn, (List.suffix_append ..).trans (lead.suffix_onto _)⟩
    · split
      · trivial
      · split <;> trivial

theorem read_opens [Alphabet] {ds : Definitions} {lead : Lead} {keyword : Token} {rest : List Token}
    (hw : Token.Words rest) : (read ds lead keyword rest).Opens := by
  unfold read
  split
  · exact Declaration.read_opens ds lead _
  · split
    · next outcome he => exact (head_fails he).opens
    · next h he => split <;> exact readEnd_opens rfl (head_separable hw he)

end Class

theorem Enum.read_opens (ds : Definitions) (lead : Lead) (keyword : Token) (rest : List Token) :
    (read ds lead keyword rest).Opens := by
  unfold read
  split
  · exact Declaration.read_opens ds lead _
  · split
    · next outcome he =>
      obtain ⟨_, _, _, _, _, rfl⟩ := Head.readClause_eq_error he
      trivial
    · unfold readEnd
      split
      · split <;> trivial
      · split
        · split
          · trivial
          · dsimp only
            split
            · split <;> trivial
            · trivial
        · split
          · trivial
          · split <;> trivial

namespace Namespace

theorem readName_separable [Alphabet] {name : Text} {last : Token} {ts : List Token}
    (hn : name.Separable) (hw : Token.Words ts) : (readName name last ts).name.Separable := by
  fun_induction readName name last ts with
  | case1 => exact hn
  | case2 name last t ts hi rest he ih =>
    refine ih ((hw t List.mem_cons_self (eq_of_beq hi)).separable_append name).append_colons ?_
    exact hw.suffix (((afterInline_suffix rest).trans (Tokens.eat?_suffix he)).trans
      (List.suffix_cons t ts))
  | case3 name last t ts hi =>
    exact (hw t List.mem_cons_self (eq_of_beq hi)).separable_append name
  | case4 => exact hn

theorem readEnd_opens {isInline : Bool} {first : Token} {rest : List Token} {h : Head}
    (hn : h.name.Separable) : (readEnd isInline first rest h).Opens := by
  unfold readEnd
  dsimp only
  split
  · unfold readAlias
    dsimp only
    split
    · split <;> trivial
    · trivial
  · split
    · exact ⟨⟨_, rfl, rfl⟩, hn, List.suffix_append ..⟩
    · split <;> trivial

theorem read_opens [Alphabet] {first : Token} {rest : List Token} (hw : Token.Words rest) :
    (read first rest).Opens := by
  unfold read
  split
  · split
    · next keyword behind hk =>
      refine readEnd_opens (readName_separable Text.separable_nil (hw.suffix ?_))
      exact (Tokens.skipTrivia_suffix behind).trans (Tokens.tail_suffix_of_skipTrivia hk)
    · trivial
  · exact readEnd_opens (readName_separable Text.separable_nil
      (hw.suffix (Tokens.skipTrivia_suffix rest)))

end Namespace

theorem Template.read_opens [Alphabet] {ds : Definitions} {keyword : Token} {rest : List Token}
    (hw : Token.Words (keyword :: rest)) : (read ds keyword rest).Opens := by
  have hs := clauses_suffix [] [] (keyword :: rest)
  unfold read
  split
  · next outcome he => exact (clauses_fails he).opens
  · next c hc =>
    rw [hc] at hs
    unfold readDeclaration
    split
    · trivial
    · next t behind ht =>
      have hbehind : Token.Words behind :=
        hw.suffix ((ht ▸ List.suffix_cons t behind : behind <:+ c.rest).trans hs)
      split
      · exact Class.read_opens hbehind
      · split
        · exact Using.read_opens _ t behind
        · have hd := Declaration.read_opens ds
            ⟨keyword, Text.joinWith [' '] c.texts, some c.params⟩ (t :: behind)
          unfold Declaration.read at hd
          split
          · next hf => rwa [if_pos hf] at hd
          · next hf =>
            rw [if_neg hf] at hd
            split
            · exact hd
            · trivial

theorem readWord_opens [Alphabet] {ds : Definitions} {word : Token} {rest : List Token}
    (hw : Token.Words rest) : (readWord ds word rest).Opens := by
  unfold readWord
  split
  · next t behind he =>
    have hs : behind <:+ rest := by
      split at he
      · exact exportedHead?_suffix he
      · cases he
    dsimp only
    split
    · exact Enum.read_opens ds _ t behind
    · exact Class.read_opens (hw.suffix hs)
  · exact Declaration.read_opens ds _ _

/-- **A scope that is opened** is of a kind that opens one, its name can be cut off a path,
and its signature ends with a brace. -/
theorem read_opens [Alphabet] (ds : Definitions) (merge : Bool) {t : Token} {rest : List Token}
    (hw : Token.Words (t :: rest)) : (read ds merge t rest).Opens := by
  have hrest : Token.Words rest := hw.suffix (List.suffix_cons t rest)
  unfold read
  split
  · exact Directive.read_opens t rest
  · exact Comment.read_opens merge t rest
  · exact Comment.read_opens merge t rest
  · exact Comment.read_opens merge t rest
  · exact Template.read_opens hw
  · exact Namespace.read_opens hrest
  · split
    · exact Namespace.read_opens hrest
    · exact Declaration.read_opens ds _ _
  · exact Class.read_opens hrest
  · exact Class.read_opens hrest
  · exact Class.read_opens hrest
  · exact Enum.read_opens ds _ t rest
  · exact Typedef.read_opens t rest
  · exact Using.read_opens _ t rest
  · exact readAccess_opens t _ rest
  · exact readAccess_opens t _ rest
  · exact readAccess_opens t _ rest
  · trivial
  · trivial
  · split
    · trivial
    · exact Declaration.read_opens ds _ _
  · exact readWord_opens hrest
  · exact Declaration.read_opens ds _ _

end Construct

/-! ## The whole reading -/

/-- The entities of the open scopes, the innermost first. -/
def Scopes.opened (s : Scopes) : List EntityId := s.inner.map (·.entity) ++ [s.outermost.entity]

namespace Building

variable {b : Building}

/-- A building whose scopes nest. -/
structure Nested (b : Building) : Prop where
  outline : b.outline.Nested b.scopes.opened
  outermost : b.scopes.outermost.entity = Outline.root

/-- The innermost scope comes first. -/
theorem exists_opened (s : Scopes) : ∃ others, s.opened = s.current.entity :: others := by
  unfold Scopes.opened Scopes.current
  cases s.inner with
  | nil => exact ⟨[], rfl⟩
  | cons f fs => exact ⟨fs.map (·.entity) ++ [s.outermost.entity], rfl⟩

theorem Nested.emit (h : b.Nested) (d : Draft) : (b.emit d).Nested := by
  obtain ⟨others, ho⟩ := exists_opened b.scopes
  have hn := h.outline
  rw [ho] at hn
  refine ⟨?_, h.outermost⟩
  show (b.emit d).outline.Nested b.scopes.opened
  rw [ho]
  exact (hn.attach rfl).1

/-- Only entities and open scopes count for the nesting. -/
theorem Nested.of_eq {b' : Building} (h : b.Nested)
    (he : b'.outline.entities = b.outline.entities) (hs : b'.scopes.opened = b.scopes.opened)
    (hr : b'.scopes.outermost.entity = b.scopes.outermost.entity) : b'.Nested :=
  ⟨hs ▸ h.outline.of_entities he, hr.trans h.outermost⟩

theorem opened_setAccess (s : Scopes) (level : Access) :
    (s.setAccess level).opened = s.opened ∧
      (s.setAccess level).outermost.entity = s.outermost.entity := by
  unfold Scopes.setAccess Scopes.opened
  split
  · next h => simp [h]
  · next h => simp [h]

/-- **One construct keeps the nesting.** -/
theorem Nested.add (h : b.Nested) (size : Nat) {item : Item} {rest : List Token}
    (ho : (Outcome.read item rest).Opens) : (b.add size item).Nested := by
  cases item with
  | entity d => exact h.emit d
  | scope d access =>
    obtain ⟨⟨kind, hform, hkind⟩, hname, hsignature⟩ := ho
    obtain ⟨others, hopened⟩ := exists_opened b.scopes
    have hn := h.outline
    rw [hopened] at hn
    refine ⟨?_, h.outermost⟩
    show (b.emit d).outline.Nested (b.nextId :: b.scopes.opened)
    rw [hopened]
    refine hn.push rfl ?_ hname hsignature
    show (d.form.kindIn b.enclosing d.name).isTransparent = true
    rw [hform]
    exact hkind
  | linkage =>
    obtain ⟨others, hopened⟩ := exists_opened b.scopes
    have hn := h.outline
    rw [hopened] at hn
    refine ⟨?_, h.outermost⟩
    show b.outline.Nested (b.scopes.current.entity :: b.scopes.opened)
    rw [hopened]
    exact hn.again
  | close brace =>
    simp only [Building.add]
    cases hi : b.scopes.inner with
    | nil =>
      rw [Scopes.pop?, hi]
      exact h.of_eq rfl rfl rfl
    | cons f fs =>
      rw [Scopes.pop?, hi]
      have hopened : b.scopes.opened = f.entity :: Scopes.opened ⟨fs, b.scopes.outermost⟩ := by
        rw [Scopes.opened, hi]
        rfl
      exact ⟨h.outline.sublist (hopened ▸ List.sublist_cons_self _ _), h.outermost⟩
  | access level d =>
    have hset := opened_setAccess b.scopes level
    have hb : (b.withScopes (b.scopes.setAccess level)).Nested := h.of_eq rfl hset.1 hset.2
    exact hb.emit d
  | definition definition d =>
    have hb : ({ b with definitions := b.definitions.define definition } : Building).Nested :=
      h.of_eq rfl rfl rfl
    exact hb.emit d
  | suspect warning d =>
    have hb : (b.report (warning.diagnostic size)).Nested := h.of_eq rfl rfl rfl
    exact hb.emit d
  | documentation comment => exact h.of_eq rfl rfl rfl
  | nothing => exact h

theorem Nested.after {policy : Recovery.Policy} {size : Nat} {b' : Building} {o : Outcome}
    (h : b.Nested) (ho : o.Opens) (ha : b.after policy size o = .ok b') : b'.Nested := by
  obtain ⟨item, rest, rfl, rfl⟩ | ⟨_, _, _, -, -, rfl⟩ := after_eq_ok ha
  · exact h.add size ho
  · exact h.of_eq rfl rfl rfl

/-- **A whole reading keeps the nesting.** -/
theorem Nested.run [Alphabet] {policy : Recovery.Policy} {merge : Bool} {size : Nat}
    {done : Building} {ts : List Token} (h : b.Nested) (hw : Token.Words ts)
    (hr : run policy merge size b ts = .ok done) : done.Nested := by
  induction b, ts using run_induction merge with
  | nil b ts hnil =>
    obtain rfl := Except.ok.inj ((run_of_nil hnil).symm.trans hr)
    exact h
  | cons b ts t behind front ih =>
    obtain ⟨b', ha, hr⟩ := exists_after_of_run front hr
    have hfront : Token.Words (t :: behind) := hw.suffix (front ▸ Tokens.skipTrivia_suffix ts)
    exact ih b' (h.after (Construct.read_opens _ _ hfront) ha)
      (hw.suffix (next_suffix_of_front _ _ front)) hr

/-- The outermost scope is still open at the end. -/
theorem Nested.finish (h : b.Nested) : b.finish.Nested [Outline.root] := by
  have hroot : b.outline.Nested [Outline.root] := by
    refine h.outline.sublist ?_
    rw [Scopes.opened, h.outermost]
    exact List.sublist_append_right _ _
  unfold Building.finish
  split
  · exact (hroot.attach rfl).1
  · exact hroot

end Building

/-- **The outline of a header nests.** -/
theorem parse_nested [Alphabet] {options : Options} {file : String} {source : Text} {o : Outline}
    (h : parse options file source = .ok o) : o.Nested [Outline.root] := by
  obtain ⟨-, b, hr, rfl⟩ := parse_eq_ok_iff.mp h
  have hstart : (Building.start file source options.definitions).Nested :=
    ⟨Outline.Nested.ofSource file source, rfl⟩
  refine (hstart.run (fun t ht hk => ?_) hr).finish
  exact Token.isWord_of_scan (List.dropLast_subset _ ht) hk

/-- Every parent is the root or can be left out of a path where it has no name. -/
theorem Outline.Nested.open {o : Outline} {opened : List EntityId} (h : o.Nested opened) :
    o.Open := by
  intro i p q hp hpos hq
  rcases h.parents i p hp with rfl | ⟨q', hq', hkind, hname, -⟩
  · exact absurd hpos (Nat.lt_irrefl _)
  · obtain rfl : q' = q := Option.some.inj (hq'.symm.trans hq)
    exact ⟨hkind, hname⟩

end HeaderOutline
