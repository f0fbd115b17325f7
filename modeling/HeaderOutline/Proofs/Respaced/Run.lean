import HeaderOutline.Proofs.Blame
import HeaderOutline.Proofs.Policy
import HeaderOutline.Proofs.Respaced.Outline

/-! # Reading respaced tokens

A reading of respaced tokens goes in step: a construct adds the same to both outlines
(`Building.Respaced.add`), or fails in both.  A comment that a gap gets in front of a construct
is read on its own, and is an entity of the second outline alone
(`Building.Respaced.exists_run_front`).  Under the strict policy a fault ends both readings with
the same code (`Building.run_respaced`).
-/
namespace HeaderOutline

open Tokens

variable {S : Respacing} {m : Numbering}

/-! ## Scopes -/

/-- Scopes of the same entity with the same access levels. -/
structure Frame.Respaced (m : Numbering) (f f' : Frame) : Prop where
  entity : m[f.entity]? = some f'.entity
  defaultAccess : f'.defaultAccess = f.defaultAccess
  access : f'.access = f.access

/-- The same scopes are open. -/
structure Scopes.Respaced (m : Numbering) (s s' : Scopes) : Prop where
  inner : List.Forall₂ (Frame.Respaced m) s.inner s'.inner
  outermost : Frame.Respaced m s.outermost s'.outermost

theorem Frame.Respaced.mono {f f' : Frame} (h : Frame.Respaced m f f') (more : Numbering) :
    Frame.Respaced (m ++ more) f f' where
  entity := List.getElem?_append_left (List.getElem?_eq_some_iff.mp h.entity).1 ▸ h.entity
  defaultAccess := h.defaultAccess
  access := h.access

namespace Scopes.Respaced

variable {s s' : Scopes}

theorem mono (h : Scopes.Respaced m s s') (more : Numbering) :
    Scopes.Respaced (m ++ more) s s' where
  inner := h.inner.imp fun _ _ hf => hf.mono more
  outermost := h.outermost.mono more

theorem current (h : Scopes.Respaced m s s') : Frame.Respaced m s.current s'.current := by
  obtain ⟨inner, outermost⟩ := s
  obtain ⟨inner', outermost'⟩ := s'
  obtain ⟨hinner, houter⟩ := h
  dsimp only at hinner houter
  cases hinner with
  | nil => exact houter
  | cons hf _ => exact hf

theorem push (h : Scopes.Respaced m s s') {i j : EntityId} (hij : m[i]? = some j)
    (access : Access) : Scopes.Respaced m (s.push i access) (s'.push j access) where
  inner := .cons ⟨hij, rfl, rfl⟩ h.inner
  outermost := h.outermost

theorem pushTransparent (h : Scopes.Respaced m s s') :
    Scopes.Respaced m s.pushTransparent s'.pushTransparent where
  inner := .cons h.current h.inner
  outermost := h.outermost

theorem pop? (h : Scopes.Respaced m s s') :
    Option.Rel (fun x y => Scopes.Respaced m x.2 y.2) s.pop? s'.pop? := by
  obtain ⟨inner, outermost⟩ := s
  obtain ⟨inner', outermost'⟩ := s'
  obtain ⟨hinner, houter⟩ := h
  dsimp only at hinner houter
  cases hinner with
  | nil => exact .none
  | cons _ hrest => exact .some ⟨hrest, houter⟩

theorem setAccess (h : Scopes.Respaced m s s') (access : Access) :
    Scopes.Respaced m (s.setAccess access) (s'.setAccess access) := by
  obtain ⟨inner, outermost⟩ := s
  obtain ⟨inner', outermost'⟩ := s'
  obtain ⟨hinner, houter⟩ := h
  dsimp only at hinner houter
  cases hinner with
  | nil => exact ⟨.nil, houter.entity, houter.defaultAccess, rfl⟩
  | cons hf hrest => exact ⟨.cons ⟨hf.entity, hf.defaultAccess, rfl⟩ hrest, houter⟩

end Scopes.Respaced

/-! ## One construct -/

/-- Readings that have built the same so far. -/
structure Building.Respaced (S : Respacing) (m : Numbering) (b b' : Building) : Prop where
  outline : Outline.Respaced S m b.outline b'.outline
  scopes : Scopes.Respaced m b.scopes b'.scopes
  pending : Option.Rel S.doc b.pending b'.pending
  /-- No documentation waits where gaps may get comments. -/
  quiet : S.IsStrict ∨ b'.pending = none
  definitions : b'.definitions = b.definitions

namespace Building.Respaced

variable {b b' : Building} {size size' : Nat}

theorem quiet_left (h : Building.Respaced S m b b') : S.IsStrict ∨ b.pending = none := by
  refine h.quiet.imp_right fun hn => ?_
  have hp := h.pending
  rw [hn] at hp
  generalize b.pending = p at hp ⊢
  cases hp
  rfl

/-- What is read in the same scope has the same kind. -/
theorem toEntity (h : Building.Respaced S m b b') {d d' : Draft} (hd : Draft.Respaced S d d') :
    Entity.RespacedBare S (d.toEntity b.enclosing b.scopes.current.access b.pending)
      (d'.toEntity b'.enclosing b'.scopes.current.access b'.pending) := by
  obtain ⟨e, e', he, he', hscope⟩ := h.outline.entity _ _ h.scopes.current.entity
  have henclosing : b.enclosing = e := by rw [enclosing, he, Option.getD_some]
  have henclosing' : b'.enclosing = e' := by rw [enclosing, he', Option.getD_some]
  rw [henclosing, henclosing']
  have hkind : d'.form.kindIn e' d'.name = d.form.kindIn e d.name := by
    have hdirective : d.form ≠ .plain .directive → d'.name = d.name := hd.name_eq
    rw [hd.form]
    unfold Form.kindIn
    split
    · rfl
    · rfl
    · rw [hscope.kind]
    · next hf =>
      rw [hscope.kind, hdirective (by rw [hf]; nofun)]
      split
      · next hc => rw [hscope.name_eq fun hk => by rw [hk] at hc; cases hc]
      · rfl
  refine ⟨hkind, hd.name, fun hk => hd.name_eq fun hf => hk ?_, hd.isEmpty, hd.signature,
    h.scopes.current.access, hd.flags, hd.template, hd.body, h.pending⟩
  show d.form.kindIn e d.name = .directive
  rw [hf]
  rfl

theorem emit (h : Building.Respaced S m b b') {d d' : Draft} (hd : Draft.Respaced S d d') :
    Building.Respaced S (m ++ [b'.outline.entities.size]) (b.emit d) (b'.emit d') where
  outline := h.outline.attach h.scopes.current.entity (h.toEntity hd)
  scopes := h.scopes.mono _
  pending := .none
  quiet := .inr rfl
  definitions := h.definitions

/-- A comment that stands in the second list alone. -/
theorem emit_comment (h : Building.Respaced S m b b') (hs : ¬S.IsStrict) {d : Draft}
    (hd : d.form = .plain .comment) : Building.Respaced S m b (b'.emit d) where
  outline := by
    refine h.outline.attach_comment hs ?_ _
    show d.form.kindIn _ _ = _
    rw [hd]
    rfl
  scopes := h.scopes
  pending := by
    rw [h.quiet_left.resolve_left hs]
    exact .none
  quiet := .inr rfl
  definitions := h.definitions

theorem report (h : Building.Respaced S m b b') {d d' : Diagnostic} (hd : d'.code = d.code) :
    Building.Respaced S m (b.report d) (b'.report d') :=
  ⟨h.outline.report hd, h.scopes, h.pending, h.quiet, h.definitions⟩

theorem withScopes (h : Building.Respaced S m b b') {s s' : Scopes}
    (hs : Scopes.Respaced m s s') :
    Building.Respaced S m (b.withScopes s) (b'.withScopes s') :=
  ⟨h.outline, hs, h.pending, h.quiet, h.definitions⟩

/-- A construct adds the same to both. -/
theorem add (h : Building.Respaced S m b b') {i i' : Item} (hi : Item.Respaced S i i') :
    ∃ more, Building.Respaced S (m ++ more) (b.add size i) (b'.add size' i') := by
  have hsame : ∀ {c c' : Building}, Building.Respaced S m c c' →
      Building.Respaced S (m ++ []) c c' := fun hc => (List.append_nil m).symm ▸ hc
  cases hi with
  | entity hd => exact ⟨_, h.emit hd⟩
  | scope hd access =>
    have hopened := h.emit hd
    have hnext : (m ++ [b'.outline.entities.size])[b.nextId]? = some b'.nextId := by
      show _[b.outline.entities.size]? = _
      rw [← h.outline.length, List.getElem?_concat_length]
      rfl
    exact ⟨_, hopened.withScopes (hopened.scopes.push hnext access)⟩
  | linkage => exact ⟨[], hsame (h.withScopes h.scopes.pushTransparent)⟩
  | close brace brace' =>
    have hpop := h.scopes.pop?
    refine ⟨[], hsame ?_⟩
    unfold Building.add
    generalize b.scopes.pop? = p, b'.scopes.pop? = p' at hpop ⊢
    cases hpop with
    | none => exact h.report rfl
    | some hs => exact h.withScopes hs
  | access level hd => exact ⟨_, (h.withScopes (h.scopes.setAccess level)).emit hd⟩
  | definition definition _ hd =>
    have hdefined : Building.Respaced S m
        { b with definitions := b.definitions.define definition }
        { b' with definitions := b'.definitions.define definition } :=
      ⟨h.outline, h.scopes, h.pending, h.quiet, by
        show b'.definitions.define definition = b.definitions.define definition
        rw [h.definitions]⟩
    exact ⟨_, hdefined.emit hd⟩
  | suspect found found' hd =>
    have hreported : Building.Respaced S m
        (b.report ((Warning.namelessMacro found).diagnostic size))
        (b'.report ((Warning.namelessMacro found').diagnostic size')) := h.report rfl
    exact ⟨_, hreported.emit hd⟩
  | documentation strict hc =>
    exact ⟨[], hsame ⟨h.outline, h.scopes, hc, .inl strict, h.definitions⟩⟩
  | nothing => exact ⟨[], hsame h⟩

/-- Macros become known only where line ends are kept. -/
theorem heeds_add {i i' : Item} (hi : Item.Respaced S i i') (hd : S.Heeds b.definitions) :
    S.Heeds (b.add size i).definitions := by
  cases hi with
  | definition _ firm _ => exact .inr firm
  | close brace brace' =>
    unfold Building.add
    dsimp only
    split <;> exact hd
  | _ => exact hd

/-- Documentation that nothing follows becomes the same entity. -/
theorem finish (h : Building.Respaced S m b b') :
    ∃ more, Outline.Respaced S (m ++ more) b.finish b'.finish := by
  have hp := h.pending
  unfold Building.finish
  generalize b.pending = p, b'.pending = p' at hp ⊢
  cases hp with
  | none => exact ⟨[], (List.append_nil m).symm ▸ h.outline⟩
  | some hdoc =>
    exact ⟨_, h.outline.attach h.outline.root ⟨rfl, S.name_refl _, fun _ => rfl, rfl,
      S.same_of_doc hdoc, rfl, rfl, S.template_none, .none, .some hdoc⟩⟩

end Building.Respaced

/-! ## Going on after a fault -/

namespace Recovery

variable {b : Trail} {ts us : List Token}

theorem resume_passed {gap : List Token} (h : ∀ t ∈ gap, t.kind.IsPassed) (depth : Nat)
    (ts : List Token) : resume depth (gap ++ ts) = resume depth ts := by
  refine read_gap (fun depth t ts ht => ?_) h depth ts
  rw [resume]
  rcases ht.cases with hk | hk | hk <;>
    cases depth <;> simp [hk, Context.stops, Context.constructStarts]

/-- The reading goes on at the same place. -/
theorem resume_respaced (h : Respaced S b ts us) (depth : Nat) :
    ∃ b', Respaced S b' (resume depth ts) (resume depth us) := by
  induction h generalizing depth with
  | @nil b => exact ⟨b, .nil⟩
  | @token b t u ts us fits h more ih =>
    rw [resume, resume, S.kind_of_token h]
    split
    · exact ih _
    · split
      · exact ih _
      · split
        · exact ⟨_, more⟩
        · split
          · exact ⟨b, .token fits h more⟩
          · exact ih _
  | gap h _ ih =>
    rw [resume_passed fun t ht => .of_trivia (h.trivia t ht), resume_passed h.passed]
    exact ih _

end Recovery

theorem Outcome.Respaced.next {o o' : Outcome} (h : Outcome.Respaced S o o')
    (hs : S.IsStrict ∨ ∃ item rest, o = .read item rest) : RespacedOn S o.next o'.next := by
  cases h with
  | read _ more => exact more
  | @failed f f' ended rest rest' _ more =>
    obtain ⟨b, vs, ws, hvs, hws, hmore⟩ := more
    have hstrict := hs.resolve_right (by rintro ⟨_, _, ⟨⟩⟩)
    cases ended with
    | true => exact ⟨b, .inr hstrict, vs, ws, hvs, hws, hmore⟩
    | false =>
      obtain ⟨b', hresume⟩ := Recovery.resume_respaced hmore 0
      show RespacedOn S (Recovery.resume 0 rest) (Recovery.resume 0 rest')
      rw [← Recovery.resume_skipTrivia, hvs, Recovery.resume_skipTrivia,
        ← Recovery.resume_skipTrivia 0 rest', hws, Recovery.resume_skipTrivia]
      exact hresume.on (.inr hstrict)

/-! ## All constructs -/

namespace Building

variable {policy : Recovery.Policy} {merge : Bool} {size size' : Nat} {b b' : Building}
  {ts us : List Token}

/-- A comment that is not documentation is an entity by itself. -/
theorem run_blockComment {t : Token} (h : t.kind = .blockComment) (b : Building)
    (ts : List Token) :
    ∃ d : Draft, d.form = .plain .comment ∧
      run policy merge size b (t :: ts) = run policy merge size (b.emit d) ts := by
  have hread : Construct.read b.definitions merge t ts = Construct.Comment.read merge t ts := by
    unfold Construct.read
    rw [h]
  refine ⟨.simple (.plain .comment) (Construct.Comment.name t.text) t.text (.between t t), rfl, ?_⟩
  rw [run_of_cons (skipTrivia_of_not (by rw [h]; rfl)), hread, Construct.Comment.read,
    if_neg (by simp [h])]
  rfl

/-- The second reading comes through the comments that a gap has got. -/
theorem Respaced.exists_run_front (h : Building.Respaced S m b b') {k : Trail}
    (hts : Tokens.Respaced S k ts us) :
    ∃ c us', run policy merge size b' us = run policy merge size c us' ∧
      Building.Respaced S m b c ∧ RespacedFront S k (skipTrivia ts) us' := by
  induction hts generalizing b' with
  | nil => exact ⟨b', [], rfl, h, .nil⟩
  | @token k t u ts us fits ht more _ =>
    rw [skipTrivia_of_not (S.not_trivia ht)]
    exact ⟨b', u :: us, rfl, h, .cons fits ht more⟩
  | @gap k gap gap' ts us hg more ih =>
    have hpassed := hg.passed
    have htight : S.IsStrict → ∀ t ∈ gap', t.kind.isTrivia = true := fun hs => hg.tight (hs _ _)
    rw [skipTrivia_append hg.trivia]
    clear hg
    -- one token of the gap after the other
    induction gap' generalizing b' with
    | nil => exact ih h
    | cons v gap' ihg =>
      have hpassed' : ∀ t ∈ gap', t.kind.isTrivia = true ∨ t.kind = .blockComment :=
        fun t ht => hpassed t (List.mem_cons_of_mem v ht)
      have htight' : S.IsStrict → ∀ t ∈ gap', t.kind.isTrivia = true :=
        fun hs t ht => htight hs t (List.mem_cons_of_mem v ht)
      rw [List.cons_append]
      rcases hpassed v List.mem_cons_self with hv | hv
      · rw [← run_skipTrivia, skipTrivia_of_trivia hv, run_skipTrivia]
        exact ihg h hpassed' htight'
      · have hs : ¬S.IsStrict := by
          intro hs
          have htrivia := htight hs v List.mem_cons_self
          rw [hv] at htrivia
          cases htrivia
        obtain ⟨d, hd, hrun⟩ : ∃ d : Draft, d.form = .plain .comment ∧
            run policy merge size b' (v :: (gap' ++ us))
              = run policy merge size (b'.emit d) (gap' ++ us) :=
          run_blockComment hv b' _
        rw [hrun]
        exact ihg (h.emit_comment hs hd) hpassed' htight'

/-- A reading without any complaint. -/
def RunsClean (policy : Recovery.Policy) (merge : Bool) (size : Nat) (b : Building)
    (ts : List Token) : Prop :=
  ∃ done, run policy merge size b ts = .ok done ∧ done.outline.diagnostics = #[]

/-- A clean reading reads its first construct, and goes on clean. -/
theorem RunsClean.exists_read {behind : List Token} {t : Token}
    (h : RunsClean policy merge size b ts) (front : skipTrivia ts = t :: behind) :
    ∃ item rest, Construct.read b.definitions merge t behind = .read item rest ∧
      RunsClean policy merge size (b.add size item) rest := by
  obtain ⟨done, hrun, hd⟩ := h
  obtain ⟨item, rest, hread, hmore⟩ := exists_read_of_run front hrun hd
  exact ⟨item, rest, hread, done, hmore, hd⟩

/-- Respaced tokens are read in step, either because no gap gets comments or because nothing is
wrong with the first reading. -/
theorem run_respaced (hr : S.Reads merge) (h : Building.Respaced S m b b')
    (hd : S.Heeds b.definitions) (hts : RespacedOn S ts us)
    (hclean : S.IsStrict ∨ RunsClean policy merge size b ts) :
    ExceptRel (fun f f' : Fault => f'.code = f.code)
      (fun r r' => ∃ more, Building.Respaced S (m ++ more) r r')
      (run policy merge size b ts) (run policy merge size' b' us) := by
  induction hn : ts.length using Nat.strongRecOn generalizing m b b' ts us with
  | ind n ih =>
    subst hn
    obtain ⟨k, hk, vs, ws, hvs, hws, hmore⟩ := hts
    obtain ⟨c, us', hrun, hc, hfront⟩ : ∃ c us',
        run policy merge size' b' ws = run policy merge size' c us' ∧
        Building.Respaced S m b c ∧ RespacedFront S k (skipTrivia vs) us' :=
      h.exists_run_front hmore
    have hus : run policy merge size' b' us = run policy merge size' c us' := by
      rw [← run_skipTrivia, hws, run_skipTrivia, hrun]
    rw [← hvs] at hfront
    rw [hus]
    cases hts : skipTrivia ts with
    | nil =>
      rw [hts] at hfront
      rw [run_of_nil hts, hfront.eq_nil, run_of_nil rfl]
      exact .ok ⟨[], (List.append_nil m).symm ▸ hc⟩
    | cons t behind =>
      rw [hts] at hfront
      obtain ⟨u, behind', rfl, fits, ht, hbehind⟩ := hfront.uncons
      have hread := Construct.read_respaced hr hd hk fits ht hbehind
      have hlt : (Construct.read b.definitions merge t behind).next.length < ts.length :=
        next_length_lt hts
      have hstep : S.IsStrict ∨ ∃ item rest,
          Construct.read b.definitions merge t behind = .read item rest ∧
          RunsClean policy merge size (b.add size item) rest :=
        hclean.imp_right fun hclean => hclean.exists_read hts
      rw [run_of_cons hts, run_of_cons hfront.skipTrivia_eq.2, hc.definitions]
      generalize Construct.read b.definitions merge t behind = o,
        Construct.read b.definitions merge u behind' = o' at hread hlt hstep ⊢
      have hnext := hread.next (hstep.imp_right fun ⟨item, rest, ho, _⟩ => ⟨item, rest, ho⟩)
      -- what the pass adds is the same, and so is what is left
      have hgo : ∀ {more : Numbering} {b₁ c₁ : Building},
          Building.Respaced S (m ++ more) b₁ c₁ → S.Heeds b₁.definitions →
          (S.IsStrict ∨ RunsClean policy merge size b₁ o.next) →
          ExceptRel (fun f f' : Fault => f'.code = f.code)
            (fun r r' => ∃ more, Building.Respaced S (m ++ more) r r')
            (run policy merge size b₁ o.next) (run policy merge size' c₁ o'.next) := by
        intro more b₁ c₁ hb₁ hd₁ hclean₁
        have hrel := ih _ hlt hb₁ hd₁ hnext hclean₁ rfl
        generalize run policy merge size b₁ o.next = r, run policy merge size' c₁ o'.next = r'
          at hrel ⊢
        cases hrel with
        | error hcode => exact .error hcode
        | ok hdone =>
          obtain ⟨more', hdone⟩ := hdone
          exact .ok ⟨more ++ more', List.append_assoc m more more' ▸ hdone⟩
      cases hread with
      | @read i i' rest rest' item _ =>
        obtain ⟨more, hadd⟩ : ∃ more,
            Building.Respaced S (m ++ more) (b.add size i) (c.add size' i') := hc.add item
        refine hgo hadd (Building.Respaced.heeds_add item hd) (hstep.imp_right ?_)
        rintro ⟨_, _, ⟨⟩, hclean'⟩
        exact hclean'
      | @failed f f' ended rest rest' code _ =>
        have hstrict : S.IsStrict := hstep.resolve_right (by rintro ⟨_, _, ⟨⟩, _⟩)
        cases policy with
        | strict => exact .error code
        | resync =>
          have hreport : Building.Respaced S (m ++ []) (b.report (f.diagnostic size))
              (c.report (f'.diagnostic size')) := (List.append_nil m).symm ▸ hc.report code
          exact hgo hreport hd (.inl hstrict)

end Building

/-! ## Whole headers -/

/-- Nothing is wrong with either outline of the start. -/
theorem Building.respaced_start (file file' : String) (source source' : Text) (ds : Definitions) :
    Building.Respaced S [Outline.root] (.start file source ds) (.start file' source' ds) where
  outline :=
    { length := rfl
      sorted := List.pairwise_singleton _ _
      root := rfl
      header := ⟨_, rfl, rfl⟩
      entity := by
        intro i j hij
        obtain ⟨rfl, rfl⟩ : i = 0 ∧ j = 0 := by
          cases i with
          | zero => exact ⟨rfl, (Option.some.inj hij).symm⟩
          | succ i => cases hij
        exact ⟨_, _, rfl, rfl, ⟨⟨rfl, S.name_refl _, fun _ => rfl, rfl, S.same_refl _, rfl, rfl,
          S.template_none, .none, .none⟩, S.name_refl _, rfl, .none⟩⟩
      other := by
        intro j e' he'
        cases j with
        | zero => exact .inl (List.mem_singleton_self _)
        | succ j => cases he'
      codes := rfl }
  scopes := ⟨.nil, rfl, rfl, rfl⟩
  pending := .none
  quiet := .inr rfl
  definitions := rfl

/-- Headers with respaced tokens have the same outline, up to texts that count as the same, or
the same fault. -/
theorem outlineOf_respaced {options : Options} {file file' : String} {source source' : Text}
    {ts us : List Token} (hr : S.Reads options.mergeLineComments)
    (hd : S.Heeds options.definitions) (hts : RespacedOn S ts us)
    (hclean : S.IsStrict ∨ ∃ o, outlineOf options file source ts = .ok o ∧ o.diagnostics = #[]) :
    ExceptRel (fun e e' : ParseError => e'.code = e.code)
      (fun o o' => ∃ m, Outline.Respaced S m o o')
      (outlineOf options file source ts) (outlineOf options file' source' us) := by
  have hclean' : S.IsStrict ∨ Building.RunsClean options.recovery options.mergeLineComments
      source.size (.start file source options.definitions) ts := by
    refine hclean.imp_right ?_
    rintro ⟨o, ho, hdiagnostics⟩
    unfold outlineOf at ho
    split at ho
    · next done hrun =>
      obtain rfl := Except.ok.inj ho
      exact ⟨done, hrun, done.diagnostics_finish ▸ hdiagnostics⟩
    · cases ho
  have hstart := Building.respaced_start (S := S) file file' source source' options.definitions
  have hrel : ExceptRel _ _
      (Building.run options.recovery options.mergeLineComments source.size _ ts)
      (Building.run options.recovery options.mergeLineComments source'.size _ us) :=
    Building.run_respaced hr hstart hd hts hclean'
  unfold outlineOf
  generalize Building.run _ _ source.size _ ts = r, Building.run _ _ source'.size _ us = r'
    at hrel ⊢
  cases hrel with
  | error hcode => exact .error hcode
  | ok hdone =>
    obtain ⟨more, hdone⟩ := hdone
    obtain ⟨more', ho⟩ := hdone.finish
    exact .ok ⟨_, ho⟩

end HeaderOutline
