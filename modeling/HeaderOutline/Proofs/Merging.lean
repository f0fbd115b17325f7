import HeaderOutline.Proofs.Origin

/-! # Lines of documentation, taken together or one by one

Lines of documentation that follow each other are one comment or several.  Where one reading
takes several lines in one pass, the other one takes each of them in a pass of its own, and
such a pass changes nothing but the documentation that waits (`Building.run_mergeLines`).
What is added does not depend on comments (`Building.add_withoutComments`), so that both
readings build the same but for these (`Building.run_withoutComments`).

At the end documentation may wait in one of the readings only, as an empty line takes the
place of what comes before it.  So the entity that it becomes is taken off again
(`Building.withoutTrailing_finish`).
-/
namespace HeaderOutline

/-! ## Outlines without comments -/

/-- An entity without its comment. -/
def Entity.withoutComment (e : Entity) : Entity := { e with comment := none }

/-- Changes that do not interfere can be made in either order. -/
theorem map_modify_comm {α : Type} {f g : α → α} (h : ∀ x, g (f x) = f (g x)) (xs : Array α)
    (i : Nat) : (xs.modify i f).map g = (xs.map g).modify i f := by
  refine Array.ext_getElem? fun k => ?_
  simp only [Array.getElem?_map, Array.getElem?_modify]
  split
  · cases xs[k]? with
    | none => rfl
    | some x => exact congrArg some (h x)
  · rfl

namespace Outline

/-- The outline without the comments of its entities. -/
def withoutComments (o : Outline) : Outline :=
  { o with entities := o.entities.map Entity.withoutComment }

variable (o : Outline)

@[simp] theorem size_entities_withoutComments :
    o.withoutComments.entities.size = o.entities.size :=
  Array.size_map

theorem get?_withoutComments (i : EntityId) :
    o.withoutComments.get? i = (o.get? i).map Entity.withoutComment :=
  Array.getElem?_map

@[simp] theorem withoutComments_withoutComments :
    o.withoutComments.withoutComments = o.withoutComments := by
  unfold withoutComments
  rw [Array.map_map]
  rfl

/-- An entity is added to an outline without comments as it is to the outline. -/
theorem attach_withoutComments (parent : EntityId) (e : Entity) :
    o.withoutComments.attach parent e.withoutComment = (o.attach parent e).withoutComments := by
  have hhost : o.withoutComments.hostOf parent = o.hostOf parent := by
    rw [hostOf, size_entities_withoutComments, hostOf]
  have hscope : (o.withoutComments.get? (o.hostOf parent)).map (·.fullName)
      = (o.get? (o.hostOf parent)).map (·.fullName) := by
    rw [get?_withoutComments, Option.map_map]
    rfl
  have hlinked := map_modify_comm (g := Entity.withoutComment)
    (f := fun p => { p with children := p.children.push o.entities.size }) (fun _ => rfl)
    o.entities (o.hostOf parent)
  unfold attach
  simp only [hhost, hscope, size_entities_withoutComments]
  simp only [withoutComments, Array.map_push, hlinked]
  rfl

end Outline

/-- Only documentation may be taken together. -/
theorem Construct.read_merge {t : Token} (hk : t.kind ≠ .docComment) (ds : Definitions)
    (merge : Bool) (rest : List Token) : read ds merge t rest = read ds false t rest := by
  have hdoc : ¬(t.kind == .docComment) = true := fun h => hk (eq_of_beq h)
  have hcomment : Comment.read merge t rest = Comment.read false t rest := by
    rw [Comment.read, Comment.read, if_neg hdoc, if_neg hdoc]
  unfold read
  rw [hcomment]

/-- The next line of documentation is what the next pass starts from. -/
theorem Construct.Comment.nextLine?_front {mark : Text} {ts after : List Token} {t : Token}
    (h : nextLine? mark ts = some (t, after)) : Tokens.skipTrivia ts = t :: after := by
  have hk := nextLine?_kind h
  obtain ⟨line, hline, hs⟩ := nextLine?_eq_some h
  obtain ⟨newline, hn, hskip⟩ := Tokens.eat?_eq_some_iff.mp hline
  calc Tokens.skipTrivia ts
      = Tokens.skipTrivia (newline :: line) := by rw [← Tokens.skipTrivia_skipSpace, hskip]
    _ = Tokens.skipTrivia (t :: after) := by
      rw [Tokens.skipTrivia_of_trivia (by rw [hn]; rfl), ← Tokens.skipTrivia_skipSpace line, hs]
    _ = t :: after := Tokens.skipTrivia_of_not (by rw [hk]; rfl)

namespace Building

variable {policy : Recovery.Policy} {merge : Bool} {size : Nat} {b b' : Building}
  {ts rest : List Token} {t : Token}

/-- What has been built, without comments, and without documentation that waits. -/
def withoutComments (b : Building) : Building :=
  { b with outline := b.outline.withoutComments, pending := none }

@[simp] theorem withoutComments_withoutComments (b : Building) :
    b.withoutComments.withoutComments = b.withoutComments := by
  have h := b.outline.withoutComments_withoutComments
  exact congrArg (fun o => { b with outline := o, pending := none }) h

/-- What an entity turns out to be does not depend on the comment of the enclosing one. -/
theorem emit_withoutComments (b : Building) (d : Draft) :
    b.withoutComments.emit d = (b.emit d).withoutComments := by
  have hscope : b.withoutComments.enclosing = b.enclosing.withoutComment := by
    have hget := b.outline.get?_withoutComments b.scopes.current.entity
    show (b.outline.withoutComments.get? b.scopes.current.entity).getD default = _
    rw [hget, enclosing]
    cases b.outline.get? b.scopes.current.entity <;> rfl
  have hentity : d.toEntity b.enclosing.withoutComment b.scopes.current.access none
      = (d.toEntity b.enclosing b.scopes.current.access b.pending).withoutComment := rfl
  have hattach := b.outline.attach_withoutComments b.scopes.current.entity
    (d.toEntity b.enclosing b.scopes.current.access b.pending)
  unfold emit
  rw [hscope]
  exact congrArg (fun o => { b with outline := o, pending := none }) (hentity ▸ hattach)

/-- **An item adds the same** to what has been built, whatever the comments. -/
theorem add_withoutComments (b : Building) (size : Nat) (item : Item) :
    (b.withoutComments.add size item).withoutComments = (b.add size item).withoutComments := by
  have hemit : ∀ (b : Building) (d : Draft),
      (b.withoutComments.emit d).withoutComments = (b.emit d).withoutComments := by
    intro b d
    rw [emit_withoutComments, withoutComments_withoutComments]
  cases item with
  | entity d => exact hemit b d
  | scope d access =>
    have hnext : b.withoutComments.nextId = b.nextId := b.outline.size_entities_withoutComments
    have hopened := congrArg (fun x : Building => x.withScopes (x.scopes.push b.nextId access))
      (hemit b d)
    simp only [add, hnext]
    exact hopened
  | access level d => exact hemit (b.withScopes (b.scopes.setAccess level)) d
  | definition definition d =>
    exact hemit { b with definitions := b.definitions.define definition } d
  | suspect warning d => exact hemit (b.report (warning.diagnostic size)) d
  | close brace =>
    simp only [add, show b.withoutComments.scopes = b.scopes from rfl]
    cases b.scopes.pop? with
    | none =>
      exact withoutComments_withoutComments (b.report ((Warning.strayBrace brace).diagnostic size))
    | some popped => exact withoutComments_withoutComments (b.withScopes popped.2)
  | linkage => exact withoutComments_withoutComments (b.withScopes b.scopes.pushTransparent)
  | documentation | nothing => exact withoutComments_withoutComments b

/-! ## Lines that follow each other -/

/-- A pass over a line of documentation. -/
theorem run_line (policy : Recovery.Policy) (size : Nat) (b : Building)
    (hk : t.kind = .docComment) (front : Tokens.skipTrivia ts = t :: rest) :
    ∃ c, run policy false size b ts = run policy false size (b.await c) rest := by
  have hread : Construct.read b.definitions false t rest
      = .read (.documentation (Construct.Comment.documentation t.text t t)) rest := by
    unfold Construct.read
    simp only [hk]
    simp [Construct.Comment.read, hk]
  rw [run_of_cons front, hread]
  exact ⟨_, rfl⟩

/-- **Lines that are taken together** in one reading are passed one by one in the other. -/
theorem run_mergeLines (policy : Recovery.Policy) (size : Nat) (b : Building) (mark raw : Text)
    (last : Token) (ts : List Token) :
    ∃ c, run policy false size b ts
      = run policy false size (b.await c) (Construct.Comment.mergeLines mark raw last ts).2.2 := by
  fun_induction Construct.Comment.mergeLines mark raw last ts generalizing b with
  | case1 raw last ts t after h ih =>
    have hk := Construct.Comment.nextLine?_kind h
    obtain ⟨c, hline⟩ := run_line policy size b hk (Construct.Comment.nextLine?_front h)
    obtain ⟨c', hmore⟩ := ih (b.await c)
    exact ⟨c', hline.trans hmore⟩
  | case2 => exact ⟨b.pending, rfl⟩

/-- A pass over documentation takes what several passes do that take one line each. -/
theorem exists_read_documentation (policy : Recovery.Policy) (size : Nat)
    (hk : t.kind = .docComment) (ds : Definitions) (merge : Bool) (rest : List Token) :
    ∃ c after, Construct.read ds merge t rest = .read (.documentation c) after ∧
      ∀ b : Building, ∃ c', run policy false size b rest
        = run policy false size (b.await c') after := by
  have hread : Construct.read ds merge t rest = Construct.Comment.read merge t rest := by
    unfold Construct.read
    simp only [hk]
  rw [hread, Construct.Comment.read, if_pos (beq_iff_eq.mpr hk)]
  split
  · next mark _ =>
    exact ⟨_, _, rfl, fun b => run_mergeLines policy size b mark t.text t rest⟩
  · exact ⟨_, _, rfl, fun b => ⟨b.pending, rfl⟩⟩

/-- **Two readings**, one of which takes lines of documentation together, end with the same
fault, or build the same but for comments. -/
theorem run_withoutComments (policy : Recovery.Policy) (merge : Bool) (size : Nat)
    (ts : List Token) (h : b.withoutComments = b'.withoutComments) :
    (run policy merge size b ts).map withoutComments
      = (run policy false size b' ts).map withoutComments := by
  induction b, ts using run_induction merge generalizing b' with
  | nil b ts hnil =>
    rw [run_of_nil hnil, run_of_nil hnil]
    exact congrArg Except.ok h
  | cons b ts t behind front ih =>
    have hds : b.withoutComments.definitions = b'.withoutComments.definitions := by rw [h]
    change b.definitions = b'.definitions at hds
    by_cases hk : t.kind = .docComment
    · obtain ⟨c, after, hread, hlines⟩ :=
        exists_read_documentation policy size hk b.definitions merge behind
      obtain ⟨c', hline⟩ := run_line policy size b' hk front
      obtain ⟨c'', hmore⟩ := hlines (b'.await c')
      rw [hread] at ih
      rw [run_of_cons front, hread, hline, hmore]
      exact ih (b.await c) h
    · have hread : Construct.read b'.definitions false t behind
          = Construct.read b.definitions merge t behind := by
        rw [hds, Construct.read_merge hk b'.definitions merge]
      rw [run_of_cons front, run_of_cons front, hread]
      cases ho : Construct.read b.definitions merge t behind with
      | failed fault ended rest =>
        rw [ho] at ih
        cases policy with
        | strict => rfl
        | resync =>
          exact ih (b.report (fault.diagnostic size))
            (congrArg (·.report (fault.diagnostic size)) h)
      | read item rest =>
        rw [ho] at ih
        refine ih (b.add size item) ?_
        rw [← add_withoutComments b, h, add_withoutComments]

end Building

/-! ## Documentation that nothing follows -/

namespace Outline

instance (o : Outline) (i : EntityId) : Decidable (o.IsTrailing i) :=
  decidable_of_iff
    (i + 1 = o.entities.size ∧ ∃ e ∈ o.get? i, ∃ c ∈ e.comment,
      e = { Building.trailing c with fullName := e.fullName, parent := some root }) <| by
    constructor
    · rintro ⟨hi, e, he, c, -, heq⟩
      exact ⟨hi, c, e.fullName, heq ▸ he⟩
    · rintro ⟨hi, c, full, he⟩
      exact ⟨hi, _, he, c, rfl, rfl⟩

/-- The outline without the entity that documentation has become which nothing followed, if
there is one. -/
def withoutTrailing (o : Outline) : Outline :=
  if o.IsTrailing o.size then
    { o with
      entities := o.entities.pop.modify root fun r => { r with children := r.children.pop } }
  else o

/-- What is attached last is taken off again. -/
theorem withoutTrailing_attach (o : Outline) (c : DocComment) :
    (o.attach root (Building.trailing c)).withoutTrailing = o := by
  have hsize : (o.attach root (Building.trailing c)).size = o.entities.size := by
    rw [size, size_entities_attach, Nat.add_sub_cancel]
  rw [withoutTrailing, if_pos (hsize ▸ o.isTrailing_attach c)]
  have hhost : o.hostOf root = root := ite_self _
  have hentities : (o.entities.modify root fun p =>
      { p with children := p.children.push o.entities.size }).modify root
        (fun r => { r with children := r.children.pop }) = o.entities := by
    refine Array.ext_getElem? fun k => ?_
    rw [Array.getElem?_modify, Array.getElem?_modify]
    split
    · cases o.entities[k]? <;> simp
    · rfl
  simp only [attach, hhost, Array.pop_push, hentities]

end Outline

namespace Building

/-- Documentation that an entity carries stands in front of it. -/
theorem InOrder.not_isTrailing {b : Building} {ts : List Token} (h : b.InOrder ts) (i : EntityId) :
    ¬b.outline.IsTrailing i := by
  rintro ⟨-, c, full, he⟩
  cases i with
  | zero => cases h.rooted.comment_eq_none he
  | succ k =>
    -- its own place would end before it starts
    have hcovered : [c.place, c.place] ∈ b.outline.covered :=
      List.mem_of_getElem? (by rw [Outline.covered_getElem?, he]; rfl)
    have hord : Span.Ordered b.outline.covered.flatten :=
      h.ordered.sublist ((List.sublist_append_left ..).trans (List.sublist_append_left ..))
    have hapart := (List.pairwise_flatten.mp hord.apart).1 _ hcovered
    have hle : c.place.stop.offset ≤ c.place.start.offset :=
      (List.pairwise_cons.mp hapart).1 c.place List.mem_cons_self
    have hlt := hord.nonempty c.place (List.mem_flatten_of_mem hcovered List.mem_cons_self)
    omega

/-- What is built last is taken off again. -/
theorem withoutTrailing_finish {b : Building} (h : b.InOrder []) :
    b.finish.withoutTrailing = b.outline := by
  unfold finish
  cases b.pending with
  | some c => exact b.outline.withoutTrailing_attach c
  | none => rw [Outline.withoutTrailing, if_neg (h.not_isTrailing _)]

end Building

/-- But for comments, an outline is what has been built when all is read. -/
theorem map_outlineOf (options : Options) (file : String) (source : Text) {ts : List Token}
    (h : Span.Ordered (ts.map Token.span)) :
    (outlineOf options file source ts).map (·.withoutTrailing.withoutComments)
      = (((Building.start file source options.definitions).run options.recovery
          options.mergeLineComments source.size ts).map Building.withoutComments |>.map
            Building.outline).mapError
              fun fault => .construct file (fault.diagnostic source.size) := by
  cases hr : (Building.start file source options.definitions).run options.recovery
      options.mergeLineComments source.size ts with
  | error fault =>
    rw [outlineOf_of_error hr]
    rfl
  | ok b =>
    have hdone := (Building.inOrder_start file source options.definitions h).run hr
    rw [outlineOf_of_ok hr, Except.map, Building.withoutTrailing_finish hdone]
    rfl

/-- **Taking lines of documentation together changes nothing but comments.**  Whether lines are
taken together or not, a header ends with the same error, or its outlines are the same, all
diagnostics included, but for the comments of entities and for an entity at the end which is
nothing but documentation. -/
theorem parse_mergeLineComments [Alphabet] (options : Options) (file : String) (source : Text)
    (merge merge' : Bool) :
    (parse { options with mergeLineComments := merge } file source).map
        (·.withoutTrailing.withoutComments)
      = (parse { options with mergeLineComments := merge' } file source).map
        (·.withoutTrailing.withoutComments) := by
  -- what either reading leads to can be told from that which takes each line by itself
  suffices h : ∀ merge, (parse { options with mergeLineComments := merge } file source).map
      (·.withoutTrailing.withoutComments)
        = (parse { options with mergeLineComments := false } file source).map
          (·.withoutTrailing.withoutComments) from (h merge).trans (h merge').symm
  intro merge
  rw [parse_eq, parse_eq]
  dsimp only
  split
  · rfl
  · next hany =>
    rw [ParseError.ofTokens?_scan] at hany
    have hord := Token.ordered_scan hany
    have hrun := Building.run_withoutComments options.recovery merge source.size
      (Token.scan options.limits source).dropLast
      (Eq.refl (Building.start file source options.definitions).withoutComments)
    rw [map_outlineOf _ _ _ hord, map_outlineOf _ _ _ hord]
    exact congrArg (Except.mapError _) (congrArg (Except.map Building.outline) hrun)

/-- An empty line that is taken by itself leaves no documentation at the end. -/
example :
    let source : Text := "int x;\n/// a\n///\n".toList
    (parse { Options.standard with mergeLineComments := true } "a.h" source).toOption.map
        Outline.size = some 2 ∧
      (parse { Options.standard with mergeLineComments := false } "a.h" source).toOption.map
        Outline.size = some 1 := by
  decide +kernel

end HeaderOutline
