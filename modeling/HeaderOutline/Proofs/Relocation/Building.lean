import HeaderOutline.Proofs.Cover
import HeaderOutline.Proofs.Links
import HeaderOutline.Proofs.Relocation.Run

/-! # Relocated outlines

A transfer carries the outlines of one header over into another one, in which the tokens stand at
other places and the entities may have other numbers (`Transfer`).  A transfer goes along with
attaching an entity and with adding a diagnostic; so it goes along with all that a reading adds
(`Transfer.add_building`), and **a reading of relocated tokens builds what is carried over**
(`Transfer.run_building`).
-/
namespace HeaderOutline

/-- What an entity says about itself to those that belong to it. -/
def Entity.title (e : Entity) : EntityKind × Text × Text := (e.kind, e.name, e.fullName)

namespace Outline

variable {o : Outline}

/-- The root is there, and neither its kind nor its names say more. -/
def HasRoot (o : Outline) : Prop := (o.get? root).map Entity.title = some (.root, [], [])

theorem HasRoot.root_lt (h : o.HasRoot) : root < o.entities.size := by
  obtain ⟨e, he, -⟩ := Option.map_eq_some_iff.mp h
  exact lt_size_of_get? he

theorem hasRoot_ofSource (file : String) (source : Text) : (ofSource file source).HasRoot := rfl

/-- Entities of the same title have the same full name. -/
theorem fullName_of_title {x y : Option Entity} (h : x.map Entity.title = y.map Entity.title) :
    x.map (·.fullName) = y.map (·.fullName) := by
  have hname := congrArg (Option.map (·.2.2)) h
  rw [Option.map_map, Option.map_map] at hname
  exact hname

/-- An entity that is added changes no title. -/
theorem title_attach_of_lt {i : EntityId} (hi : i < o.entities.size) (parent : EntityId)
    (e : Entity) : ((o.attach parent e).get? i).map Entity.title = (o.get? i).map Entity.title := by
  rw [get?_attach_of_lt hi, Option.map_map]
  refine Option.map_congr fun q _ => ?_
  show Entity.title (if _ then _ else _) = q.title
  split <;> rfl

theorem HasRoot.attach (h : o.HasRoot) (parent : EntityId) (e : Entity) :
    (o.attach parent e).HasRoot :=
  (title_attach_of_lt h.root_lt parent e).trans h

end Outline

namespace Building

variable {policy : Recovery.Policy} {merge : Bool} {size : Nat} {b done : Building}

theorem hasRoot_add (h : b.outline.HasRoot) (size : Nat) (item : Item) :
    (b.add size item).outline.HasRoot := by
  cases item with
  | close brace =>
    simp only [add]
    split <;> exact h
  | entity | scope | access | definition | suspect => exact h.attach _ _
  | documentation | linkage | nothing => exact h

theorem hasRoot_after {o : Outcome} (h : b.outline.HasRoot)
    (ha : b.after policy size o = .ok done) : done.outline.HasRoot := by
  obtain ⟨item, _, -, rfl⟩ | ⟨_, _, _, -, -, rfl⟩ := after_eq_ok ha
  · exact hasRoot_add h size item
  · exact h

/-- The root stays where it is in all states that a reading comes through. -/
theorem hasRoot_reaches {ts us : List Token} (h : b.outline.HasRoot)
    (hr : b.Reaches policy merge size ts done us) : done.outline.HasRoot := by
  induction hr with
  | refl => exact h
  | pass _ added _ ih => exact ih (hasRoot_after h added)

theorem hasRoot_run {ts : List Token} (h : b.outline.HasRoot)
    (hr : run policy merge size b ts = .ok done) : done.outline.HasRoot := by
  obtain ⟨us, hus, -⟩ := reaches_of_run hr
  exact hasRoot_reaches h hus

/-- Documentation that waits for an entity was found in the header. -/
def PendingPlaced (b : Building) : Prop := ∀ c ∈ b.pending, c.span.isSome = true

/-- A reading keeps the places of documentation. -/
theorem PendingPlaced.run {ts : List Token} (h : b.PendingPlaced)
    (hr : run policy merge size b ts = .ok done) : done.PendingPlaced := by
  refine pending_of_run h (fun ds t behind c rest _ ho => ?_) hr
  have hcovers := Construct.read_covers ds merge t behind
  rw [ho] at hcovers
  obtain ⟨-, last, -, hspan⟩ := hcovers
  rw [hspan]
  rfl

end Building

/-! ## Scopes under other numbers -/

/-- The scope of the entity that a number is changed for. -/
def Frame.renumber (number : EntityId → EntityId) (f : Frame) : Frame :=
  { f with entity := number f.entity }

namespace Scopes

variable (number : EntityId → EntityId) (s : Scopes)

/-- The scopes of the entities that the numbers are changed for. -/
def renumber : Scopes := ⟨s.inner.map (Frame.renumber number), s.outermost.renumber number⟩

@[simp] theorem current_renumber : (s.renumber number).current = s.current.renumber number := by
  unfold current renumber
  cases s.inner <;> rfl

theorem pushTransparent_renumber :
    (s.renumber number).pushTransparent = s.pushTransparent.renumber number := by
  rw [pushTransparent, current_renumber]
  rfl

theorem pop?_renumber : (s.renumber number).pop?
    = s.pop?.map (Prod.map (Frame.renumber number) (renumber number)) := by
  unfold pop? renumber
  cases s.inner <;> rfl

theorem setAccess_renumber (access : Access) :
    (s.renumber number).setAccess access = (s.setAccess access).renumber number := by
  unfold setAccess renumber
  cases s.inner <;> rfl

end Scopes

/-! ## Transfers -/

/-- What carries the outlines of one header over into another one. -/
structure Transfer where
  relocation : Relocation
  /-- The number of an entity in the other outline. -/
  number : EntityId → EntityId
  outline : Outline → Outline
  number_root : number Outline.root = Outline.root
  size_outline {o : Outline} (h : o.HasRoot) : (outline o).entities.size = number o.entities.size
  /-- Entities have their titles in the other outline. -/
  title_outline {o : Outline} (h : o.HasRoot) (p : EntityId) :
    ((outline o).get? (number p)).map Entity.title = (o.get? p).map Entity.title
  attach_outline {o : Outline} (h : o.HasRoot) (p : EntityId) {e : Entity}
    (he : e.children = #[]) :
    (outline o).attach (number p) (relocation.entity e) = outline (o.attach p e)
  report_outline (o : Outline) (d : Diagnostic) :
    (outline o).report (relocation.diagnostic d) = outline (o.report d)

namespace Transfer

variable (T : Transfer) {b done : Building} {policy : Recovery.Policy} {merge : Bool} {size : Nat}
  {ts : List Token}

/-- An outline under construction, carried over. -/
def building (b : Building) : Building where
  outline := T.outline b.outline
  scopes := b.scopes.renumber T.number
  pending := b.pending.map T.relocation.doc
  definitions := b.definitions

@[simp] theorem report_building (b : Building) (d : Diagnostic) :
    (T.building b).report (T.relocation.diagnostic d) = T.building (b.report d) := by
  rw [Building.report, building, T.report_outline]
  rfl

@[simp] theorem withScopes_building (b : Building) (scopes : Scopes) :
    (T.building b).withScopes (scopes.renumber T.number) = T.building (b.withScopes scopes) := rfl

/-- Of the enclosing entity only the title matters. -/
theorem toEntity_draft (d : Draft) {scope scope' : Entity} (h : scope'.title = scope.title)
    (access : Access) (comment : Option DocComment) :
    (T.relocation.draft d).toEntity scope' access (comment.map T.relocation.doc)
      = T.relocation.entity (d.toEntity scope access comment) := by
  obtain ⟨hkind, hname⟩ := Prod.mk.inj h
  have hform : d.form.kindIn scope' d.name = d.form.kindIn scope d.name := by
    unfold Form.kindIn
    rw [hkind, (Prod.mk.inj hname).1]
  simp only [Draft.toEntity, Relocation.draft, hform]
  rfl

theorem title_enclosing (h : b.outline.HasRoot) :
    (T.building b).enclosing.title = b.enclosing.title := by
  have htitle := congrArg (·.getD (default : Entity).title)
    (T.title_outline h b.scopes.current.entity)
  simp only [Option.getD_map] at htitle
  rw [Building.enclosing, show (T.building b).scopes.current = b.scopes.current.renumber T.number
    from Scopes.current_renumber T.number b.scopes]
  exact htitle

theorem emit_building (h : b.outline.HasRoot) (d : Draft) :
    (T.building b).emit (T.relocation.draft d) = T.building (b.emit d) := by
  have hcurrent : (T.building b).scopes.current = b.scopes.current.renumber T.number :=
    Scopes.current_renumber T.number b.scopes
  have hentity := T.toEntity_draft d (T.title_enclosing h) b.scopes.current.access b.pending
  rw [Building.emit, hcurrent]
  show ({ T.building b with
    outline := (T.outline b.outline).attach (T.number b.scopes.current.entity)
      ((T.relocation.draft d).toEntity (T.building b).enclosing b.scopes.current.access
        (b.pending.map T.relocation.doc))
    pending := none } : Building) = _
  rw [hentity, T.attach_outline h _ rfl]
  rfl

variable {T}

/-- **What is carried over is added to as the outline is**, if the item blames only tokens that are
kept. -/
theorem add_building (h : b.outline.HasRoot) {item : Item}
    (hk : ∀ t ∈ item.blamed, T.relocation.Keeps t) (size : Nat) :
    (T.building b).add (T.relocation.offset size) (T.relocation.item item)
      = T.building (b.add size item) := by
  cases item with
  | entity d => exact T.emit_building h d
  | scope d access =>
    have hnext : (T.building b).nextId = T.number b.nextId := T.size_outline h
    simp only [Relocation.item, Building.add, T.emit_building h, hnext]
    rfl
  | linkage =>
    simp only [Relocation.item, Building.add, ← withScopes_building]
    rw [← Scopes.pushTransparent_renumber]
    rfl
  | close brace =>
    have hreport := T.report_building b ((Warning.strayBrace brace).diagnostic size)
    rw [← Relocation.warning_diagnostic rfl (w := .strayBrace brace) hk] at hreport
    have hpop : (T.building b).scopes.pop? = _ := Scopes.pop?_renumber T.number b.scopes
    simp only [Relocation.item, Building.add, hpop]
    cases b.scopes.pop? with
    | none => exact hreport
    | some popped => rfl
  | access level d =>
    simp only [Relocation.item, Building.add]
    rw [show (T.building b).scopes = b.scopes.renumber T.number from rfl,
      Scopes.setAccess_renumber, withScopes_building]
    exact T.emit_building (b := b.withScopes (b.scopes.setAccess level)) h d
  | definition definition d =>
    exact T.emit_building (b := { b with definitions := b.definitions.define definition }) h d
  | suspect w d =>
    simp only [Relocation.item, Building.add, Relocation.warning_diagnostic rfl (w := w) hk,
      report_building]
    exact T.emit_building (b := b.report (w.diagnostic size)) h d
  | documentation comment => rfl
  | nothing => rfl

/-- What a pass adds is carried over. -/
theorem after_building (h : b.outline.HasRoot) {o : Outcome}
    (hk : ∀ t ∈ o.blamed, T.relocation.Keeps t) (ha : b.after policy size o = .ok done) :
    (T.building b).after policy (T.relocation.offset size) (T.relocation.outcome o)
      = .ok (T.building done) := by
  obtain ⟨item, rest, rfl, rfl⟩ | ⟨fault, ended, rest, rfl, rfl, rfl⟩ := Building.after_eq_ok ha
  · exact congrArg Except.ok (add_building h hk size)
  · have hreport := T.report_building b (fault.diagnostic size)
    rw [← Relocation.fault_diagnostic rfl hk] at hreport
    exact congrArg Except.ok hreport

/-- **A reading of relocated tokens** builds what is carried over, if all of them are kept. -/
theorem run_building (hk : ∀ t ∈ ts, T.relocation.Keeps t) (h : b.outline.HasRoot)
    (hr : b.run policy merge size ts = .ok done) :
    (T.building b).run policy merge (T.relocation.offset size) (ts.map T.relocation.token)
      = .ok (T.building done) := by
  induction b, ts using Building.run_induction merge with
  | nil b ts hnil =>
    obtain rfl := Except.ok.inj ((Building.run_of_nil hnil).symm.trans hr)
    apply Building.run_of_nil
    rw [Tokens.skipTrivia_map, hnil]
    rfl
  | cons b ts t behind front ih =>
    obtain ⟨b', ha, hr⟩ := Building.exists_after_of_run front hr
    have hsuffix : t :: behind <:+ ts := front ▸ Tokens.skipTrivia_suffix ts
    have hnext := Building.next_suffix_of_front b.definitions merge front
    have hblamed : ∀ u ∈ (Construct.read b.definitions merge t behind).blamed,
        T.relocation.Keeps u := by
      intro u hu
      rcases (Construct.read_blames b.definitions merge t behind).tokens u hu with hp | ⟨hm, -⟩
      · exact hk u (hsuffix.mem hp.mem)
      · exact hk u (hnext.mem (List.mem_of_mem_head? hm))
    have hread : Construct.read (T.building b).definitions merge (T.relocation.token t)
        (behind.map T.relocation.token)
          = T.relocation.outcome (Construct.read b.definitions merge t behind) :=
      Construct.read_relocated fun u hu => hk u (hsuffix.mem hu.mem)
    have hfront : Tokens.skipTrivia (ts.map T.relocation.token)
        = T.relocation.token t :: behind.map T.relocation.token := by
      rw [Tokens.skipTrivia_map, front]
      rfl
    rw [Building.run_of_cons hfront, hread, after_building h hblamed ha,
      Outcome.next_relocated]
    exact ih b' (fun u hu => hk u (hnext.mem hu)) (Building.hasRoot_after h ha) hr

theorem hasRoot_building (h : b.outline.HasRoot) : (T.building b).outline.HasRoot := by
  have htitle := T.title_outline h Outline.root
  rw [T.number_root] at htitle
  exact htitle.trans h

theorem pendingPlaced_building (h : b.PendingPlaced) : (T.building b).PendingPlaced := by
  intro c hc
  obtain ⟨c, hm, rfl⟩ := Option.map_eq_some_iff.mp hc
  rw [Relocation.doc, Option.isSome_map]
  exact h c hm

/-- What is made of documentation that nothing follows is carried over. -/
theorem finish_building (h : b.outline.HasRoot) (hp : b.PendingPlaced) :
    (T.building b).finish = T.outline b.finish := by
  unfold Building.finish
  rw [show (T.building b).pending = b.pending.map T.relocation.doc from rfl]
  cases hc : b.pending with
  | none => rfl
  | some c =>
    obtain ⟨s, hs⟩ := Option.isSome_iff_exists.mp (hp c hc)
    have htrailing : Building.trailing (T.relocation.doc c)
        = T.relocation.entity (Building.trailing c) := by
      simp only [Building.trailing, Relocation.doc, hs, Option.map_some, Option.getD_some,
        Relocation.entity]
      rfl
    have hattach := T.attach_outline h Outline.root (e := Building.trailing c) rfl
    rw [T.number_root] at hattach
    dsimp only [Option.map_some]
    rw [htrailing]
    exact hattach

end Transfer
end HeaderOutline
