import HeaderOutline.Proofs.Blame
import HeaderOutline.Proofs.Relocation.Outline
import HeaderOutline.Proofs.Revision

/-! # Revised readings

The reading of revised tokens keeps step with that of the header: what has been built is
the revised outline (`Revision.building`), as long as no pass takes the comment itself
(`Revision.reaches_revised`).  A pass that finds fault names only tokens that are kept,
since a block of documentation is not blamed before it is passed.
-/
namespace HeaderOutline

namespace Revision

variable (r : Revision)

/-! ## Revised outlines -/

/-- An outline of the revised header. -/
def outline (o : Outline) : Outline :=
  ⟨o.file, r.revised, o.entities.map r.relocation.entity,
    o.diagnostics.map r.relocation.diagnostic⟩

/-- An outline under construction. -/
def building (b : Building) : Building :=
  { b with outline := r.outline b.outline, pending := b.pending.map r.relocation.doc }

theorem place_end : r.place (Position.origin.advance r.source)
    = Position.origin.advance r.revised :=
  r.edit.place_end

theorem offset_end : r.offset r.source.size = r.revised.size := r.edit.offset_end

@[simp] theorem span_origin : r.relocation.span .origin = .origin := by
  rw [Relocation.span, Span.origin, place_relocation, place_origin]

@[simp] theorem get?_outline (o : Outline) (id : EntityId) :
    (r.outline o).get? id = (o.get? id).map r.relocation.entity :=
  r.relocation.get?_outline r.revised o id

@[simp] theorem size_entities_outline (o : Outline) :
    (r.outline o).entities.size = o.entities.size :=
  r.relocation.size_entities_outline r.revised o

@[simp] theorem outline_attach (o : Outline) (parent : EntityId) (e : Entity) :
    (r.outline o).attach parent (r.relocation.entity e) = r.outline (o.attach parent e) :=
  r.relocation.outline_attach r.revised o parent e

@[simp] theorem outline_report (o : Outline) (d : Diagnostic) :
    (r.outline o).report (r.relocation.diagnostic d) = r.outline (o.report d) :=
  r.relocation.outline_report r.revised o d

/-- A revision carries the outlines of the header over into those of the revised one. -/
def transfer : Transfer where
  relocation := r.relocation
  number := id
  outline := r.outline
  number_root := id_eq Outline.root
  size_outline {o} _ := r.size_entities_outline o
  title_outline {o} _ p := by
    show ((r.outline o).get? p).map Entity.title = _
    rw [get?_outline, Option.map_map]
    rfl
  attach_outline {o} _ p e _ := r.outline_attach o p e
  report_outline := r.outline_report

theorem building_transfer (b : Building) : r.transfer.building b = r.building b := by
  have hframe : Frame.renumber r.transfer.number = id := rfl
  rw [Transfer.building, Scopes.renumber, hframe, List.map_id]
  rfl

/-! ## Revised passes -/

variable {r}

/-- What a pass adds to the revised outline, if no token is blamed that is not kept. -/
theorem building_after {o : Outcome} {policy : Recovery.Policy} {b b' : Building}
    (hroot : b.outline.HasRoot) (h : ∀ t ∈ o.blamed, r.relocation.Keeps t)
    (ha : b.after policy r.source.size o = .ok b') :
    (r.building b).after policy r.revised.size (r.relocation.outcome o) = .ok (r.building b') := by
  have hafter := Transfer.after_building (T := r.transfer) hroot h ha
  rw [building_transfer, building_transfer] at hafter
  rw [← r.offset_end]
  exact hafter

theorem comment_isBlockDoc (r : Revision) : r.comment.IsBlockDoc := ⟨rfl, r.old_opens⟩

/-- All tokens but the comment are kept. -/
def KeepsOthers (r : Revision) (ts : List Token) : Prop :=
  ∀ t ∈ ts, t ≠ r.comment → r.relocation.Keeps t

variable {policy : Recovery.Policy} {merge : Bool} {b b' : Building}
  {ts us behind : List Token} {t : Token}

theorem KeepsOthers.leave (h : r.KeepsOthers ts) (hs : us <:+ ts) : r.KeepsOthers us :=
  fun t ht => h t (hs.subset ht)

/-- **One pass.**  A construct that does not pass the comment does with revised tokens what
it does with the others. -/
theorem after_revised (hroot : b.outline.HasRoot) (hall : r.KeepsOthers (t :: behind))
    (hleft : ¬ Passed (t :: behind) (Construct.read b.definitions merge t behind).next r.comment)
    (added : b.after policy r.source.size (Construct.read b.definitions merge t behind) = .ok b') :
    Construct.read b.definitions merge (r.token t) (behind.map r.token)
        = r.relocation.outcome (Construct.read b.definitions merge t behind) ∧
      (r.building b).after policy r.revised.size
        (r.relocation.outcome (Construct.read b.definitions merge t behind))
          = .ok (r.building b') := by
  have hpassed : ∀ x, Passed (t :: behind) (Construct.read b.definitions merge t behind).next x →
      r.relocation.Keeps x := fun x hx => hall x hx.mem (by rintro rfl; exact hleft hx)
  refine ⟨Construct.read_relocated fun x hx => hpassed x (hx.leave (Outcome.next_suffix _)), ?_⟩
  refine building_after hroot (fun x hx => ?_) added
  rcases (Construct.read_blames b.definitions merge t behind).tokens x hx with hp | ⟨hm, hd⟩
  · exact hpassed x hp
  · have hs : (Construct.read b.definitions merge t behind).next <:+ t :: behind :=
      (Building.next_suffix _ _ t behind).trans (List.suffix_cons t behind)
    refine hall x (hs.subset (List.mem_of_mem_head? hm)) ?_
    rintro rfl
    exact hd r.comment_isBlockDoc

/-- **A reading up to the comment** goes through the same states with revised tokens. -/
theorem reaches_revised (hroot : b.outline.HasRoot)
    (hr : b.Reaches policy merge r.source.size ts b' us) (hall : r.KeepsOthers ts)
    (hleft : ¬ Passed ts us r.comment) :
    (r.building b).Reaches policy merge r.revised.size (ts.map r.token) (r.building b')
      (us.map r.token) := by
  induction hr with
  | refl => exact .refl _ _
  | @pass b b₁ b₂ ts behind us t front added more ih =>
    have hfront : t :: behind <:+ ts := front ▸ Tokens.skipTrivia_suffix ts
    have hback : (Construct.read b.definitions merge t behind).next <:+ ts :=
      Building.next_suffix_of_front _ _ front
    obtain ⟨hread, hafter⟩ := after_revised hroot (hall.leave hfront)
      (fun hp => hleft ((hp.leave more.suffix).within hfront)) added
    have hmore := ih (Building.hasRoot_after hroot added) (hall.leave hback) fun hp =>
      hleft (hp.within hback)
    have hskip : Tokens.skipTrivia (ts.map r.token) = r.token t :: behind.map r.token := by
      rw [Tokens.skipTrivia_map, front]
      rfl
    have hread : Construct.read (r.building b).definitions merge (r.token t)
        (behind.map r.token)
          = r.relocation.outcome (Construct.read b.definitions merge t behind) := hread
    rw [← hread] at hafter
    refine .pass hskip hafter ?_
    rw [hread, Outcome.next_relocated]
    exact hmore

/-- **A whole reading** that does not come across the comment builds the revised outline. -/
theorem run_revised {done : Building} (hroot : b.outline.HasRoot) (h : r.KeepsOthers ts)
    (hc : r.comment ∉ ts)
    (hr : b.run policy merge r.source.size ts = .ok done) :
    (r.building b).run policy merge r.revised.size (ts.map r.token) = .ok (r.building done) := by
  obtain ⟨us, hus, hend⟩ := Building.reaches_of_run hr
  rw [(reaches_revised hroot hus h fun hp => hc hp.mem).run_eq]
  refine Building.run_of_nil ?_
  rw [Tokens.skipTrivia_map, hend]
  rfl

@[simp] theorem outline_finish (r : Revision) (b : Building) :
    (r.building b).finish = r.outline b.finish := by
  unfold Building.finish
  rw [show (r.building b).pending = b.pending.map r.relocation.doc from rfl]
  cases b.pending with
  | none => rfl
  | some c =>
    have htrailing : Building.trailing (r.relocation.doc c)
        = r.relocation.entity (Building.trailing c) := by
      have hplace : (r.relocation.doc c).span.getD .origin
          = r.relocation.span (c.span.getD .origin) := by
        cases hc : c.span with
        | none => simp [Relocation.doc, hc]
        | some s => simp [Relocation.doc, hc]
      simp only [Building.trailing, hplace]
      rfl
    show (r.outline b.outline).attach Outline.root (Building.trailing (r.relocation.doc c)) = _
    rw [htrailing, outline_attach]

end Revision
end HeaderOutline
