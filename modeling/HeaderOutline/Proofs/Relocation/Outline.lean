import HeaderOutline.Proofs.Relocation.Building

/-! # Outlines of relocated tokens

A relocation into another text carries an outline over as it is: under their numbers the entities
stand at the places that theirs move to (`Relocation.outline`).  That is a transfer
(`Relocation.transfer`), which takes the beginning of a reading to that of the other text
(`Relocation.building_start`).
-/
namespace HeaderOutline

/-- A change made before or after a function is applied to all elements. -/
theorem map_modify {α β : Type} {f : α → α} {k : β → β} {g : α → β}
    (h : ∀ x, g (f x) = k (g x)) (xs : Array α) (i : Nat) :
    (xs.modify i f).map g = (xs.map g).modify i k := by
  refine Array.ext_getElem? fun j => ?_
  rw [Array.getElem?_map, Array.getElem?_modify, Array.getElem?_modify, Array.getElem?_map]
  split
  · cases xs[j]? with
    | none => rfl
    | some x => exact congrArg some (h x)
  · rfl

namespace Relocation

variable (r : Relocation) (s : Text)

/-- An outline of the text that the tokens are put into. -/
def outline (o : Outline) : Outline :=
  ⟨o.file, s, o.entities.map r.entity, o.diagnostics.map r.diagnostic⟩

@[simp] theorem get?_outline (o : Outline) (id : EntityId) :
    (r.outline s o).get? id = (o.get? id).map r.entity :=
  Array.getElem?_map ..

@[simp] theorem size_entities_outline (o : Outline) :
    (r.outline s o).entities.size = o.entities.size :=
  Array.size_map ..

theorem outline_attach (o : Outline) (parent : EntityId) (e : Entity) :
    (r.outline s o).attach parent (r.entity e) = r.outline s (o.attach parent e) := by
  have hhost : (r.outline s o).hostOf parent = o.hostOf parent := by
    rw [Outline.hostOf, size_entities_outline, Outline.hostOf]
  have hscope : (((r.outline s o).get? (o.hostOf parent)).map (·.fullName)).getD []
      = ((o.get? (o.hostOf parent)).map (·.fullName)).getD [] := by
    rw [get?_outline, Option.map_map]
    rfl
  have hlinked := map_modify (g := r.entity)
    (f := fun p => { p with children := p.children.push o.entities.size })
    (k := fun p => { p with children := p.children.push o.entities.size })
    (fun _ => rfl) o.entities (o.hostOf parent)
  unfold Outline.attach
  simp only [hhost, hscope, size_entities_outline]
  simp only [outline, Array.map_push, hlinked]
  rfl

theorem outline_report (o : Outline) (d : Diagnostic) :
    (r.outline s o).report (r.diagnostic d) = r.outline s (o.report d) := by
  simp only [outline, Outline.report, Array.map_push]

/-- The entities keep their numbers. -/
def transfer : Transfer where
  relocation := r
  number := id
  outline := r.outline s
  number_root := id_eq Outline.root
  size_outline {o} _ := r.size_entities_outline s o
  title_outline {o} _ p := by
    show ((r.outline s o).get? p).map Entity.title = _
    rw [get?_outline, Option.map_map]
    rfl
  attach_outline {o} _ p e _ := r.outline_attach s o p e
  report_outline := r.outline_report s

variable {r s}

/-- The beginning of a reading is carried over to that of the other text. -/
theorem building_start {source : Text} (horigin : r.place .origin = .origin)
    (hend : r.place (Position.origin.advance source) = Position.origin.advance s) (file : String)
    (ds : Definitions) :
    (r.transfer s).building (.start file source ds) = .start file s ds := by
  have hspan : r.span .origin = .origin := by
    rw [span, Span.origin, horigin]
  have hroot : r.entity (Outline.rootEntity source) = Outline.rootEntity s := by
    simp only [entity, Outline.rootEntity, span, horigin, hend]
    rfl
  have houtline : r.outline s (.ofSource file source) = .ofSource file s := by
    simp only [outline, Outline.ofSource, List.map_toArray, List.map_cons, List.map_nil, hroot]
  exact congrArg (fun o => Building.mk o (.ofRoot Outline.root) none ds) houtline

end Relocation
end HeaderOutline
