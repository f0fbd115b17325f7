import HeaderOutline.Proofs.Relocation.Building
import HeaderOutline.Proofs.Sequel.Scan

/-! # One outline behind another

The outline of a text and that of what follows it make up one of both (`Outline.followedBy`): the
entities of the second one come behind those of the first, under greater numbers and at the places
that theirs have in the whole, and have the same root.  Both parts of it go along with attaching and
reporting, and so are transfers: putting entities behind others (`Transfer.behind`), and having the
root cover a larger text (`Transfer.covering`).
-/
namespace HeaderOutline

namespace Outline

/-! ## Entities behind others -/

/-- The number that an entity of another outline gets behind those of this one.  The roots are
one. -/
def numberBehind (o : Outline) (id : Nat) : Nat := if id = root then root else o.size + id

/-- An entity of another outline behind those of this one. -/
def entityBehind (o : Outline) (e : Entity) : Entity :=
  { (Relocation.behind o.source).entity e with
    parent := e.parent.map o.numberBehind
    children := e.children.map o.numberBehind }

/-- An entity with children of another outline behind its own ones. -/
def adopting (o : Outline) (children : List EntityId) (e : Entity) : Entity :=
  { e with children := e.children ++ (children.map o.numberBehind).toArray }

/-- An outline with the entities and the diagnostics of another one behind its own. -/
def joined (o o' : Outline) : Outline :=
  { o with
    entities := o.entities.modify root (o.adopting (o'.children root))
      ++ (o'.entities.extract 1).map o.entityBehind
    diagnostics := o.diagnostics
      ++ o'.diagnostics.map (Relocation.behind o.source).diagnostic }

/-- The root of a larger text. -/
def spanning (s : Text) (e : Entity) : Entity :=
  { e with sourceRange := (rootEntity s).sourceRange, headerRange := (rootEntity s).headerRange }

/-- An outline as that of a larger text, which its root covers. -/
def covering (s : Text) (o : Outline) : Outline :=
  { o with source := s, entities := o.entities.modify root (spanning s) }

/-- The outline of a text and that of what follows it, in one: the entities of the second one come
behind those of the first and have the same root, which covers both texts. -/
def followedBy (o o' : Outline) : Outline := (o.joined o').covering (o.source ++ o'.source)

variable {o o' : Outline} {i j : Nat}

/-- Outlines are equal if they hold the same. -/
theorem ext_get? (hfile : o.file = o'.file) (hsource : o.source = o'.source)
    (hdiagnostics : o.diagnostics = o'.diagnostics) (hget : ∀ i, o.get? i = o'.get? i) :
    o = o' := by
  obtain ⟨file, source, entities, diagnostics⟩ := o
  obtain ⟨file', source', entities', diagnostics'⟩ := o'
  obtain rfl : file = file' := hfile
  obtain rfl : source = source' := hsource
  obtain rfl : diagnostics = diagnostics' := hdiagnostics
  obtain rfl : entities = entities' := Array.ext_getElem? hget
  rfl

theorem size_add_one (h : o.HasRoot) : o.size + 1 = o.entities.size := by
  have hpos : 0 < o.entities.size := h.root_lt
  rw [size]
  omega

@[simp] theorem numberBehind_root (o : Outline) : o.numberBehind root = root := if_pos rfl

theorem numberBehind_succ (o : Outline) (k : Nat) : o.numberBehind (k + 1) = o.size + (k + 1) :=
  if_neg (Nat.succ_ne_zero k)

theorem numberBehind_inj : o.numberBehind i = o.numberBehind j ↔ i = j := by
  constructor
  · intro h
    rcases i with _ | i <;> rcases j with _ | j
    · rfl
    · rw [show o.numberBehind 0 = 0 from o.numberBehind_root, numberBehind_succ] at h
      omega
    · rw [show o.numberBehind 0 = 0 from o.numberBehind_root, numberBehind_succ] at h
      omega
    · rw [numberBehind_succ, numberBehind_succ] at h
      omega
  · rintro rfl
    rfl

/-- Behind the entities of an outline, the root apart, no number is one of theirs. -/
theorem cases_number (h : o.HasRoot) (i : Nat) :
    i = root ∨ (0 < i ∧ i < o.entities.size) ∨ ∃ k, i = o.numberBehind (k + 1) := by
  have hsize := size_add_one h
  rcases i with _ | i
  · exact .inl rfl
  · by_cases hi : i + 1 < o.entities.size
    · exact .inr (.inl ⟨Nat.succ_pos i, hi⟩)
    · refine .inr (.inr ⟨i - o.size, ?_⟩)
      rw [numberBehind_succ]
      omega

/-! ## What joined outlines hold -/

theorem size_joined (h : o.HasRoot) (h' : o'.HasRoot) :
    (o.joined o').entities.size = o.numberBehind o'.entities.size := by
  have hsize := size_add_one h
  have hsize' := size_add_one h'
  rw [← hsize', numberBehind_succ]
  simp only [joined, Array.size_append, Array.size_modify, Array.size_map, Array.size_extract]
  omega

theorem get?_joined_root (h : o.HasRoot) (o' : Outline) :
    (o.joined o').get? root = (o.get? root).map (o.adopting (o'.children root)) := by
  have hlt : root < (o.entities.modify root (o.adopting (o'.children root))).size := by
    rw [Array.size_modify]
    exact h.root_lt
  rw [get?, joined, Array.getElem?_append_left hlt, Array.getElem?_modify, if_pos rfl, get?]

theorem get?_joined_front (h0 : 0 < i) (h : i < o.entities.size) (o' : Outline) :
    (o.joined o').get? i = o.get? i := by
  have hlt : i < (o.entities.modify root (o.adopting (o'.children root))).size := by
    rw [Array.size_modify]
    exact h
  rw [get?, joined, Array.getElem?_append_left hlt, Array.getElem?_modify,
    if_neg (show root ≠ i from Nat.ne_of_lt h0), get?]

theorem get?_joined_behind (h : o.HasRoot) (o' : Outline) (k : Nat) :
    (o.joined o').get? (o.numberBehind (k + 1)) = (o'.get? (k + 1)).map o.entityBehind := by
  have hsize := size_add_one h
  have hk : o.numberBehind (k + 1) = o.entities.size + k := by
    rw [numberBehind_succ]
    omega
  have hextract : (o'.entities.extract 1)[k]? = o'.get? (k + 1) := by
    rw [Array.getElem?_extract, get?, Nat.add_comm 1 k, Nat.min_self]
    split
    · rfl
    · rw [Array.getElem?_eq_none (by omega)]
  rw [get?, joined, hk, Array.getElem?_append_right (by simp), Array.size_modify,
    Nat.add_sub_cancel_left, Array.getElem?_map, hextract]

/-! ## Attaching -/

/-- Entities of the other outline keep their titles; those of the roots are the same. -/
theorem title_joined (h : o.HasRoot) (h' : o'.HasRoot) (p : Nat) :
    ((o.joined o').get? (o.numberBehind p)).map Entity.title = (o'.get? p).map Entity.title := by
  rcases p with _ | p
  · rw [show o.numberBehind 0 = root from o.numberBehind_root, get?_joined_root h, Option.map_map]
    exact h.trans h'.symm
  · rw [get?_joined_behind h, Option.map_map]
    rfl

theorem hostOf_joined (h : o.HasRoot) (h' : o'.HasRoot) (p : Nat) :
    (o.joined o').hostOf (o.numberBehind p) = o.numberBehind (o'.hostOf p) := by
  have hsize' := size_add_one h'
  unfold hostOf
  rw [size_joined h h', ← hsize', numberBehind_succ]
  rcases p with _ | p
  · rw [show o.numberBehind 0 = root from o.numberBehind_root,
      if_pos (show root < o.size + (o'.size + 1) from Nat.succ_pos _),
      if_pos (Nat.succ_pos _)]
    exact o.numberBehind_root.symm
  · rw [numberBehind_succ]
    by_cases hp : p + 1 < o'.size + 1
    · rw [if_pos hp, if_pos (Nat.add_lt_add_left hp _), numberBehind_succ]
    · rw [if_neg hp, if_neg fun hlt => hp (Nat.lt_of_add_lt_add_left hlt), numberBehind_root]

theorem numberBehind_eq_root_iff : o.numberBehind i = root ↔ i = root := by
  rw [← numberBehind_inj (o := o) (i := i), numberBehind_root]

/-- The root gets one child more if the entity belongs to it. -/
theorem get?_joined_attach_root (h : o.HasRoot) (h' : o'.HasRoot) (p : Nat) (e e' : Entity) :
    ((o.joined o').attach (o.numberBehind p) e').get? root
      = (o.joined (o'.attach p e)).get? root := by
  have hlt : root < (o.joined o').entities.size := by
    rw [size_joined h h', ← size_add_one h', numberBehind_succ]
    exact Nat.succ_pos _
  rw [get?_attach_of_lt hlt, hostOf_joined h h', size_joined h h', get?_joined_root h,
    get?_joined_root h, children_attach_of_lt p e h'.root_lt, Option.map_map]
  refine Option.map_congr fun q _ => ?_
  by_cases hp : o'.hostOf p = root
  · simp [hp, adopting]
  · have hnumber : o.numberBehind (o'.hostOf p) ≠ root := fun hr =>
      hp (numberBehind_eq_root_iff.mp hr)
    simp [hp, hnumber, adopting]

/-- The entities of the first outline stay as they are. -/
theorem get?_joined_attach_front (h : o.HasRoot) (h' : o'.HasRoot) (p : Nat) (e e' : Entity)
    (h0 : 0 < i) (hi : i < o.entities.size) :
    ((o.joined o').attach (o.numberBehind p) e').get? i = (o.joined (o'.attach p e)).get? i := by
  have hsize := size_add_one h
  have hlt : i < (o.joined o').entities.size := by
    rw [size_joined h h', ← size_add_one h', numberBehind_succ]
    omega
  have hhost : o.numberBehind (o'.hostOf p) ≠ i := by
    rcases o'.hostOf p with _ | q
    · exact Nat.ne_of_lt h0
    · rw [numberBehind_succ]
      omega
  rw [get?_attach_of_lt hlt, hostOf_joined h h', get?_joined_front h0 hi,
    get?_joined_front h0 hi]
  simp [hhost]

/-- An entity of the other outline gets one child more if the new one belongs to it. -/
theorem get?_joined_attach_behind (h : o.HasRoot) (h' : o'.HasRoot) (p : Nat) {e : Entity}
    (he : e.children = #[]) (k : Nat) :
    ((o.joined o').attach (o.numberBehind p) ((Relocation.behind o.source).entity e)).get?
        (o.numberBehind (k + 1))
      = (o.joined (o'.attach p e)).get? (o.numberBehind (k + 1)) := by
  have hsize := size_joined h h'
  have hhost := hostOf_joined h h' p
  have hsize' := size_add_one h'
  rw [get?_joined_behind h]
  rcases Nat.lt_trichotomy (k + 1) o'.entities.size with hk | hk | hk
  · have hlt : o.numberBehind (k + 1) < (o.joined o').entities.size := by
      rw [hsize, ← hsize', numberBehind_succ, numberBehind_succ]
      omega
    rw [get?_attach_of_lt hlt, hhost, hsize, get?_joined_behind h, get?_attach_of_lt hk,
      Option.map_map, Option.map_map]
    refine Option.map_congr fun q _ => ?_
    by_cases hq : o'.hostOf p = k + 1
    · simp [hq, entityBehind, Relocation.entity]
    · have hnumber : o.numberBehind (o'.hostOf p) ≠ o.numberBehind (k + 1) := fun hr =>
        hq (numberBehind_inj.mp hr)
      simp [hq, hnumber]
  · have hname := fullName_of_title (title_joined h h' (o'.hostOf p))
    rw [hk, ← hsize, get?_attach_size, get?_attach_size, hhost, hname]
    simp only [Option.map_some, entityBehind, Relocation.entity, he, Array.map_empty]
  · have hleft : (o.joined o').entities.size + 1 ≤ o.numberBehind (k + 1) := by
      rw [hsize, ← hsize', numberBehind_succ, numberBehind_succ]
      omega
    rw [get?, Array.getElem?_eq_none (by rw [size_entities_attach]; exact hleft), get?,
      Array.getElem?_eq_none (by rw [size_entities_attach]; exact hk)]
    rfl

/-- **Putting entities behind others goes along with attaching.** -/
theorem joined_attach (h : o.HasRoot) (h' : o'.HasRoot) (p : Nat) {e : Entity}
    (he : e.children = #[]) :
    (o.joined o').attach (o.numberBehind p) ((Relocation.behind o.source).entity e)
      = o.joined (o'.attach p e) := by
  refine ext_get? ?_ ?_ ?_ fun i => ?_
  · rfl
  · rfl
  · rfl
  · rcases cases_number h i with rfl | ⟨hi, hfront⟩ | ⟨k, rfl⟩
    · exact get?_joined_attach_root h h' p e _
    · exact get?_joined_attach_front h h' p e _ hi hfront
    · exact get?_joined_attach_behind h h' p he k

/-! ## Larger texts -/

theorem get?_covering (s : Text) (o : Outline) (i : Nat) :
    (o.covering s).get? i = (o.get? i).map fun e => if i = root then spanning s e else e := by
  rw [get?, covering, Array.getElem?_modify, get?]
  by_cases hi : i = root
  · simp [hi]
  · simp [hi, Ne.symm hi]

theorem size_covering (s : Text) (o : Outline) : (o.covering s).entities.size = o.entities.size :=
  Array.size_modify ..

theorem title_covering (s : Text) (o : Outline) (i : Nat) :
    ((o.covering s).get? i).map Entity.title = (o.get? i).map Entity.title := by
  rw [get?_covering, Option.map_map]
  refine Option.map_congr fun e _ => ?_
  show Entity.title (if _ then _ else _) = e.title
  split <;> rfl

/-- **Having the root cover a larger text goes along with attaching.** -/
theorem covering_attach (h : o.HasRoot) (s : Text) (p : EntityId) (e : Entity) :
    (o.covering s).attach p e = (o.attach p e).covering s := by
  have hhost : (o.covering s).hostOf p = o.hostOf p := by
    rw [hostOf, size_covering, hostOf]
  refine ext_get? ?_ ?_ ?_ fun i => ?_
  · rfl
  · rfl
  · rfl
  · rw [get?_covering]
    rcases Nat.lt_trichotomy i o.entities.size with hi | rfl | hi
    · rw [get?_attach_of_lt ((size_covering s o).symm ▸ hi), hhost, size_covering, get?_covering,
        get?_attach_of_lt hi, Option.map_map, Option.map_map]
      refine Option.map_congr fun q _ => ?_
      by_cases hroot : i = root
      · subst hroot
        by_cases hq : o.hostOf p = root
        · simp [hq, spanning]
        · simp [hq]
      · simp [hroot]
    · have hne : o.entities.size ≠ root := Nat.ne_of_gt h.root_lt
      have hname := fullName_of_title (title_covering s o (o.hostOf p))
      have hnew := (o.covering s).get?_attach_size p e
      rw [size_covering, hhost, hname] at hnew
      rw [hnew, get?_attach_size]
      simp [hne]
    · rw [get?, Array.getElem?_eq_none (by rw [size_entities_attach, size_covering]; exact hi),
        get?, Array.getElem?_eq_none (by rw [size_entities_attach]; exact hi)]
      rfl

theorem joined_report (o o' : Outline) (d : Diagnostic) :
    (o.joined o').report ((Relocation.behind o.source).diagnostic d) = o.joined (o'.report d) := by
  simp only [joined, report, Array.map_push, Array.push_append]
  rfl

/-- Nothing stands behind a header that has only begun. -/
theorem joined_ofSource (o : Outline) (file : String) (source : Text) :
    o.joined (ofSource file source) = o := by
  have hchildren : (ofSource file source).children root = [] := rfl
  have hroot : o.entities.modify root (o.adopting ((ofSource file source).children root))
      = o.entities := by
    refine Array.ext_getElem? fun i => ?_
    rw [Array.getElem?_modify, hchildren]
    split
    · cases o.entities[i]? <;> simp [adopting]
    · rfl
  rw [joined, hroot]
  simp [ofSource]

theorem covering_ofSource (file : String) (source s : Text) :
    (ofSource file source).covering s = ofSource file s := by
  simp [ofSource, covering, spanning, rootEntity, root]

end Outline

/-! ## Transfers -/

namespace Relocation

theorem doc_behind_nil : (behind []).doc = id := by
  funext c
  have hspan : (behind []).span = id := rfl
  rw [doc, hspan, Option.map_id]
  rfl

/-- Nothing moves behind the empty text. -/
theorem entity_behind_nil (e : Entity) : (behind []).entity e = e := by
  have hbody : (behind []).body = id := rfl
  rw [entity, hbody, doc_behind_nil, Option.map_id, Option.map_id]
  rfl

theorem diagnostic_behind_nil (d : Diagnostic) : (behind []).diagnostic d = d := by
  have hrelated : (behind []).related = id := rfl
  rw [diagnostic, hrelated, List.map_id]
  rfl

end Relocation

namespace Transfer

/-- Entities are put behind those of an outline. -/
def behind {o : Outline} (h : o.HasRoot) : Transfer where
  relocation := Relocation.behind o.source
  number := o.numberBehind
  outline := o.joined
  number_root := o.numberBehind_root
  size_outline := Outline.size_joined h
  title_outline := Outline.title_joined h
  attach_outline := Outline.joined_attach h
  report_outline := o.joined_report

/-- The root comes to cover a larger text. -/
def covering (s : Text) : Transfer where
  relocation := Relocation.behind []
  number := id
  outline := Outline.covering s
  number_root := id_eq Outline.root
  size_outline {o} _ := Outline.size_covering s o
  title_outline {o} _ := Outline.title_covering s o
  attach_outline h p e _ := by
    rw [Relocation.entity_behind_nil]
    exact Outline.covering_attach h s p e
  report_outline o d := by
    rw [Relocation.diagnostic_behind_nil]
    rfl

end Transfer

namespace Building

variable {policy : Recovery.Policy} {merge : Bool} {size : Nat} {b done : Building}

/-- An outline under construction as that of a larger text. -/
def covering (s : Text) (b : Building) : Building := { b with outline := b.outline.covering s }

theorem building_covering (s : Text) (b : Building) :
    (Transfer.covering s).building b = b.covering s := by
  have hframe : Frame.renumber (Transfer.covering s).number = id := rfl
  have hdoc : (Transfer.covering s).relocation.doc = id := Relocation.doc_behind_nil
  rw [Transfer.building, Scopes.renumber, hframe, hdoc, List.map_id, Option.map_id]
  rfl

/-- The root may cover a larger text while an outline is built. -/
theorem run_covering {ts : List Token} (h : b.outline.HasRoot)
    (hr : b.run policy merge size ts = .ok done) (s : Text) :
    (b.covering s).run policy merge size ts = .ok (done.covering s) := by
  have hrun := Transfer.run_building (T := Transfer.covering s)
    (fun t _ => Relocation.keeps_behind [] t) h hr
  have htoken : (Transfer.covering s).relocation.token = id := rfl
  rwa [building_covering, building_covering, htoken, List.map_id] at hrun

theorem finish_covering (h : b.outline.HasRoot) (hp : b.PendingPlaced) (s : Text) :
    (b.covering s).finish = b.finish.covering s := by
  rw [← building_covering]
  exact Transfer.finish_building h hp

end Building
end HeaderOutline
