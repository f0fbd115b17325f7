import HeaderOutline.Proofs.Links
import Mathlib.Data.List.Basic

/-! # Ways through an outline

A path is cut at its double colons, and `Outline.resolve` tries to lead the pieces from
scope to scope, each time taking one or more of them for a name (`Outline.Route`).  It
finds an entity whenever there is a way (`Outline.resolve_isSome_iff`); an entity to which
a way leads has the path for its full name (`Outline.Route.fullName_eq`); and to every
entity with a name there is a way (`Outline.Treelike.route`), as long as the names of the
scopes above it can be cut off a longer text (`Text.Separable`).
-/
namespace HeaderOutline

namespace Text

variable {s t name : Text}

@[simp] theorem joinWith_nil (separator : Text) : joinWith separator [] = [] := rfl

@[simp] theorem joinWith_singleton (separator t : Text) : joinWith separator [t] = t := by
  simp [joinWith]

theorem joinWith_append (separator : Text) {ts us : List Text} (ht : ts ≠ []) (hu : us ≠ []) :
    joinWith separator (ts ++ us)
      = joinWith separator ts ++ separator ++ joinWith separator us := by
  induction ts with
  | nil => exact absurd rfl ht
  | cons t ts ih =>
    by_cases hts : ts = []
    · rw [hts, List.singleton_append, joinWith_cons _ _ hu, joinWith_singleton]
    · rw [List.cons_append, joinWith_cons _ _ (by simp [hts]), ih hts, joinWith_cons _ _ hts]
      simp

theorem joinWith_ne_nil (separator : Text) {ts : List Text} (hne : ts ≠ [])
    (h : ∀ t ∈ ts, t ≠ []) : joinWith separator ts ≠ [] := by
  obtain ⟨t, ts, rfl⟩ := List.exists_cons_of_ne_nil hne
  have ht := h t List.mem_cons_self
  by_cases hts : ts = []
  · rwa [hts, joinWith_singleton]
  · rw [joinWith_cons _ _ hts, List.append_assoc]
    exact List.append_ne_nil_of_left_ne_nil ht _

/-! ## Cutting at double colons -/

/-- A text does not run into a double colon behind it. -/
def Separable (s : Text) : Prop :=
  ∀ t, splitColons (s ++ colons ++ t) = splitColons s ++ splitColons t

/-- A text that does not end with a colon is separable. -/
theorem separable_of_getLast? (h : s.getLast? ≠ some ':') : s.Separable := by
  suffices hcut : ∀ piece t, splitColonsOnto piece (s ++ colons ++ t)
      = splitColonsOnto piece s ++ splitColons t from fun t => hcut [] t
  intro piece t
  fun_induction splitColonsOnto piece s with
  | case1 piece s ih =>
    cases s with
    | nil => simp at h
    | cons c s =>
      have hih := ih (by simpa using h)
      exact congrArg (piece.reverse :: ·) hih
  | case2 piece c s hc ih =>
    have hcons : splitColonsOnto piece (c :: s ++ colons ++ t)
        = splitColonsOnto (c :: piece) (s ++ colons ++ t) := by
      rw [List.cons_append, List.cons_append, splitColonsOnto]
      rintro u rfl hu
      cases s with
      | nil => simp at h
      | cons d s =>
        obtain ⟨rfl, -⟩ := List.cons.inj hu
        exact hc s rfl rfl
    rw [hcons]
    refine ih fun hlast => ?_
    cases s with
    | nil => simp at hlast
    | cons d s => exact h (by simpa using hlast)
  | case3 piece => rfl

theorem separable_nil : Separable [] := separable_of_getLast? (by simp)

theorem Separable.append_colons (h : s.Separable) : (s ++ colons).Separable := by
  intro t
  have hs : splitColons (s ++ colons) = splitColons s ++ [[]] := by
    have hnil := h []
    rwa [List.append_nil] at hnil
  rw [hs, List.append_assoc (s ++ colons), h, List.append_assoc]
  rfl

theorem Separable.append (hs : s.Separable) (ht : t.Separable) : (s ++ colons ++ t).Separable := by
  intro u
  rw [List.append_assoc, List.append_assoc, ← List.append_assoc t, hs, ht, hs, List.append_assoc]

end Text

theorem qualify_of_ne_nil {scope name : Text} (hs : scope ≠ []) (hn : name ≠ []) :
    qualify scope name = scope ++ Text.colons ++ name := by
  simp [qualify, hs, hn]

@[simp] theorem qualify_nil_left (name : Text) : qualify [] name = name := by
  unfold qualify
  split
  · next h => exact (List.isEmpty_iff.mp h).symm
  · rfl

@[simp] theorem qualify_nil_right (scope : Text) : qualify scope [] = scope := rfl

theorem qualify_ne_nil {scope name : Text} (hn : name ≠ []) : qualify scope name ≠ [] := by
  by_cases hs : scope = []
  · rwa [hs, qualify_nil_left]
  · rw [qualify_of_ne_nil hs hn]
    exact List.append_ne_nil_of_right_ne_nil _ hn

theorem Text.Separable.qualify {scope name : Text} (hs : scope.Separable) (hn : name.Separable) :
    (qualify scope name).Separable := by
  by_cases hne : name = []
  · rwa [hne, qualify_nil_right]
  · by_cases hse : scope = []
    · rwa [hse, qualify_nil_left]
    · rw [qualify_of_ne_nil hse hne]
      exact hs.append hn

/-- Names are qualified one after the other, or all at once. -/
theorem qualify_qualify {scope : Text} {ts us : List Text} (ht : ts ≠ []) (hu : us ≠ [])
    (hts : ∀ t ∈ ts, t ≠ []) (hus : ∀ u ∈ us, u ≠ []) :
    qualify (qualify scope (Text.joinWith Text.colons ts)) (Text.joinWith Text.colons us)
      = qualify scope (Text.joinWith Text.colons (ts ++ us)) := by
  have hjt := Text.joinWith_ne_nil Text.colons ht hts
  have hju := Text.joinWith_ne_nil Text.colons hu hus
  rw [Text.joinWith_append _ ht hu, qualify_of_ne_nil (qualify_ne_nil hjt) hju]
  by_cases hs : scope = []
  · simp [hs]
  · rw [qualify_of_ne_nil hs hjt, qualify_of_ne_nil hs (by simp [hju])]
    simp

namespace Outline

variable {o : Outline} {i j p c scope : EntityId} {e : Entity} {name : Text}

/-! ## Full names -/

/-- The full name of an entity is the path that leads to it. -/
theorem Parented.fullPath_eq (h : o.Parented) (he : o.get? i = some e) :
    o.fullPath i = e.fullName := by
  have hi := lt_size_of_get? he
  induction i, hi using h.induction generalizing e with
  | root =>
    obtain ⟨r, hr, -, -, hfull⟩ := h.rooted
    obtain rfl : r = e := Option.some.inj (hr.symm.trans he)
    rw [fullPath, h.path_root, hfull]
    rfl
  | child i p hi hlt hp ih =>
    obtain ⟨p', q, hp', hq, hfull⟩ :=
      h.exists_parent (Nat.lt_of_le_of_lt (Nat.zero_le p) (h.parent_lt hp).1) he
    obtain rfl : p' = p := Option.some.inj (hp'.symm.trans hp)
    have hpath : Text.joinWith Text.colons (o.path p') = q.fullName := ih hq
    rw [fullPath, h.path_eq he hp, hfull]
    by_cases hn : e.name = []
    · simp [hn, hpath]
    · rw [if_neg (by simpa using hn)]
      by_cases hpar : o.path p' = []
      · rw [← hpath, hpar]
        simp
      · have hne := Text.joinWith_ne_nil Text.colons hpar
          (h.ne_nil_of_mem_path hlt)
        rw [Text.joinWith_append _ hpar (List.cons_ne_nil _ _), hpath, Text.joinWith_singleton,
          qualify_of_ne_nil (hpath ▸ hne) hn]

/-! ## Children of a name -/

theorem isNamed_iff (he : o.get? i = some e) : o.isNamed i name = true ↔ e.name = name := by
  simp [isNamed, he]

theorem isUnnamedScope_iff (he : o.get? i = some e) :
    o.isUnnamedScope i = true ↔ e.name = [] ∧ e.kind.isTransparent = true := by
  simp [isUnnamedScope, he]

/-- In a tree it makes no difference how much deeper a walk could go than there are entities
behind the scope. -/
theorem Treelike.childrenNamedWithin_eq (h : o.Treelike) (name : Text) {depth depth' : Nat}
    (hd : o.entities.size ≤ scope + depth) (hd' : o.entities.size ≤ scope + depth') :
    o.childrenNamedWithin name depth scope = o.childrenNamedWithin name depth' scope := by
  refine h.walk_eq (fun i below => (o.children i).filter (o.isNamed · name) ++
      ((o.children i).filter fun id => !o.isNamed id name && o.isUnnamedScope id).flatMap below)
    (fun _ => rfl) (fun _ _ => rfl) (fun i below hi => ?_) (fun i below below' hbelow => ?_) hd hd'
  · rw [hi]
    rfl
  · exact congrArg _ (List.flatMap_congr fun c hc => hbelow c (List.mem_filter.mp hc).1)

/-- The children of a name are found among the children, and as children of that name in the
unnamed scopes among them. -/
theorem Treelike.childrenNamed_eq (h : o.Treelike) (scope : EntityId) (name : Text) :
    o.childrenNamed scope name = (o.children scope).filter (o.isNamed · name) ++
      ((o.children scope).filter fun id => !o.isNamed id name && o.isUnnamedScope id).flatMap
        fun u => o.childrenNamed u name :=
  show _ = o.childrenNamedWithin name (o.entities.size + 1) scope from
    h.childrenNamedWithin_eq name (Nat.le_add_left ..) (by omega)

/-- The children of a name are those that have it, and the children of that name of the
unnamed scopes among all children. -/
theorem mem_childrenNamed_iff (h : o.Treelike) (hn : name ≠ []) :
    c ∈ o.childrenNamed scope name ↔ o.parent? c = some scope ∧ o.isNamed c name = true ∨
      ∃ u, o.parent? u = some scope ∧ o.isUnnamedScope u = true ∧ c ∈ o.childrenNamed u name := by
  rw [h.childrenNamed_eq, List.mem_append, List.mem_filter, h.mem_children_iff]
  refine or_congr_right ?_
  constructor
  · intro hc
    obtain ⟨u, hu, hc⟩ := List.mem_flatMap.mp hc
    obtain ⟨hu, hscope⟩ := List.mem_filter.mp hu
    simp only [Bool.and_eq_true] at hscope
    exact ⟨u, h.mem_children_iff.mp hu, hscope.2, hc⟩
  · rintro ⟨u, hu, hscope, hc⟩
    obtain ⟨e, he⟩ := exists_get? (h.parent_lt hu).2
    refine List.mem_flatMap.mpr ⟨u, List.mem_filter.mpr ⟨h.mem_children_iff.mpr hu, ?_⟩, hc⟩
    have hname : o.isNamed u name = false := by
      rw [← Bool.not_eq_true, isNamed_iff he, ((isUnnamedScope_iff he).mp hscope).1]
      exact hn.symm
    simp [hname, hscope]

/-- A child of a name has it, and its full name is that name in the scope. -/
theorem spec_of_mem_childrenNamed (h : o.Treelike) (hn : name ≠ [])
    (hc : c ∈ o.childrenNamed scope name) :
    ∃ s e, o.get? scope = some s ∧ o.get? c = some e ∧ e.name = name ∧
      e.fullName = qualify s.fullName name := by
  induction hk : o.entities.size - scope using Nat.strongRecOn generalizing scope with
  | ind k ih =>
    subst hk
    have hparent : ∀ {u : EntityId}, o.parent? u = some scope → ∃ s e, o.get? scope = some s ∧
        o.get? u = some e ∧ e.fullName = qualify s.fullName e.name := by
      intro u hu
      obtain ⟨e, he⟩ := exists_get? (h.parent_lt hu).2
      obtain ⟨p, s, hp, hs, hfull⟩ :=
        h.exists_parent (Nat.lt_of_le_of_lt (Nat.zero_le _) (h.parent_lt hu).1) he
      obtain rfl : p = scope := Option.some.inj (hp.symm.trans hu)
      exact ⟨s, e, hs, he, hfull⟩
    rcases (mem_childrenNamed_iff h hn).mp hc with ⟨hp, hnamed⟩ | ⟨u, hu, hscope, hc⟩
    · obtain ⟨s, e, hs, he, hfull⟩ := hparent hp
      obtain rfl := (isNamed_iff he).mp hnamed
      exact ⟨s, e, hs, he, rfl, hfull⟩
    · have hlt := h.parent_lt hu
      obtain ⟨s, v, hs, hv, hvfull⟩ := hparent hu
      obtain ⟨v', e, hv', he, hname, hfull⟩ :=
        ih (o.entities.size - u) (Nat.sub_lt_sub_left (Nat.lt_trans hlt.1 hlt.2) hlt.1) hc rfl
      obtain rfl : v = v' := Option.some.inj (hv.symm.trans hv')
      rw [((isUnnamedScope_iff hv).mp hscope).1, qualify_nil_right] at hvfull
      exact ⟨s, e, hs, he, hname, hvfull ▸ hfull⟩

/-- What is found through unnamed scopes lies below a child of the scope. -/
theorem exists_above_of_mem_childrenNamed (h : o.Treelike) (hn : name ≠ [])
    (hc : c ∈ o.childrenNamed scope name) :
    ∃ u, o.parent? u = some scope ∧ o.Below u c ∧ (u = c ∨ o.isUnnamedScope u = true) := by
  induction hk : o.entities.size - scope using Nat.strongRecOn generalizing scope with
  | ind k ih =>
    subst hk
    rcases (mem_childrenNamed_iff h hn).mp hc with ⟨hp, -⟩ | ⟨u, hu, hscope, hc⟩
    · exact ⟨c, hp, .refl, .inl rfl⟩
    · have hlt := h.parent_lt hu
      obtain ⟨v, hv, hbelow, -⟩ :=
        ih (o.entities.size - u) (Nat.sub_lt_sub_left (Nat.lt_trans hlt.1 hlt.2) hlt.1) hc rfl
      exact ⟨u, hu, (Below.of_parent hv).trans hbelow, .inr hscope⟩

/-! ## Ways -/

/-- A way from a scope to an entity below it: the first one or more of some segments,
joined, are the name of a child, unnamed scopes looked through, and the others lead on from
there. -/
inductive Route (o : Outline) : EntityId → List Text → EntityId → Prop
  | last {scope c : EntityId} {segments : List Text} (hne : segments ≠ [])
      (hc : c ∈ o.childrenNamed scope (Text.joinWith Text.colons segments)) :
      Route o scope segments c
  | step {scope c j : EntityId} {segments rest : List Text} (hne : segments ≠ [])
      (hc : c ∈ o.childrenNamed scope (Text.joinWith Text.colons segments))
      (more : Route o c rest j) : Route o scope (segments ++ rest) j

namespace Route

variable {segments : List Text}

theorem ne_nil (h : o.Route scope segments j) : segments ≠ [] := by
  cases h with
  | last hne => exact hne
  | step hne => simp [hne]

/-- A way goes on with a child of where it leads. -/
theorem snoc {more : List Text} (h : o.Route scope segments j) (hne : more ≠ [])
    (hc : c ∈ o.childrenNamed j (Text.joinWith Text.colons more)) :
    o.Route scope (segments ++ more) c := by
  induction h with
  | last hne' hc' => exact .step hne' hc' (.last hne hc)
  | step hne' hc' _ ih =>
    rw [List.append_assoc]
    exact .step hne' hc' (ih hc)

/-- **Ways are sound**: where a way leads there is an entity with a name, and its full name
is made of the segments. -/
theorem fullName_eq (hl : o.Treelike) (h : o.Route scope segments j) (hs : ∀ s ∈ segments, s ≠ []) :
    ∃ s e, o.get? scope = some s ∧ o.get? j = some e ∧ e.name ≠ [] ∧
      e.fullName = qualify s.fullName (Text.joinWith Text.colons segments) := by
  induction h with
  | last hne hc =>
    have hn := Text.joinWith_ne_nil Text.colons hne hs
    obtain ⟨s, e, hscope, he, hname, hfull⟩ := spec_of_mem_childrenNamed hl hn hc
    exact ⟨s, e, hscope, he, hname ▸ hn, hfull⟩
  | @step scope c j segments rest hne hc more ih =>
    have hfirst : ∀ s ∈ segments, s ≠ [] := fun s hm => hs s (List.mem_append_left _ hm)
    have hrest : ∀ s ∈ rest, s ≠ [] := fun s hm => hs s (List.mem_append_right _ hm)
    have hn := Text.joinWith_ne_nil Text.colons hne hfirst
    obtain ⟨s, v, hscope, hv, -, hvfull⟩ := spec_of_mem_childrenNamed hl hn hc
    obtain ⟨v', e, hv', he, hname, hfull⟩ := ih hrest
    obtain rfl : v = v' := Option.some.inj (hv.symm.trans hv')
    refine ⟨s, e, hscope, he, hname, ?_⟩
    rw [hfull, hvfull, qualify_qualify hne more.ne_nil hfirst hrest]

/-- A way leads through a child of the scope. -/
theorem exists_above (hl : o.Treelike) (h : o.Route scope segments j)
    (hs : ∀ s ∈ segments, s ≠ []) : ∃ u, o.parent? u = some scope ∧ o.Below u j := by
  induction h with
  | last hne hc =>
    obtain ⟨u, hu, hb, -⟩ :=
      exists_above_of_mem_childrenNamed hl (Text.joinWith_ne_nil Text.colons hne hs) hc
    exact ⟨u, hu, hb⟩
  | @step scope c j segments rest hne hc more ih =>
    have hfirst : ∀ s ∈ segments, s ≠ [] := fun s hm => hs s (List.mem_append_left _ hm)
    obtain ⟨u, hu, hb, -⟩ :=
      exists_above_of_mem_childrenNamed hl (Text.joinWith_ne_nil Text.colons hne hfirst) hc
    obtain ⟨v, hv, hb'⟩ := ih fun s hm => hs s (List.mem_append_right _ hm)
    exact ⟨u, hu, (hb.trans (.of_parent hv)).trans hb'⟩

end Route

/-! ## Resolving a path -/

/-- The segments that have been taken for the start of a name, if there are any. -/
def taken (segments : List Text) : Option Text :=
  if segments = [] then none else some (Text.joinWith Text.colons segments)

/-- One segment more is the end of a name, or a further piece of it. -/
theorem resolve_cons (scope : EntityId) (before : List Text) (segment : Text) (rest : List Text) :
    o.resolve scope (taken before) (segment :: rest) =
      ((o.childrenNamed scope (Text.joinWith Text.colons (before ++ [segment]))).findSome?
        fun child => if rest.isEmpty then some child else o.resolve child none rest).or
      (o.resolve scope (taken (before ++ [segment])) rest) := by
  have htaken : taken (before ++ [segment])
      = some (Text.joinWith Text.colons (before ++ [segment])) := if_neg (by simp)
  rw [htaken]
  by_cases hb : before = []
  · subst hb
    rw [List.nil_append, Text.joinWith_singleton]
    rfl
  · rw [Text.joinWith_append _ hb (List.cons_ne_nil _ _), Text.joinWith_singleton, taken, if_neg hb]
    rfl

/-- What is found lies at the end of a way. -/
theorem route_of_resolve {before segments : List Text}
    (h : o.resolve scope (taken before) segments = some j) :
    o.Route scope (before ++ segments) j := by
  induction segments generalizing scope before with
  | nil => cases h
  | cons segment rest ih =>
    rw [resolve_cons] at h
    rcases Option.or_eq_some_iff.mp h with h | ⟨-, h⟩
    · obtain ⟨c, hc, hj⟩ := List.exists_of_findSome?_eq_some h
      rw [List.append_cons]
      by_cases hr : rest = []
      · subst hr
        obtain rfl : c = j := Option.some.inj hj
        rw [List.append_nil]
        exact .last (by simp) hc
      · rw [if_neg (by simpa using hr)] at hj
        exact .step (by simp) hc (ih (show o.resolve c (taken []) rest = some j from hj))
    · rw [List.append_cons]
      exact ih h

theorem route_of_resolve_none {segments : List Text}
    (h : o.resolve scope none segments = some j) : o.Route scope segments j :=
  route_of_resolve (show o.resolve scope (taken []) segments = some j from h)

/-- Where a name and a way behind it lead on, something is found. -/
theorem resolve_isSome_of_mem {before segments rest : List Text} (hne : segments ≠ [])
    (hc : c ∈ o.childrenNamed scope (Text.joinWith Text.colons (before ++ segments)))
    (hrest : rest = [] ∨ (o.resolve c none rest).isSome = true) :
    (o.resolve scope (taken before) (segments ++ rest)).isSome = true := by
  induction segments generalizing before with
  | nil => exact absurd rfl hne
  | cons segment segments ih =>
    rw [List.cons_append, resolve_cons, Option.isSome_or]
    by_cases hs : segments = []
    · subst hs
      refine Bool.or_eq_true_iff.mpr (.inl ?_)
      rw [List.findSome?_isSome_iff]
      refine ⟨c, hc, ?_⟩
      rcases hrest with rfl | hrest
      · rfl
      · split
        · rfl
        · exact hrest
    · rw [List.append_cons] at hc
      exact Bool.or_eq_true_iff.mpr (.inr (ih hs hc))

/-- **Resolving finds an entity exactly if there is a way to one.** -/
theorem resolve_isSome_iff {segments : List Text} :
    (o.resolve scope none segments).isSome = true ↔ ∃ j, o.Route scope segments j := by
  constructor
  · intro h
    obtain ⟨j, hj⟩ := Option.isSome_iff_exists.mp h
    exact ⟨j, route_of_resolve_none hj⟩
  · rintro ⟨j, h⟩
    induction h with
    | @last scope c segments hne hc =>
      have hfound : (o.resolve scope (taken []) (segments ++ [])).isSome = true :=
        resolve_isSome_of_mem hne hc (.inl rfl)
      rwa [List.append_nil] at hfound
    | @step scope c j segments rest hne hc _ ih =>
      show (o.resolve scope (taken []) (segments ++ rest)).isSome = true
      exact resolve_isSome_of_mem hne hc (.inr ih)

/-! ## Ways to entities -/

/-- An entity with children is of a kind through which a path looks where it has no name,
and its name can be cut off a longer text. -/
def Open (o : Outline) : Prop :=
  ∀ i p q, o.parent? i = some p → 0 < p → o.get? p = some q →
    q.kind.isTransparent = true ∧ q.name.Separable

theorem Parented.separable_fullName (h : o.Parented) (ho : o.Open) (hp : o.parent? i = some p)
    {q : Entity} (hq : o.get? p = some q) : q.fullName.Separable := by
  have hlt := lt_size_of_get? hq
  induction p, hlt using h.induction generalizing i q with
  | root =>
    obtain ⟨r, hr, -, -, hfull⟩ := h.rooted
    obtain rfl : r = q := Option.some.inj (hr.symm.trans hq)
    rw [hfull]
    exact Text.separable_nil
  | child p s _ _ hs ih =>
    have hpos : 0 < p := Nat.lt_of_le_of_lt (Nat.zero_le s) (h.parent_lt hs).1
    obtain ⟨s', v, hs', hv, hfull⟩ := h.exists_parent hpos hq
    obtain rfl : s' = s := Option.some.inj (hs'.symm.trans hs)
    rw [hfull]
    exact (ih hs hv).qualify (ho i p q hp hpos hq).2

/-- Segments lead to the children of a name in a scope. -/
theorem Treelike.route_of_mem (h : o.Treelike) (ho : o.Open) {q : Entity}
    (hp : o.parent? i = some p) (hq : o.get? p = some q) (hn : name ≠ [])
    (hc : c ∈ o.childrenNamed p name) :
    o.Route root (qualify q.fullName name).splitColons c := by
  have hlt := lt_size_of_get? hq
  induction p, hlt using h.induction generalizing i q c name with
  | root =>
    obtain ⟨r, hr, -, -, hfull⟩ := h.rooted
    obtain rfl : r = q := Option.some.inj (hr.symm.trans hq)
    rw [hfull, qualify_nil_left]
    refine .last (Text.splitColonsOnto_ne_nil _ _) ?_
    rwa [Text.joinWith_splitColons]
  | child p s _ _ hs ih =>
    have hpos : 0 < p := Nat.lt_of_le_of_lt (Nat.zero_le s) (h.parent_lt hs).1
    obtain ⟨s', v, hs', hv, hfull⟩ := h.exists_parent hpos hq
    obtain rfl : s' = s := Option.some.inj (hs'.symm.trans hs)
    obtain ⟨hkind, hsep⟩ := ho i p q hp hpos hq
    by_cases hqn : q.name = []
    · -- an unnamed scope adds nothing to the path and is looked through
      rw [hfull, hqn, qualify_nil_right]
      refine ih hs hv hn ((mem_childrenNamed_iff h hn).mpr (.inr ⟨p, hs, ?_, hc⟩))
      exact (isUnnamedScope_iff hq).mpr ⟨hqn, hkind⟩
    · have hmem : p ∈ o.childrenNamed s' q.name :=
        (mem_childrenNamed_iff h hqn).mpr (.inl ⟨hs, (isNamed_iff hq).mpr rfl⟩)
      have hroute := ih hs hv hqn hmem
      rw [← hfull] at hroute
      have hfulln : q.fullName ≠ [] := hfull ▸ qualify_ne_nil hqn
      rw [qualify_of_ne_nil hfulln hn, h.separable_fullName ho hp hq]
      refine hroute.snoc (Text.splitColonsOnto_ne_nil _ _) ?_
      rwa [Text.joinWith_splitColons]

/-- **There is a way to every entity with a name**: the segments of its full name lead to
it from the root. -/
theorem Treelike.route (h : o.Treelike) (ho : o.Open) (he : o.get? i = some e) (hn : e.name ≠ []) :
    o.Route root e.fullName.splitColons i := by
  have hpos : 0 < i := by
    refine Nat.pos_iff_ne_zero.mpr ?_
    rintro rfl
    obtain ⟨r, hr, -, hname, -⟩ := h.rooted
    obtain rfl : r = e := Option.some.inj (hr.symm.trans he)
    exact hn hname
  obtain ⟨p, q, hp, hq, hfull⟩ := h.exists_parent hpos he
  rw [hfull]
  refine h.route_of_mem ho hp hq hn ?_
  exact (mem_childrenNamed_iff h hn).mpr (.inl ⟨hp, (isNamed_iff he).mpr rfl⟩)

end Outline
end HeaderOutline
