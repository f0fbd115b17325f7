import HeaderOutline.Proofs.Nesting
import HeaderOutline.Text.Unicode

/-! # Paths lead back

The entity of a path and the entity of a full name are found in different ways: the one
by a walk from the root, the other among all entities in the order of their numbers.  For
the full name of an entity both find one that has that full name, as long as the name is a
path at all (`Text.IsPath`): lookups take a pair of colons at either end for nothing.  The
second way finds the first entity of that name.  So does the first one, if that entity is
reached by whole names and none of those that share its full name lies in an unnamed scope,
for scopes come in tree order (`Outline.le_of_resolve`).
-/
namespace HeaderOutline

namespace Text

/-- A character that is not removed from the ends of a text is still there. -/
theorem strip_ne_nil {p : Char → Bool} {t : Text} {c : Char} (hc : c ∈ t) (hp : p c = false) :
    t.strip p ≠ [] := by
  have hmem : ∀ {s : Text}, c ∈ s → c ∈ s.dropWhile p := by
    intro s hs
    rw [← List.takeWhile_append_dropWhile (p := p) (l := s)] at hs
    rcases List.mem_append.mp hs with hs | hs
    · cases hp.symm.trans (List.all_eq_true.mp List.all_takeWhile c hs)
    · exact hs
  have hstrip : c ∈ t.strip p := List.mem_reverse.mpr (hmem (List.mem_reverse.mpr (hmem hc)))
  exact List.ne_nil_of_mem hstrip

/-- A text that a lookup cuts at its double colons as it stands: no piece of it is empty,
no pair of colons is cut off its end, and it is not a colon alone. -/
structure IsPath (t : Text) : Prop where
  pieces : [] ∉ t.splitColons
  tail : ¬colons <:+ t
  colon : t ≠ [':']

namespace IsPath

variable {t : Text}

theorem ne_nil (h : t.IsPath) : t ≠ [] := by
  rintro rfl
  exact h.pieces (List.mem_singleton.mpr rfl)

theorem lead (h : t.IsPath) : ¬colons <+: t := by
  rintro ⟨s, rfl⟩
  exact h.pieces (List.mem_cons_self (a := []) (l := splitColons s))

/-- A path is not made of colons alone. -/
theorem exists_ne_colon (h : t.IsPath) : ∃ c ∈ t, c ≠ ':' := by
  refine Classical.byContradiction fun hno => ?_
  have hall : ∀ c ∈ t, c = ':' := by simpa using hno
  match t, h, hall with
  | [], h, _ => exact h.ne_nil rfl
  | [c], h, hall => exact h.colon (by rw [hall c List.mem_cons_self])
  | c :: d :: s, h, hall =>
    refine h.lead ⟨s, ?_⟩
    rw [hall c (by simp), hall d (by simp)]
    rfl

theorem strip_ne_nil (h : t.IsPath) : t.strip (· == ':') ≠ [] := by
  obtain ⟨c, hc, hne⟩ := h.exists_ne_colon
  exact Text.strip_ne_nil hc (by simpa using hne)

end IsPath
end Text

namespace Outline

variable {o : Outline} {i j k p a first found : EntityId} {e : Entity} {full : Text}

/-! ## Entities of a full name -/

/-- An entity has a name of its own and a given full name. -/
def Carries (o : Outline) (i : EntityId) (full : Text) : Prop :=
  ∃ e, o.get? i = some e ∧ e.name ≠ [] ∧ e.fullName = full

/-- Neither an entity nor any scope above it is without a name, the root aside. -/
def IsNamedThroughout (o : Outline) (i : EntityId) : Prop :=
  ∀ a e, o.Below a i → 0 < a → o.get? a = some e → e.name ≠ []

/-- Neither the name of an entity nor that of any scope above it holds a double colon. -/
def IsPlainThroughout (o : Outline) (i : EntityId) : Prop :=
  ∀ a e, o.Below a i → o.get? a = some e → e.name.splitColons = [e.name]

theorem Carries.pos (hl : o.Parented) (h : o.Carries i full) : 0 < i := by
  obtain ⟨e, he, hn, -⟩ := h
  refine Nat.pos_iff_ne_zero.mpr ?_
  rintro rfl
  obtain ⟨r, hr, -, hname, -⟩ := hl.rooted
  obtain rfl : r = e := Option.some.inj (hr.symm.trans he)
  exact hn hname

theorem Carries.mem_ids (hl : o.Parented) (h : o.Carries i full) : i ∈ o.ids := by
  have hpos := h.pos hl
  obtain ⟨e, he, -⟩ := h
  rw [ids, size, List.mem_range'_1, Nat.add_sub_cancel' hl.size_pos]
  exact ⟨hpos, lt_size_of_get? he⟩

/-- The index knows the first entity of a full name. -/
theorem firstOf?_eq_some_iff (hl : o.Parented) :
    o.firstOf? full = some first ↔ o.Carries first full ∧ ∀ j, o.Carries j full → first ≤ j := by
  classical
  have hfind : o.firstOf? full = o.ids.find? fun j => decide (o.Carries j full) := by
    refine congrArg (o.ids.find? ·) (funext fun j => ?_)
    unfold Carries
    cases o.get? j with
    | none => simp
    | some e =>
      rw [Bool.eq_iff_iff]
      simp
  rw [hfind, ids, List.find?_range'_eq_some, ← ids]
  simp only [decide_eq_true_eq, Bool.not_eq_true', decide_eq_false_iff_not]
  constructor
  · rintro ⟨hfirst, -, hleast⟩
    refine ⟨hfirst, fun j hj => Nat.le_of_not_lt fun hlt => hleast j (hj.pos hl) hlt hj⟩
  · rintro ⟨hfirst, hleast⟩
    exact ⟨hfirst, hfirst.mem_ids hl, fun j _ hlt hj => absurd (hleast j hj) (Nat.not_le_of_lt hlt)⟩

/-- The index knows all full names. -/
theorem firstOf?_eq_none_iff (hl : o.Parented) :
    o.firstOf? full = none ↔ ∀ j, ¬o.Carries j full := by
  constructor
  · intro hnone j hj
    have hno := List.find?_eq_none.mp hnone j (hj.mem_ids hl)
    obtain ⟨e, he, hn, hfull⟩ := hj
    simp [he, hn, hfull] at hno
  · intro hnone
    cases hfirst : o.firstOf? full with
    | none => rfl
    | some i => exact absurd ((firstOf?_eq_some_iff hl).mp hfirst).1 (hnone i)

/-- A full name that is a path leads to the first entity of that name. -/
theorem lookup?_spec (hl : o.Parented) (hpath : full.IsPath) (h : o.Carries i full) :
    ∃ first, o.lookup? full = some first ∧ o.Carries first full ∧
      ∀ j, o.Carries j full → first ≤ j := by
  have hlookup : o.lookup? full = o.firstOf? full := by
    rw [lookup?, if_neg (by simpa using hpath.strip_ne_nil)]
  cases hfirst : o.firstOf? full with
  | some first => exact ⟨first, hlookup.trans hfirst, (firstOf?_eq_some_iff hl).mp hfirst⟩
  | none => exact absurd h ((firstOf?_eq_none_iff hl).mp hfirst i)

/-- A path without a pair of colons at either end is resolved piece by piece. -/
theorem findByPath?_of_ends (hne : full ≠ []) (hlead : ¬Text.colons <+: full)
    (htail : ¬Text.colons <:+ full) :
    o.findByPath? full = o.resolve root none full.splitColons := by
  have hfront : full.dropLead Text.colons = full := by
    rw [Text.dropLead, Text.after?, if_neg (by simpa using hlead)]
    rfl
  have hback : full.dropTail Text.colons = full := by
    rw [Text.dropTail, Text.before?, if_neg (by simpa using htail)]
    rfl
  have hcolons : full ≠ Text.colons := fun hf => htail (hf ▸ List.suffix_refl _)
  simp [findByPath?, hfront, hback, hne, hcolons]

theorem findByPath?_of_isPath (h : full.IsPath) :
    o.findByPath? full = o.resolve root none full.splitColons :=
  findByPath?_of_ends h.ne_nil h.lead h.tail

/-- A full name that is a path leads to an entity of that full name. -/
theorem findByPath?_spec (hl : o.Treelike) (ho : o.Open) (hpath : full.IsPath)
    (h : o.Carries i full) :
    ∃ found, o.findByPath? full = some found ∧ o.Carries found full := by
  obtain ⟨e, he, hn, rfl⟩ := h
  rw [findByPath?_of_isPath hpath]
  obtain ⟨found, hfound⟩ :=
    Option.isSome_iff_exists.mp (resolve_isSome_iff.mpr ⟨i, hl.route ho he hn⟩)
  have hpieces : ∀ s ∈ e.fullName.splitColons, s ≠ [] := by
    rintro s hs rfl
    exact hpath.pieces hs
  obtain ⟨r, f, hr, hf, hname, hfull⟩ :=
    (route_of_resolve_none hfound).fullName_eq hl hpieces
  obtain ⟨r', hr', -, -, hrfull⟩ := hl.rooted
  obtain rfl : r' = r := Option.some.inj (hr'.symm.trans hr)
  refine ⟨found, hfound, f, hf, hname, ?_⟩
  rw [hfull, hrfull, qualify_nil_left, Text.joinWith_splitColons]

/-! ## Which one a walk finds -/

theorem Parented.below_root (h : o.Parented) (hi : i < o.entities.size) : o.Below root i := by
  induction i, hi using h.induction with
  | root => exact .refl
  | child i p hi hlt hp ih => exact .step hp ih

/-- A way leads downwards. -/
theorem Route.leads_below {segments : List Text} (hl : o.Treelike) (h : o.Route a segments i)
    (hs : ∀ s ∈ segments, s ≠ []) : o.Below a i := by
  obtain ⟨u, hu, hbelow⟩ := h.exists_above hl hs
  exact (Below.of_parent hu).trans hbelow

/-- The path of an entity goes on from that of a scope above it, by at least one name if
all of them have names. -/
theorem Below.path_eq (hl : o.Parented) (h : o.Below a i) (hi : i < o.entities.size) :
    ∃ more, o.path i = o.path a ++ more ∧ (o.IsNamedThroughout i → more = [] → a = i) := by
  induction h with
  | refl => exact ⟨[], (List.append_nil _).symm, fun _ _ => rfl⟩
  | @step p i hp h ih =>
    have hlt := hl.parent_lt hp
    obtain ⟨more, hmore, -⟩ := ih (Nat.lt_trans hlt.1 hi)
    obtain ⟨e, he⟩ := exists_get? hi
    refine ⟨more ++ if e.name.isEmpty then [] else [e.name], ?_, fun hn hnil => ?_⟩
    · rw [hl.path_eq he hp, hmore, List.append_assoc]
    · have hname := hn i e .refl (Nat.lt_of_le_of_lt (Nat.zero_le p) hlt.1) he
      rw [if_neg (by simpa using hname)] at hnil
      simp at hnil

/-- What lies below an entity is that entity or lies below one of its children. -/
theorem Below.eq_or_child (h : o.Below a i) : a = i ∨ ∃ c, o.parent? c = some a ∧ o.Below c i := by
  induction h with
  | refl => exact .inl rfl
  | @step p i hp _ ih =>
    refine .inr ?_
    rcases ih with rfl | ⟨c, hc, hbelow⟩
    · exact ⟨i, hp, .refl⟩
    · exact ⟨c, hc, .step hp hbelow⟩

theorem IsNamedThroughout.above (h : o.IsNamedThroughout i) (ha : o.Below a i) :
    o.IsNamedThroughout a :=
  fun b e hb => h b e (hb.trans ha)

/-- Where all scopes have names, the path leads the way. -/
theorem Below.route (hl : o.Treelike) (h : o.Below a i) (hn : o.IsNamedThroughout i)
    (hi : i < o.entities.size) {more : List Text} (hpath : o.path i = o.path a ++ more)
    (hne : more ≠ []) : o.Route a more i := by
  induction h generalizing more with
  | refl => exact absurd (List.append_right_eq_self.mp hpath.symm) hne
  | @step p i hp h ih =>
    have hlt := hl.parent_lt hp
    obtain ⟨e, he⟩ := exists_get? hi
    have hname := hn i e .refl (Nat.lt_of_le_of_lt (Nat.zero_le p) hlt.1) he
    obtain ⟨most, hmost, hself⟩ := h.path_eq hl.toParented (Nat.lt_trans hlt.1 hi)
    have hmem : i ∈ o.childrenNamed p (Text.joinWith Text.colons [e.name]) := by
      rw [Text.joinWith_singleton]
      exact (mem_childrenNamed_iff hl hname).mpr (.inl ⟨hp, (isNamed_iff he).mpr rfl⟩)
    obtain rfl : more = most ++ [e.name] := by
      rw [hl.path_eq he hp, hmost, if_neg (by simpa using hname), List.append_assoc] at hpath
      exact (List.append_cancel_left hpath).symm
    by_cases hm : most = []
    · obtain rfl := hself (hn.above (.of_parent hp)) hm
      rw [hm, List.nil_append]
      exact .last (List.cons_ne_nil _ _) hmem
    · exact (ih (hn.above (.of_parent hp)) (Nat.lt_trans hlt.1 hi) hmost hm).snoc
        (List.cons_ne_nil _ _) hmem

/-- Among the children of a name, those of the scope itself stand in order, and before
those in its unnamed scopes. -/
theorem childrenNamed_pairwise (hl : o.Linked) (scope : EntityId) {name : Text} (hn : name ≠ []) :
    (o.childrenNamed scope name).Pairwise fun x y => o.parent? y = some scope → x < y := by
  -- what is found through unnamed scopes is no child of the scope
  have hdeep : ∀ u y, u ∈ o.children scope → o.isUnnamedScope u = true →
      y ∈ o.childrenNamed u name → o.parent? y ≠ some scope := by
    intro u y hu hscope hy hp
    obtain ⟨v, hv, hbelow, -⟩ := exists_above_of_mem_childrenNamed hl.toTreelike hn hy
    obtain rfl := Below.unique hl.toParented hp (hl.mem_children_iff.mp hu) .refl
      ((Below.of_parent hv).trans hbelow)
    exact absurd (hbelow.le hl.toParented) (Nat.not_le_of_lt (hl.parent_lt hv).1)
  have hlast : ∀ y ∈ ((o.children scope).filter fun id => !o.isNamed id name &&
      o.isUnnamedScope id).flatMap fun u => o.childrenNamed u name,
      o.parent? y ≠ some scope := by
    intro y hy
    obtain ⟨u, hu, hy⟩ := List.mem_flatMap.mp hy
    obtain ⟨hu, hscope⟩ := List.mem_filter.mp hu
    exact hdeep u y hu (Bool.and_eq_true_iff.mp hscope).2 hy
  rw [hl.childrenNamed_eq, List.pairwise_append]
  refine ⟨?_, ?_, fun x _ y hy hp => absurd hp (hlast y hy)⟩
  · have hsorted := (hl.children_pairwise scope).filter (o.isNamed · name)
    exact hsorted.imp (S := fun x y => o.parent? y = some scope → x < y) fun hlt _ => hlt
  · exact List.pairwise_of_forall_mem_list fun x _ y hy hp => absurd hp (hlast y hy)

/-- The child of a scope on the way to what lies below it is the next one that the path names. -/
theorem Below.exists_child (hl : o.Treelike) (h : o.Below a i) (hi : i < o.entities.size)
    (hn : o.IsNamedThroughout i) {s : Text} {rest : List Text}
    (hpath : o.path i = o.path a ++ s :: rest) :
    ∃ c, o.parent? c = some a ∧ o.Below c i ∧ s ≠ [] ∧ c ∈ o.childrenNamed a s ∧
      o.path i = o.path c ++ rest := by
  obtain ⟨c, hc, hbelow⟩ := h.eq_or_child.resolve_left fun hself => by
    rw [hself] at hpath
    simp at hpath
  have hlt := hl.parent_lt hc
  obtain ⟨e, he⟩ := exists_get? hlt.2
  have hname := hn c e hbelow (Nat.lt_of_le_of_lt (Nat.zero_le a) hlt.1) he
  have hcpath : o.path c = o.path a ++ [e.name] := by
    rw [hl.path_eq he hc, if_neg (by simpa using hname)]
  obtain ⟨more, hmore, -⟩ := hbelow.path_eq hl.toParented hi
  obtain ⟨rfl, rfl⟩ : e.name = s ∧ more = rest := by
    rw [hcpath, hpath, List.append_assoc] at hmore
    simpa [eq_comm] using List.append_cancel_left hmore
  exact ⟨c, hc, hbelow, hname,
    (mem_childrenNamed_iff hl hname).mpr (.inl ⟨hc, (isNamed_iff he).mpr rfl⟩), hmore⟩

/-- What is not reached through an unnamed scope is a child of the scope itself. -/
theorem parent?_of_mem_childrenNamed (hl : o.Treelike) {name : Text} (hname : name ≠ [])
    (hi : i ∈ o.childrenNamed a name) (hbelow : o.Below i j) (hj : o.IsNamedThroughout j) :
    o.parent? i = some a := by
  obtain ⟨u, hu, hui, rfl | hunnamed⟩ := exists_above_of_mem_childrenNamed hl hname hi
  · exact hu
  · have hlt := hl.parent_lt hu
    obtain ⟨v, hv⟩ := exists_get? hlt.2
    exact absurd ((isUnnamedScope_iff hv).mp hunnamed).1
      (hj u v (hui.trans hbelow) (Nat.lt_of_le_of_lt (Nat.zero_le _) hlt.1) hv)

/-- What a walk finds from a child on, if these segments are left. -/
def goOn (o : Outline) (rest : List Text) (child : EntityId) : Option EntityId :=
  if rest.isEmpty then some child else o.resolve child none rest

/-- A walk goes on from the first child of the name from which it finds something. -/
theorem exists_first_of_resolve {s : Text} {rest : List Text}
    (h : o.resolve a none (s :: rest) = some j) (hi : i ∈ o.childrenNamed a s)
    (hgo : o.goOn rest i ≠ none) :
    ∃ before d after, o.childrenNamed a s = before ++ d :: after ∧ o.goOn rest d = some j ∧
      ∀ c ∈ before, o.goOn rest c = none := by
  have hresolve : o.resolve a none (s :: rest) =
      ((o.childrenNamed a s).findSome? (o.goOn rest)).or (o.resolve a (some s) rest) := rfl
  rw [h] at hresolve
  refine List.findSome?_eq_some_iff.mp ?_
  rcases Option.or_eq_some_iff.mp hresolve.symm with hfirst | ⟨hnone, -⟩
  · exact hfirst
  · exact absurd (List.findSome?_eq_none_iff.mp hnone i hi) hgo

/-- **A walk finds the first entity of a path**, where scopes have names: every other one
to which the pieces lead name by name comes after it. -/
theorem le_of_resolve (hl : o.Linked) (hpre : o.Preordered) {segments : List Text}
    {scope : EntityId} (hfound : o.resolve scope none segments = some j)
    (hj : o.IsNamedThroughout j) (hk : o.IsNamedThroughout k) (hlt : k < o.entities.size)
    (hbelow : o.Below scope k) (hpath : o.path k = o.path scope ++ segments) : j ≤ k := by
  induction segments generalizing scope with
  | nil => cases hfound
  | cons s rest ih =>
    obtain ⟨c, hc, hck, hname, hmem, hmore⟩ := hbelow.exists_child hl.toTreelike hlt hk hpath
    -- below this child there would be something to find
    have hgo : o.goOn rest c ≠ none := by
      unfold goOn
      split
      · exact Option.some_ne_none c
      · next hrest =>
        refine Option.isSome_iff_ne_none.mp (resolve_isSome_iff.mpr ⟨k, ?_⟩)
        exact hck.route hl.toTreelike hk hlt hmore (by simpa using hrest)
    obtain ⟨before, d, after, hsplit, hd, hnone⟩ := exists_first_of_resolve hfound hmem hgo
    have hdj : rest = [] ∧ d = j ∨ o.resolve d none rest = some j := by
      unfold goOn at hd
      split at hd
      · next hrest => exact .inl ⟨List.isEmpty_iff.mp hrest, Option.some.inj hd⟩
      · exact .inr hd
    have hdbelow : o.Below d j := by
      rcases hdj with ⟨-, rfl⟩ | hd
      · exact .refl
      · refine Route.leads_below hl.toTreelike (route_of_resolve_none hd) fun n hn => ?_
        exact hl.ne_nil_of_mem_path hlt n (hmore ▸ List.mem_append_right _ hn)
    have hdmem : d ∈ o.childrenNamed scope s := hsplit ▸ by simp
    have hdscope := parent?_of_mem_childrenNamed hl.toTreelike hname hdmem hdbelow hj
    -- the child where the walk does find something comes no later
    have hcd : c = d ∨ d < c := by
      have hpair := childrenNamed_pairwise hl scope hname
      rw [hsplit] at hmem hpair
      rcases List.mem_append.mp hmem with hm | hm
      · exact absurd (hnone c hm) hgo
      · rcases List.mem_cons.mp hm with rfl | hm
        · exact .inl rfl
        · exact .inr ((List.pairwise_cons.mp (List.pairwise_append.mp hpair).2.1).1 c hm hc)
    rcases hcd with rfl | hdc
    · rcases hdj with ⟨-, rfl⟩ | hd
      · exact hck.le hl.toParented
      · exact ih hd hck hmore
    · have hlt := hpre d c scope hdscope hc hdc j hdbelow
      exact Nat.le_of_lt (Nat.lt_of_lt_of_le hlt (hck.le hl.toParented))

/-- Where names hold no double colon, the pieces of the full name are the path. -/
theorem Parented.splitColons_fullName (h : o.Parented) (ho : o.Open) (he : o.get? i = some e)
    (hpos : 0 < i) (hplain : o.IsPlainThroughout i) (hn : o.IsNamedThroughout i) :
    e.fullName.splitColons = o.path i := by
  have hlt := lt_size_of_get? he
  induction i, hlt using h.induction generalizing e with
  | root => exact absurd hpos (Nat.lt_irrefl _)
  | child i p hi hplt hp ih =>
    obtain ⟨p', q, hp', hq, hfull⟩ := h.exists_parent hpos he
    obtain rfl : p' = p := Option.some.inj (hp'.symm.trans hp)
    have hname := hn i e .refl hpos he
    have hone := hplain i e .refl he
    rw [h.path_eq he hp, if_neg (by simpa using hname), hfull]
    rcases Nat.eq_zero_or_pos p' with rfl | hppos
    · obtain ⟨r, hr, -, -, hrfull⟩ := h.rooted
      obtain rfl : r = q := Option.some.inj (hr.symm.trans hq)
      rw [hrfull, qualify_nil_left, hone, show o.path 0 = [] from h.path_root, List.nil_append]
    · have hqfull : q.fullName ≠ [] := by
        obtain ⟨s, v, -, -, hqual⟩ := h.exists_parent hppos hq
        exact hqual ▸ qualify_ne_nil (hn p' q (.of_parent hp) hppos hq)
      rw [qualify_of_ne_nil hqfull hname, h.separable_fullName ho hp hq, hone,
        ih hq hppos (fun a v ha => hplain a v (ha.trans (.of_parent hp)))
          (hn.above (.of_parent hp))]

/-- Both lookups find the first entity of a full name, if it is reached by whole names and
unnamed scopes play no part. -/
theorem find_eq_first (hl : o.Linked) (ho : o.Open) (hpre : o.Preordered) (hpath : full.IsPath)
    (hfirst : o.Carries first full) (hleast : ∀ j, o.Carries j full → first ≤ j)
    (hplain : o.IsPlainThroughout first) (hfound : o.findByPath? full = some found)
    (hcarries : o.Carries found full) (hn : ∀ j, o.Carries j full → o.IsNamedThroughout j) :
    found = first := by
  refine Nat.le_antisymm ?_ (hleast found hcarries)
  have hpos := hfirst.pos hl.toParented
  obtain ⟨e, he, -, rfl⟩ := id hfirst
  rw [findByPath?_of_isPath hpath, hl.splitColons_fullName ho he hpos hplain (hn first hfirst)]
    at hfound
  refine le_of_resolve hl hpre hfound (hn found hcarries) (hn first hfirst) (lt_size_of_get? he)
    (hl.below_root (lt_size_of_get? he)) ?_
  rw [hl.path_root, List.nil_append]

end Outline

/-- **Paths lead back**: the path of an entity is its full name, and if that is a path, both
lookups find an entity that has it for its full name.  The index finds the first one; so
does the walk, if the names of the first one and its scopes hold no double colon and all
entities of that full name lie in scopes with names. -/
theorem parse_paths_round_trip [Alphabet] {options : Options} {file : String} {source : Text}
    {o : Outline}
    (h : parse options file source = .ok o) {i : EntityId} {e : Entity} (he : o.get? i = some e)
    (hn : e.name ≠ []) :
    o.fullPath i = e.fullName ∧ (e.fullName.IsPath → ∃ first found,
      o.lookup? e.fullName = some first ∧ o.findByPath? (o.fullPath i) = some found ∧
      o.Carries first e.fullName ∧ (∀ j, o.Carries j e.fullName → first ≤ j) ∧
      o.Carries found e.fullName ∧
      (o.IsPlainThroughout first → (∀ j, o.Carries j e.fullName → o.IsNamedThroughout j) →
        found = first)) := by
  have hnested := parse_nested h
  have hl := hnested.linked
  have hfull := hl.fullPath_eq he
  refine ⟨hfull, fun hpath => ?_⟩
  have hcarries : o.Carries i e.fullName := ⟨e, he, hn, rfl⟩
  obtain ⟨first, hlookup, hfirst, hleast⟩ := Outline.lookup?_spec hl.toParented hpath hcarries
  obtain ⟨found, hfind, hfound⟩ :=
    Outline.findByPath?_spec hl.toTreelike hnested.open hpath hcarries
  refine ⟨first, found, hlookup, hfull ▸ hfind, hfirst, hleast, hfound, fun hplain hnamed => ?_⟩
  exact Outline.find_eq_first hl hnested.open hnested.preordered hpath hfirst hleast hplain hfind
    hfound hnamed

/-- A scope that is opened twice, with a member of the same name each time. -/
theorem parse_paths_round_trip_reopened :
    ∃ o e first found, parse .standard "a.h"
        "namespace a \x7b int x; \x7d namespace a \x7b int x; \x7d".toList = .ok o ∧
      o.get? 4 = some e ∧ e.fullName = "a::x".toList ∧
      o.lookup? e.fullName = some first ∧ o.findByPath? (o.fullPath 4) = some found ∧
      o.Carries found e.fullName ∧ first ≤ 4 := by
  have hread : (match parse .standard "a.h"
        "namespace a \x7b int x; \x7d namespace a \x7b int x; \x7d".toList with
      | .ok o => (o.get? 4).map fun e => (e.name, e.fullName)
      | .error _ => none) = some ("x".toList, "a::x".toList) := by decide +kernel
  have hpath : Text.IsPath "a::x".toList := ⟨by decide, by decide, by decide⟩
  cases h : parse .standard "a.h"
      "namespace a \x7b int x; \x7d namespace a \x7b int x; \x7d".toList with
  | error e =>
    rw [h] at hread
    cases hread
  | ok o =>
    rw [h] at hread
    obtain ⟨e, he, hnames⟩ := Option.map_eq_some_iff.mp hread
    obtain ⟨hname, hfull⟩ := Prod.mk.inj hnames
    have hn : e.name ≠ [] := hname ▸ by decide
    obtain ⟨first, found, hlookup, hfind, -, hleast, hfound, -⟩ :=
      (parse_paths_round_trip h he hn).2 (hfull ▸ hpath)
    exact ⟨o, e, first, found, rfl, he, hfull, hlookup, hfind, hfound,
      hleast 4 ⟨e, he, hn, rfl⟩⟩

/-- A name that starts with a pair of colons is no path, and its entity is not found. -/
theorem parse_global_qualifier_not_found :
    ∃ o e, parse .standard "a.h" "using namespace ::std;".toList = .ok o ∧ o.get? 1 = some e ∧
      e.name = "::std".toList ∧ o.lookup? e.fullName = some 1 ∧
      o.findByPath? (o.fullPath 1) = none := by
  have hread : (match parse .standard "a.h" "using namespace ::std;".toList with
      | .ok o => (o.get? 1).map fun e =>
        (e.name, o.lookup? e.fullName, o.findByPath? (o.fullPath 1))
      | .error _ => none) = some ("::std".toList, some 1, none) := by decide +kernel
  cases h : parse .standard "a.h" "using namespace ::std;".toList with
  | error e =>
    rw [h] at hread
    cases hread
  | ok o =>
    rw [h] at hread
    obtain ⟨e, he, hnames⟩ := Option.map_eq_some_iff.mp hread
    simp only [Prod.mk.injEq] at hnames
    exact ⟨o, e, rfl, he, hnames⟩

end HeaderOutline
