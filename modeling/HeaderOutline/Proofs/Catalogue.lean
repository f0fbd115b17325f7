import HeaderOutline.Proofs.Changes

/-! # The index of full names

An index of full names can be kept beside an outline (`Catalogue`): when an entity with a name is
attached, its full name is entered with its number, unless there is such an entry already.  After
any changes that index is the one that is read off the outline (`Catalogue.Built.exact`), and it
leads from a full name to the first entity that carries it (`Catalogue.lookup?_exact`).
-/
namespace HeaderOutline

namespace Outline

variable {o : Outline} {i j parent : EntityId} {e new : Entity} {full : Text}

/-! ## The first entity of a full name -/

/-- The full name that an entity gets when it is attached. -/
def fullNameFor (o : Outline) (parent : EntityId) (e : Entity) : Text :=
  qualify (((o.get? (o.hostOf parent)).map (·.fullName)).getD []) e.name

/-- A new entity carries the full name that it gets, and the others carry theirs. -/
theorem carries_attach_iff (o : Outline) (parent : EntityId) (new : Entity) :
    (o.attach parent new).Carries i full ↔ o.Carries i full ∨
      i = o.entities.size ∧ new.name ≠ [] ∧ o.fullNameFor parent new = full := by
  constructor
  · rintro ⟨e, he, hn, hfull⟩
    have hlt := lt_size_of_get? he
    rw [size_entities_attach] at hlt
    rcases Nat.lt_succ_iff_lt_or_eq.mp hlt with hlt | rfl
    · rw [get?_attach_of_lt hlt] at he
      obtain ⟨q, hq, rfl⟩ := Option.map_eq_some_iff.mp he
      refine .inl ⟨q, hq, ?_⟩
      split at hn <;> split at hfull <;> exact ⟨hn, hfull⟩
    · rw [get?_attach_size] at he
      obtain rfl := Option.some.inj he
      exact .inr ⟨rfl, hn, hfull⟩
  · rintro (⟨e, he, hn, hfull⟩ | ⟨rfl, hn, hfull⟩)
    · rw [Carries, get?_attach_of_lt (lt_size_of_get? he), he]
      refine ⟨_, rfl, ?_⟩
      split <;> exact ⟨hn, hfull⟩
    · exact ⟨_, o.get?_attach_size parent new, hn, hfull⟩

/-- **The first one stays**: a new entity is found by its full name if no other one was. -/
theorem firstOf?_attach (h : o.Parented) (parent : EntityId) (new : Entity) (full : Text) :
    (o.attach parent new).firstOf? full = (o.firstOf? full).or
      (if new.name ≠ [] ∧ o.fullNameFor parent new = full then some o.entities.size else none) := by
  cases hfirst : o.firstOf? full with
  | some i =>
    obtain ⟨hi, hleast⟩ := (firstOf?_eq_some_iff h).mp hfirst
    rw [Option.some_or, firstOf?_eq_some_iff (h.attach parent new), carries_attach_iff]
    refine ⟨.inl hi, fun j hj => ?_⟩
    rcases (carries_attach_iff o parent new).mp hj with hj | ⟨rfl, -⟩
    · exact hleast j hj
    · obtain ⟨e, he, -⟩ := hi
      exact Nat.le_of_lt (lt_size_of_get? he)
  | none =>
    have hnone := (firstOf?_eq_none_iff h).mp hfirst
    rw [Option.none_or]
    split
    · next hnew =>
      rw [firstOf?_eq_some_iff (h.attach parent new), carries_attach_iff]
      refine ⟨.inr ⟨rfl, hnew⟩, fun j hj => ?_⟩
      rcases (carries_attach_iff o parent new).mp hj with hj | ⟨rfl, -⟩
      · exact absurd hj (hnone j)
      · exact Nat.le_refl _
    · next hnew =>
      rw [firstOf?_eq_none_iff (h.attach parent new)]
      intro j hj
      rcases (carries_attach_iff o parent new).mp hj with hj | ⟨-, hj⟩
      · exact hnone j hj
      · exact hnew hj

/-! ## The index that is read off an outline -/

/-- The index holds the first entity of each full name. -/
theorem mem_index_iff : (full, i) ∈ o.index ↔ o.firstOf? full = some i := by
  rw [index, List.mem_filterMap]
  constructor
  · rintro ⟨k, -, hk⟩
    cases he : o.get? k with
    | none =>
      rw [he] at hk
      cases hk
    | some e =>
      rw [he] at hk
      obtain ⟨hfirst, hentry⟩ := Option.ite_none_right_eq_some.mp hk
      obtain ⟨rfl, rfl⟩ := Prod.mk.inj (Option.some.inj hentry)
      exact eq_of_beq hfirst
  · intro hfirst
    refine ⟨i, List.mem_of_find?_eq_some hfirst, ?_⟩
    have hi := List.find?_some hfirst
    cases he : o.get? i with
    | none => simp [he] at hi
    | some e =>
      obtain ⟨-, rfl⟩ : e.name ≠ [] ∧ e.fullName = full := by simpa [he] using hi
      simp [hfirst]

/-- The first entity of a full name is found in the index. -/
theorem lookup_index (o : Outline) (full : Text) : o.index.lookup full = o.firstOf? full := by
  cases hlookup : o.index.lookup full with
  | some i =>
    obtain ⟨before, behind, hsplit, -⟩ := List.lookup_eq_some_iff.mp hlookup
    have hmem : (full, i) ∈ o.index := hsplit ▸ by simp
    exact (mem_index_iff.mp hmem).symm
  | none =>
    cases hfirst : o.firstOf? full with
    | none => rfl
    | some i =>
      have hno := List.lookup_eq_none_iff.mp hlookup _ (mem_index_iff.mpr hfirst)
      simp at hno

theorem ids_attach (h : 0 < o.entities.size) (parent : EntityId) (new : Entity) :
    (o.attach parent new).ids = o.ids ++ [o.entities.size] := by
  have hsize : (o.attach parent new).size = o.size + 1 := by
    rw [size, size, size_entities_attach]
    omega
  rw [ids, hsize, List.range'_1_concat, ids, Nat.add_comm 1, size, Nat.sub_add_cancel h]

/-- **A new entity comes last in the index**, if it has a name, and its full name is not there
yet. -/
theorem index_attach (h : o.Parented) (parent : EntityId) (new : Entity) :
    (o.attach parent new).index = o.index ++
      if new.name ≠ [] ∧ o.firstOf? (o.fullNameFor parent new) = none then
        [(o.fullNameFor parent new, o.entities.size)] else [] := by
  rw [index, ids_attach h.size_pos, List.filterMap_append, index]
  congr 1
  · refine List.filterMap_congr fun i hi => ?_
    have hlt := (h.mem_ids_iff.mp hi).2
    obtain ⟨e, he⟩ := exists_get? hlt
    have hfull : ((o.attach parent new).get? i).map (·.fullName) = some e.fullName := by
      rw [get?_attach_of_lt hlt, he, Option.map_some, Option.map_some]
      split <;> rfl
    obtain ⟨e', he', hsame⟩ := Option.map_eq_some_iff.mp hfull
    simp only [he, he', hsame, firstOf?_attach h]
    -- the new entity takes the place of no other one
    cases o.firstOf? e.fullName with
    | some j => rw [Option.some_or]
    | none =>
      rw [Option.none_or]
      split
      · have hne : ¬o.entities.size = i := Nat.ne_of_gt hlt
        simp [hne]
      · rfl
  · have hself := firstOf?_attach h parent new (o.fullNameFor parent new)
    obtain ⟨e, he, hfull⟩ : ∃ e, (o.attach parent new).get? o.entities.size = some e ∧
        e.fullName = o.fullNameFor parent new := ⟨_, o.get?_attach_size parent new, rfl⟩
    simp only [List.filterMap_cons, List.filterMap_nil, he, hfull, hself]
    cases hfirst : o.firstOf? (o.fullNameFor parent new) with
    | some i =>
      obtain ⟨e, he, -⟩ := ((firstOf?_eq_some_iff h).mp hfirst).1
      have hne : ¬i = o.entities.size := Nat.ne_of_lt (lt_size_of_get? he)
      simp [hne]
    | none => by_cases hn : new.name = [] <;> simp [hn]

/-- A changed comment leaves the index as it is. -/
theorem index_modifyComment (o : Outline) (id : EntityId)
    (f : Option DocComment → Option DocComment) : (o.modifyComment id f).index = o.index :=
  congrArg Lookups.index (o.recomments_modifyComment id f).lookups

end Outline

/-! ## An index that is kept -/

/-- An outline, and beside it full names with the entities that they lead to, in the order in which
they were entered. -/
structure Catalogue where
  outline : Outline
  register : List (Text × EntityId)

namespace Catalogue

/-- A full name is entered, unless it is there already. -/
def enter (register : List (Text × EntityId)) (full : Text) (id : EntityId) :
    List (Text × EntityId) :=
  if (register.lookup full).isSome then register else register ++ [(full, id)]

/-- The catalogue of the root alone. -/
def ofSource (file : String) (source : Text) : Catalogue := ⟨.ofSource file source, []⟩

/-- The catalogue after a change: an entity that is attached is entered if it has a name. -/
def apply (c : Catalogue) (change : Outline.Change) : Catalogue where
  outline := c.outline.apply change
  register := match change with
    | .attach parent e =>
      if e.name.isEmpty then c.register
      else enter c.register (c.outline.fullNameFor parent e) c.outline.entities.size
    | _ => c.register

/-- The catalogue after some changes, the first one first. -/
def after (c : Catalogue) (changes : List Outline.Change) : Catalogue := changes.foldl apply c

/-- The entity of a full name: the one that was entered, or the root if the name is made of colons
alone. -/
def lookup? (c : Catalogue) (full : Text) : Option EntityId :=
  if (full.strip (· == ':')).isEmpty then some Outline.root else c.register.lookup full

/-- A catalogue was built from that of the root alone. -/
def Built (c : Catalogue) : Prop := ∃ file source changes, c = (ofSource file source).after changes

/-- The entities of the outline have their parents, and what was entered is the index that is read
off it. -/
structure Exact (c : Catalogue) : Prop where
  parented : c.outline.Parented
  register_eq : c.register = c.outline.index

variable {c : Catalogue}

theorem exact_ofSource (file : String) (source : Text) : (ofSource file source).Exact :=
  ⟨.ofSource file source, rfl⟩

/-- **A change keeps the index exact.** -/
theorem Exact.apply (h : c.Exact) (change : Outline.Change) : (c.apply change).Exact := by
  refine ⟨h.parented.apply change, ?_⟩
  cases change with
  | attach parent e =>
    have hindex := Outline.index_attach h.parented parent e
    show (if e.name.isEmpty then c.register else _) = (c.outline.attach parent e).index
    rw [hindex, enter, h.register_eq, Outline.lookup_index]
    by_cases hn : e.name = []
    · simp [hn]
    · cases c.outline.firstOf? (c.outline.fullNameFor parent e) <;> simp [hn]
  | setComment id comment =>
    exact h.register_eq.trans (c.outline.index_modifyComment id fun _ => comment).symm
  | modifyComment id f => exact h.register_eq.trans (c.outline.index_modifyComment id f).symm
  | report d => exact h.register_eq

theorem Exact.after (h : c.Exact) (changes : List Outline.Change) : (c.after changes).Exact := by
  induction changes generalizing c with
  | nil => exact h
  | cons change changes ih => exact ih (h.apply change)

/-- The index that was kept is the one that is read off the outline. -/
theorem Built.exact (h : c.Built) : c.Exact := by
  obtain ⟨file, source, changes, rfl⟩ := h
  exact (exact_ofSource file source).after changes

theorem outline_after (c : Catalogue) (changes : List Outline.Change) :
    (c.after changes).outline = c.outline.after changes := by
  induction changes generalizing c with
  | nil => rfl
  | cons change changes ih => exact ih (c.apply change)

/-- An index can be kept beside every outline that was built. -/
theorem exists_built {o : Outline} (h : o.Built) : ∃ c : Catalogue, c.Built ∧ c.outline = o := by
  obtain ⟨file, source, changes, rfl⟩ := h
  exact ⟨_, ⟨file, source, changes, rfl⟩, outline_after _ changes⟩

/-- The entity of a full name is the one that is found in the outline. -/
theorem Exact.lookup?_eq (h : c.Exact) (full : Text) : c.lookup? full = c.outline.lookup? full := by
  rw [lookup?, h.register_eq, Outline.lookup_index, Outline.lookup?]

/-- **The index of full names is exact.**  Every entity has its full path for its full name; the
index that was kept is the one that is read off the outline; and a full name that holds another
character than colons leads to the first entity that has a name and that full name, or nowhere if
there is none. -/
theorem lookup?_exact (h : c.Built) :
    (∀ i e, c.outline.get? i = some e → e.fullName = c.outline.fullPath i) ∧
    c.register = c.outline.index ∧
    ∀ full, (∃ x ∈ full, x ≠ ':') →
      c.outline.lookup? full = c.lookup? full ∧
      (∀ i, c.lookup? full = some i ↔
        0 < i ∧ c.outline.Carries i full ∧ ∀ j, c.outline.Carries j full → i ≤ j) ∧
      (c.lookup? full = none ↔ ∀ i, ¬c.outline.Carries i full) := by
  have hexact := h.exact
  have hl := hexact.parented
  refine ⟨fun i e he => (hl.fullPath_eq he).symm, hexact.register_eq, fun full hfull => ?_⟩
  obtain ⟨x, hx, hne⟩ := hfull
  have hfirst : c.lookup? full = c.outline.firstOf? full := by
    have hstrip := Text.strip_ne_nil (p := (· == ':')) hx (by simpa using hne)
    rw [lookup?, if_neg (by simpa using hstrip), hexact.register_eq, Outline.lookup_index]
  refine ⟨(hexact.lookup?_eq full).symm, fun i => ?_, ?_⟩
  · rw [hfirst, Outline.firstOf?_eq_some_iff hl]
    constructor
    · rintro ⟨hi, hleast⟩
      exact ⟨hi.pos hl, hi, hleast⟩
    · rintro ⟨-, hi, hleast⟩
      exact ⟨hi, hleast⟩
  · rw [hfirst, Outline.firstOf?_eq_none_iff hl]

/-- Of two entities of one full name, one of them in an unnamed namespace, the first one is
found. -/
theorem lookup?_exact_twice :
    ∃ c : Catalogue, c = (ofSource "a.h" []).after
        [.attach 0 (.bare .namespaceDecl ['a'] []), .attach 1 (.bare .namespaceDecl [] []),
          .attach 2 (.bare .variableDecl ['x'] []), .attach 0 (.bare .usingDecl "a::x".toList [])] ∧
      c.outline.fullPath 2 = ['a'] ∧ c.outline.fullPath 4 = "a::x".toList ∧
      c.lookup? "a::x".toList = some 3 ∧ c.outline.lookup? "a::x".toList = some 3 ∧
      ∀ j, c.outline.Carries j "a::x".toList → 3 ≤ j := by
  refine ⟨_, rfl, ?_⟩
  generalize hc : (ofSource "a.h" []).after _ = c
  have hread : (c.outline.get? 2).map (·.fullName) = some ['a'] ∧
      (c.outline.get? 4).map (·.fullName) = some "a::x".toList ∧
      c.lookup? "a::x".toList = some 3 := by
    rw [← hc]
    decide +kernel
  obtain ⟨hunnamed, htwice, hfound⟩ := hread
  obtain ⟨hpaths, -, hlookup⟩ := lookup?_exact (c := c) ⟨_, _, _, hc.symm⟩
  obtain ⟨heq, hleast, -⟩ := hlookup "a::x".toList ⟨'a', by decide, by decide⟩
  obtain ⟨u, hu, hufull⟩ := Option.map_eq_some_iff.mp hunnamed
  obtain ⟨e, he, hefull⟩ := Option.map_eq_some_iff.mp htwice
  exact ⟨(hpaths 2 u hu).symm.trans hufull, (hpaths 4 e he).symm.trans hefull, hfound,
    heq.trans hfound, ((hleast 3).mp hfound).2.2⟩

end Catalogue
end HeaderOutline
