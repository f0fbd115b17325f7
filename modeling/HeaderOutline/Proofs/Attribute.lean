import HeaderOutline.Proofs.Attribute.Head
import HeaderOutline.Proofs.Sole
import HeaderOutline.Text.Unicode

/-! # Declarations behind an attribute

An attribute in front of a declaration changes nothing only if the declaration is read as a
function: what reads a variable takes the first bracket of the attribute for the start of an
initializer.  And a function is what it is by itself if the attribute is plain and a name of
the function comes before its parentheses; so much the attribute may leave behind without
being noticed (`parse_attributed`).
-/
namespace HeaderOutline

open Construct

/-- An attribute in front of a declaration leaves a header of one entity, of the same kind and
name and with the same flags. -/
def Text.IsTransparent [Alphabet] (options : Options) (file : String) (inner declaration : Text)
    (e : Entity) : Prop :=
  ∃ o' e', parse options file (Text.attributed inner declaration) = .ok o' ∧ o'.HasOnly e' ∧
    e'.kind = e.kind ∧ e'.name = e.name ∧ e'.flags = e.flags

/-- Drafts of one form, name and flags make alike entities. -/
theorem Draft.Makes.congr {d d' : Draft} {e e' : Entity} (h : d.Makes e) (h' : d'.Makes e')
    (hform : d'.form = d.form) (hname : d'.name = d.name) (hflags : d'.flags = d.flags) :
    e'.kind = e.kind ∧ e'.name = e.name ∧ e'.flags = e.flags := by
  refine ⟨?_, ?_, ?_⟩
  · rw [h'.kind, h.kind, hform, hname]
  · rw [h'.name, h.name, hname]
  · rw [h'.flags, h.flags, hflags]

/-- A header that starts with an attribute starts with a declaration. -/
theorem Tokens.Attributed.exists_front {inner behind all : List Token}
    (h : Tokens.Attributed inner behind all) :
    ∃ t rest, all = t :: rest ∧ skipTrivia all = t :: rest ∧ t.kind = .punct .lBracket ∧
      ∀ ds merge, Construct.read ds merge t rest = Declaration.read ds (.none t) all := by
  obtain @⟨a, b, c, d, ha, hb, hc, hd⟩ := h
  refine ⟨a, _, rfl, skipTrivia_of_not (by rw [ha]; rfl), ha, fun ds merge => ?_⟩
  simp only [Construct.read, ha]

section

variable {options : Options} {file : String} {inner declaration : Text} {o : Outline} {e : Entity}
  {ts behind : List Token}

/-- The probe takes a declaration behind an attribute for what it is by itself. -/
theorem Token.isFunction_scan_attributed [Alphabet] {l : Limits}
    (hi : ∀ t ∈ scan l inner, t.kind ≠ .error ∧ t.kind.isComment = false)
    (hn : Tokens.Nested (scan l inner).dropLast) (hd : (scan l declaration).any isError = false)
    (hs : (scan l (Text.attributed inner declaration)).any isError = false) :
    Declaration.isFunction (scan l (Text.attributed inner declaration)).dropLast
      = Declaration.isFunction (scan l declaration).dropLast := by
  obtain ⟨f, g, blank, us, hf, hg, hb, hskip, hall⟩ := exists_attributed hi hd hs
  rw [Declaration.isFunction_attributed hall (hn.map f) hb, Declaration.isFunction_map,
    ← Declaration.isFunction_skipTrivia us, hskip, Declaration.isFunction_skipTrivia]

/-- **No variable is read behind an attribute**, so that only what looks like a function can
stay what it is. -/
theorem Text.IsTransparent.isFunction [Alphabet]
    (hall : Tokens.Attributed ts behind
      (Token.scan options.limits (attributed inner declaration)).dropLast)
    (h : IsTransparent options file inner declaration e) :
    Declaration.isFunction
      (Token.scan options.limits (attributed inner declaration)).dropLast = true := by
  obtain ⟨o', e', h', ho', -⟩ := h
  obtain ⟨a, tail, hstart, hfront, ha, hread⟩ := hall.exists_front
  obtain ⟨-, done, hrun, rfl⟩ := parse_eq_ok_iff.mp h'
  have hclean : done.outline.diagnostics = #[] := done.diagnostics_finish ▸ ho'.diagnostics
  obtain ⟨item, rest, hfirst, -⟩ := Building.exists_read_of_run hfront hrun hclean
  rw [← Bool.not_eq_false]
  intro hvariable
  rw [hread, Declaration.read, hvariable, if_neg Bool.false_ne_true, hstart] at hfirst
  obtain ⟨_, _, _, hfails⟩ := Variable.read_bracket_fails _ _ tail ha
  cases hfails.symm.trans hfirst

/-- **A function keeps its entity behind a plain attribute**, if a name comes before its
parentheses. -/
theorem Text.isTransparent_of_isFunction [Alphabet] (hm : options.predefined = [])
    (hi : ∀ t ∈ Token.scan options.limits inner, t.kind ≠ .error ∧ t.kind.isComment = false)
    (hn : Tokens.Nested (Token.scan options.limits inner).dropLast)
    (hd : ∀ t ∈ Token.scan options.limits declaration,
      t.kind ≠ .punct .hash ∧ t.kind.isComment = false)
    (h : parse options file declaration = .ok o) (ho : o.HasOnly e)
    (hk : e.kind = .function ∨ e.kind = .variableDecl)
    (hs : (Token.scan options.limits (attributed inner declaration)).any Token.isError = false)
    (hfunction : Declaration.isFunction (Token.scan options.limits declaration).dropLast = true)
    (hplain : ∀ t ∈ (Token.scan options.limits inner).dropLast, t.kind ∉ Function.noticed)
    (hleads : Function.leadsToName false (Token.scan options.limits declaration).dropLast = true) :
    IsTransparent options file inner declaration e := by
  have hsound := (parse_eq_ok_iff.mp h).1
  obtain ⟨f, g, blank, us, hf, hg, hb, hskip, hall⟩ := Token.exists_attributed hi hsound hs
  obtain ⟨a, tail, -, hstart, -, hread⟩ := hall.exists_front
  obtain ⟨t, behind, item, rest, hfront, hfirst, hmakes, hidle⟩ :=
    exists_read_of_hasOnly hm h ho hd
  have hprobed : Declaration.isFunction (t :: behind) = true := by
    rw [← hfront, Declaration.isFunction_skipTrivia, hfunction]
  rcases read_of_isFunction options.mergeLineComments hprobed with hf' | htype
  · rw [hf', ← hfront, ← hskip] at hfirst
    have hleads' : Function.leadsToName false us = true := by
      rw [← Function.leadsToName_skipTrivia, hskip, Function.leadsToName_skipTrivia, hleads]
    have hplain' : ∀ t ∈ (Token.scan options.limits inner).dropLast.map f,
        t.kind ∉ Function.noticed := by
      intro t ht
      obtain ⟨u, hu, rfl⟩ := List.mem_map.mp ht
      rw [Token.Alike.kind (f := f)]
      exact hplain u hu
    obtain ⟨d, d', rfl, hfirst', hform, hname, hflags⟩ :=
      Function.read_attributed .empty (.none a) g hall hplain' hb hleads' hfirst
    have hprobe := (Token.isFunction_scan_attributed hi hn hsound hs).trans hfunction
    rw [← if_pos hprobe (t := Function.read _ _ _), ← Declaration.read, ← hread] at hfirst'
    obtain ⟨o', e', h', ho', hmakes'⟩ := hasOnly_of_read hm hs hstart hfirst' ((hidle d rfl).map g)
    exact ⟨o', e', h', ho', (hmakes d rfl).congr hmakes' hform hname hflags⟩
  · -- the entity of a type is neither a function nor a variable
    rw [hfirst] at htype
    obtain ⟨d, hdraft, kind, hkind, hform⟩ := htype
    have he := (hmakes d hdraft).kind
    rw [hform] at he
    have he : e.kind = kind := he
    rw [← he] at hkind
    rcases hk with hk | hk <;> rw [hk] at hkind <;> exact absurd hkind (by decide)

/-- **An attribute in front of a declaration.**  For a declaration that by itself makes a single
function or variable, an attribute in front of it changes nothing only if the probe takes the
declaration for a function; and then it changes nothing if the attribute is plain, and if in
the declaration a name comes before the parentheses. -/
theorem parse_attributed [Alphabet] (hm : options.predefined = [])
    (hi : ∀ t ∈ Token.scan options.limits inner, t.kind ≠ .error ∧ t.kind.isComment = false)
    (hn : Tokens.Nested (Token.scan options.limits inner).dropLast)
    (hd : ∀ t ∈ Token.scan options.limits declaration,
      t.kind ≠ .punct .hash ∧ t.kind.isComment = false)
    (h : parse options file declaration = .ok o) (ho : o.HasOnly e)
    (hk : e.kind = .function ∨ e.kind = .variableDecl)
    (hl : options.limits.Admits (Text.attributed inner declaration)) :
    (Text.IsTransparent options file inner declaration e →
      Declaration.isFunction (Token.scan options.limits declaration).dropLast = true) ∧
    (Declaration.isFunction (Token.scan options.limits declaration).dropLast = true →
      (∀ t ∈ (Token.scan options.limits inner).dropLast, t.kind ∉ Function.noticed) →
      Function.leadsToName false (Token.scan options.limits declaration).dropLast = true →
      Text.IsTransparent options file inner declaration e) := by
  have hsound := (parse_eq_ok_iff.mp h).1
  have hs := Token.any_isError_attributed hi hsound hl
  have hprobe := Token.isFunction_scan_attributed hi hn hsound hs
  obtain ⟨f, g, blank, us, -, -, -, -, hall⟩ := Token.exists_attributed hi hsound hs
  exact ⟨fun ht => hprobe ▸ ht.isFunction hall, fun hfunction hplain hleads =>
    Text.isTransparent_of_isFunction hm hi hn hd h ho hk hs hfunction hplain hleads⟩

end

/-- A plain attribute, in front of a function. -/
theorem parse_attributed_nodiscard :
    ∃ o e, parse .standard "a.h" "int f();".toList = .ok o ∧ o.HasOnly e ∧ e.kind = .function ∧
      Text.IsTransparent .standard "a.h" "nodiscard".toList "int f();".toList e := by
  have hread : (match parse .standard "a.h" "int f();".toList with
      | .ok o => (o.get? 1).map fun e => (o.diagnostics.size, o.size, e.kind)
      | .error _ => none) = some (0, 1, .function) := by decide +kernel
  cases h : parse .standard "a.h" "int f();".toList with
  | error e =>
    rw [h] at hread
    cases hread
  | ok o =>
    rw [h] at hread
    obtain ⟨e, he, hfacts⟩ := Option.map_eq_some_iff.mp hread
    simp only [Prod.mk.injEq] at hfacts
    obtain ⟨hdiagnostics, hsize, hkind⟩ := hfacts
    have ho : o.HasOnly e := ⟨Array.eq_empty_of_size_eq_zero hdiagnostics, hsize, he⟩
    have hadmits : Options.standard.limits.Admits
        (Text.attributed "nodiscard".toList "int f();".toList) := by
      unfold Limits.Admits
      decide +kernel
    exact ⟨o, e, rfl, ho, hkind, (parse_attributed rfl (by decide +kernel)
      (.of_plain (by decide +kernel)) (by decide +kernel) h ho (.inl hkind) hadmits).2
      (by decide +kernel) (by decide +kernel) (by decide +kernel)⟩

/-- A variable does not outlive an attribute. -/
theorem parse_attributed_variable_fails :
    ∃ o e, parse .standard "a.h" "int x;".toList = .ok o ∧ o.HasOnly e ∧
      e.kind = .variableDecl ∧
      ¬ Text.IsTransparent .standard "a.h" "maybe_unused".toList "int x;".toList e := by
  have hread : (match parse .standard "a.h" "int x;".toList with
      | .ok o => (o.get? 1).map fun e => (o.diagnostics.size, o.size, e.kind)
      | .error _ => none) = some (0, 1, .variableDecl) := by decide +kernel
  have hfails : (match parse .standard "a.h"
        (Text.attributed "maybe_unused".toList "int x;".toList) with
      | .ok o => some o.diagnostics.size
      | .error _ => none) = some 1 := by decide +kernel
  cases h : parse .standard "a.h" "int x;".toList with
  | error e =>
    rw [h] at hread
    cases hread
  | ok o =>
    rw [h] at hread
    obtain ⟨e, he, hfacts⟩ := Option.map_eq_some_iff.mp hread
    simp only [Prod.mk.injEq] at hfacts
    obtain ⟨hdiagnostics, hsize, hkind⟩ := hfacts
    refine ⟨o, e, rfl, ⟨Array.eq_empty_of_size_eq_zero hdiagnostics, hsize, he⟩, hkind, ?_⟩
    rintro ⟨o', e', h', ho', -⟩
    rw [h'] at hfails
    have hone : o'.diagnostics.size = 1 := Option.some.inj hfails
    rw [ho'.diagnostics] at hone
    cases hone

end HeaderOutline
