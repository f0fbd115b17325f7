import HeaderOutline.Proofs.Nesting
import HeaderOutline.Proofs.Respaced.Moved
import HeaderOutline.Proofs.Returns.Directive
import HeaderOutline.Proofs.Returns.Scan
import HeaderOutline.Text.Unicode

/-! # Lines that end in carriage returns

A header whose lines end in a carriage return and a line feed has the outline that it has with
line feeds alone, and its texts are the same but for the carriage returns (`parse_withReturns`).
There is one exception: the mark of another kind of comment at the end of a comment is no longer
at the end, so that it may stay in the name of the comment (`parse_withReturns_fails`).
-/
namespace HeaderOutline

open Tokens

/-- Entities whose texts become the same once the carriage returns are removed that stand in
the second one alone. -/
structure Entity.Returned (e e' : Entity) : Prop where
  kind : e'.kind = e.kind
  name : Text.Returned e.name e'.name
  /-- Only a directive, which is named for all of its text, shows carriage returns in its name. -/
  name_eq : e.kind ≠ .directive → e'.name = e.name
  fullName : Text.Returned e.fullName e'.fullName
  signature : Text.Returned e.signature e'.signature
  access : e'.access = e.access
  flags : e'.flags = e.flags
  template : e'.template = e.template
  body : Option.Rel (fun b b' : Body => Text.Returned b.text b'.text) e.body e'.body
  /-- Documentation differs in its raw text and in its place at most. -/
  comment : Option.Rel (fun c c' : DocComment => Text.Returned c.raw c'.raw ∧
    c' = { c with raw := c'.raw, span := c'.span }) e.comment e'.comment
  parent : e'.parent = e.parent
  children : e'.children = e.children

/-- Outlines with the same entities and the same complaints. -/
structure Outline.Returned (o o' : Outline) : Prop where
  entities : List.Forall₂ Entity.Returned o.entities.toList o'.entities.toList
  codes : o'.diagnostics.toList.map (·.code) = o.diagnostics.toList.map (·.code)

/-- The children of an entity are told by the parents of all. -/
theorem Outline.Linked.children_eq {o o' : Outline} (h : o.Linked) (h' : o'.Linked)
    (hsize : o'.entities.size = o.entities.size) (hp : ∀ i, o'.parent? i = o.parent? i)
    {i : EntityId} {e e' : Entity} (he : o.get? i = some e) (he' : o'.get? i = some e') :
    e'.children = e.children := by
  refine Array.toList_inj.mp ?_
  rw [h.children i e he, h'.children i e' he', hsize]
  exact congrArg (List.filter · _) (funext fun j => by rw [hp])

theorem Outline.Respaced.returned {m : Numbering} {o o' : Outline}
    (h : Outline.Respaced .returning m o o') (hl : o.Linked) (hl' : o'.Linked) :
    o.Returned o' := by
  obtain ⟨hlength, hget⟩ := List.forall₂_iff_get.mp (h.forall₂ Respacing.isStrict_returning)
  have hsize : o'.entities.size = o.entities.size := by simpa using hlength.symm
  have hp : ∀ i, o'.parent? i = o.parent? i := by
    intro i
    unfold parent? get?
    by_cases hi : i < o.entities.size
    · rw [Array.getElem?_eq_getElem hi, Array.getElem?_eq_getElem (hsize ▸ hi)]
      exact (hget i (by simpa using hi) (by simpa [hsize] using hi)).2
    · rw [Array.getElem?_eq_none (Nat.le_of_not_lt hi),
        Array.getElem?_eq_none (hsize ▸ Nat.le_of_not_lt hi)]
  refine ⟨List.forall₂_iff_get.mpr ⟨hlength, fun i hi hi' => ?_⟩, h.codes⟩
  obtain ⟨hsame, hparent⟩ := hget i hi hi'
  have he : o.get? i = some (o.entities.toList.get ⟨i, hi⟩) := by simp [get?]
  have he' : o'.get? i = some (o'.entities.toList.get ⟨i, hi'⟩) := by simp [get?]
  exact ⟨hsame.kind, hsame.name, hsame.name_eq, hsame.fullName, hsame.signature, hsame.access,
    hsame.flags, hsame.template, hsame.body, hsame.comment, hparent,
    hl.children_eq hl' hsize hp he he'⟩

section

variable {options : Options} {file : String} {source : Text}

/-- The tokens of a text whose lines end in carriage returns. -/
theorem Token.returned_withReturns [Alphabet] {l : Limits} (hr : '\r' ∉ source)
    (h : (scan l source).any isError = false)
    (h' : (scan l source.withReturns).any isError = false)
    (hs : KeepNames (scan l source)) :
    Tokens.Returned (scan l source).dropLast (scan l source.withReturns).dropLast := by
  obtain ⟨zs, hcuts, hsound, hscan⟩ := exists_cuts_of_scan h
  obtain ⟨ws, hcuts', -, hscan'⟩ := exists_cuts_of_scan h'
  have hnames : KeepNames (placed .origin zs) :=
    hscan ▸ hs.of_infix (List.dropLast_prefix _).isInfix
  obtain ⟨ys, hys, hreturned⟩ := hcuts.withReturns hr
    (fun z hz => bne_iff_ne.mp (List.all_eq_true.mp hsound z hz)) hnames
  rw [hscan, hscan', hcuts'.unique hys]
  exact hreturned .origin

/-- **Line ends do not count.**  A header without carriage returns is read as before if one is
put in front of every line feed: the entities, their kinds, levels and flags and the codes of all
complaints stay, and texts differ in carriage returns at most. -/
theorem parse_withReturns [Alphabet] (hr : '\r' ∉ source)
    (h : (Token.scan options.limits source).any Token.isError = false)
    (h' : (Token.scan options.limits source.withReturns).any Token.isError = false)
    (hs : KeepNames (Token.scan options.limits source)) :
    ExceptRel (fun e e' : ParseError => e'.code = e.code) Outline.Returned
      (parse options file source) (parse options file source.withReturns) := by
  have hrel : ExceptRel _ _ (outlineOf options file source _)
      (outlineOf options file source.withReturns _) :=
    outlineOf_respaced (Respacing.reads_returning _) (.inr fun _ _ => trivial)
      (Token.returned_withReturns hr h h' hs).on (.inl Respacing.isStrict_returning)
  rw [← parse_eq_outlineOf h, ← parse_eq_outlineOf h'] at hrel
  generalize ho : parse options file source = r, ho' : parse options file source.withReturns = r'
    at hrel ⊢
  cases hrel with
  | error hcode => exact .error hcode
  | ok hrel =>
    obtain ⟨m, hrel⟩ := hrel
    exact .ok (hrel.returned (parse_nested ho).linked (parse_nested ho').linked)

/-- Documentation, a definition in two lines and a comment behind a variable. -/
theorem parse_withReturns_lines :
    ∃ o o', parse .standard "a.h" "/// A.\n#define M \\\n 1\nint x; // b\n".toList = .ok o ∧
      parse .standard "a.h" "/// A.\r\n#define M \\\r\n 1\r\nint x; // b\r\n".toList = .ok o' ∧
      o.size = 3 ∧ o.Returned o' := by
  obtain ⟨o, h, hsize⟩ := exists_of_toOption_any (p := (·.size == 3))
    (x := parse .standard "a.h" "/// A.\n#define M \\\n 1\nint x; // b\n".toList)
    (by decide +kernel)
  have htext : Text.withReturns "/// A.\n#define M \\\n 1\nint x; // b\n".toList
      = "/// A.\r\n#define M \\\r\n 1\r\nint x; // b\r\n".toList := by decide +kernel
  have hrel : ExceptRel _ _
      (parse .standard "a.h" "/// A.\n#define M \\\n 1\nint x; // b\n".toList) _ :=
    parse_withReturns (by decide +kernel) (by decide +kernel) (by decide +kernel)
      (keepNames_of_marks (by decide +kernel))
  rw [htext, h] at hrel
  generalize ho : parse .standard "a.h"
    "/// A.\r\n#define M \\\r\n 1\r\nint x; // b\r\n".toList = r at hrel ⊢
  cases hrel with
  | ok hrel => exact ⟨o, _, h, rfl, eq_of_beq hsize, hrel⟩

/-- A comment that ends in the mark of another kind has the mark in its name if its line ends in a
carriage return. -/
theorem parse_withReturns_fails :
    '\r' ∉ "// foo*/\n".toList ∧
      (Token.scan .standard "// foo*/\n".toList).any Token.isError = false ∧
      (Token.scan .standard "// foo*/\r\n".toList).any Token.isError = false ∧
      Text.withReturns "// foo*/\n".toList = "// foo*/\r\n".toList ∧
      ∃ o o' e e', parse .standard "a.h" "// foo*/\n".toList = .ok o ∧
        parse .standard "a.h" "// foo*/\r\n".toList = .ok o' ∧
        o.entities.toList[1]? = some e ∧ o'.entities.toList[1]? = some e' ∧
        e'.name.withoutReturns ≠ e.name.withoutReturns ∧ ¬o.Returned o' := by
  obtain ⟨o, h, hname⟩ := exists_of_toOption_any
    (p := fun o => (o.entities.toList[1]?).any (·.name == "foo".toList))
    (x := parse .standard "a.h" "// foo*/\n".toList) (by decide +kernel)
  obtain ⟨o', h', hname'⟩ := exists_of_toOption_any
    (p := fun o => (o.entities.toList[1]?).any (·.name == "foo*/".toList))
    (x := parse .standard "a.h" "// foo*/\r\n".toList) (by decide +kernel)
  rw [Option.any_eq_true] at hname hname'
  obtain ⟨e, he, hname⟩ := hname
  obtain ⟨e', he', hname'⟩ := hname'
  have hne : e'.name.withoutReturns ≠ e.name.withoutReturns := by
    rw [eq_of_beq hname, eq_of_beq hname']
    decide
  refine ⟨by decide +kernel, by decide +kernel, by decide +kernel, by decide +kernel, o, o', e, e',
    h, h', he, he', hne, fun hreturned => hne ?_⟩
  obtain ⟨hi, rfl⟩ := List.getElem?_eq_some_iff.mp he
  obtain ⟨hi', rfl⟩ := List.getElem?_eq_some_iff.mp he'
  exact (hreturned.entities.get hi hi').name.withoutReturns_eq

end

end HeaderOutline
