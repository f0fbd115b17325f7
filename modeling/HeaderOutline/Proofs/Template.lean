import HeaderOutline.Proofs.Respaced.Moved
import HeaderOutline.Proofs.Template.First
import HeaderOutline.Proofs.Template.Scan
import HeaderOutline.Proofs.Touch
import HeaderOutline.Text.Unicode

/-! # Templates

A parameter list in front of a header moves all of its tokens.  The outline does not depend on
their places (`Respacing.shifting`), and of the first construct it is the lead alone that is
different, which shows in the first entity and nowhere else (`outlineOf_listed`).  So the
entities of `template <typename T> ...` are those of the declaration itself (`parse_templated`).
-/
namespace HeaderOutline

open Tokens

/-! ## The first entity has one more parameter -/

/-- An entity behind one more parameter list; its places are those of a draft. -/
def Entity.listed (text param : Text) (d : Draft) (e : Entity) : Entity :=
  { e with
    signature := text ++ ' ' :: e.signature
    template := some (param :: e.templateParams)
    sourceRange := d.sourceRange
    headerRange := d.headerRange
    body := d.body }

theorem Entity.isTouch_listed (text param : Text) (d : Draft) :
    Entity.IsTouch (Entity.listed text param d) :=
  ⟨fun _ => rfl, fun _ => rfl, fun _ => rfl, fun _ _ => rfl⟩

section

variable {text param : Text} {i i' : Item} {options : Options} {file : String} {source : Text}
  {o : Outline} {t u : Token} {ts us behind behind' rest : List Token} {d d' : Draft}

theorem Building.emit_listed (h : Draft.Listed text param d d') (b : Building) :
    b.emit d' = (b.emit d).touch b.nextId (Entity.listed text param d') := by
  have hattach := Outline.attach_touch_size (f := Entity.listed text param d') b.outline
    b.scopes.current.entity (d.toEntity b.enclosing b.scopes.current.access b.pending)
    (d'.toEntity b.enclosing b.scopes.current.access b.pending) h.name fun full q => by
      simp only [Draft.toEntity, Entity.bare, Entity.listed, Entity.templateParams, h.form, h.name,
        h.flags, h.signature, h.template]
  exact congrArg (fun o => { b with outline := o, pending := none }) hattach

theorem Building.add_listed (h : Item.Listed text param i i') (b : Building) (size : Nat) :
    ∃ d, b.add size i' = (b.add size i).touch b.nextId (Entity.listed text param d) := by
  cases h with
  | @entity _ d h => exact ⟨d, b.emit_listed h⟩
  | @scope _ d h access =>
    refine ⟨d, ?_⟩
    simp only [add, b.emit_listed h]
    rfl

/-- A parameter list in front of a construct that makes an entity changes that entity. -/
theorem Building.run_listed {policy : Recovery.Policy} {merge : Bool} {size : Nat}
    {b done : Building} (front : skipTrivia ts = t :: behind)
    (front' : skipTrivia us = u :: behind')
    (hread : Construct.read b.definitions merge t behind = .read i rest)
    (hread' : Construct.read b.definitions merge u behind' = .read i' rest)
    (hl : Item.Listed text param i i') (h : run policy merge size b ts = .ok done) :
    ∃ d, run policy merge size b us = .ok (done.touch b.nextId (Entity.listed text param d)) ∧
      (done.touch b.nextId (Entity.listed text param d)).finish
        = done.finish.touch b.nextId (Entity.listed text param d) := by
  rw [run_of_cons front, hread] at h
  rw [run_of_cons front', hread']
  have hrun : run policy merge size (b.add size i) rest = .ok done := h
  obtain ⟨d, hadd⟩ := b.add_listed hl size
  have htouch := Entity.isTouch_listed text param d
  have hlt : b.nextId < (b.add size i).nextId := by
    rw [nextId, nextId, size_add]
    cases hl <;> exact Nat.lt_succ_self _
  have hrun' := run_touch htouch hlt hrun
  rw [← hadd] at hrun'
  exact ⟨d, hrun', finish_touch htouch (Nat.lt_of_lt_of_le hlt (size_le_of_run hrun))⟩

/-- **Headers that differ by a parameter list** in front of their first construct, which makes
an entity, have outlines that differ in that entity. -/
theorem outlineOf_listed (front : skipTrivia ts = t :: behind)
    (front' : skipTrivia us = u :: behind')
    (hread : Construct.read options.definitions options.mergeLineComments t behind = .read i rest)
    (hread' : Construct.read options.definitions options.mergeLineComments u behind'
      = .read i' rest)
    (hl : Item.Listed text param i i') (h : outlineOf options file source ts = .ok o) :
    ∃ d, outlineOf options file source us = .ok (o.touch 1 (Entity.listed text param d)) := by
  unfold outlineOf at h ⊢
  split at h
  · next done hrun =>
    obtain rfl := Except.ok.inj h
    obtain ⟨d, hrun', hfinish⟩ := Building.run_listed
      (b := .start file source options.definitions) front front' hread hread' hl hrun
    rw [hrun']
    exact ⟨d, congrArg Except.ok hfinish⟩
  · cases h

end

/-! ## Tokens at other places -/

/-- Tokens are put at other places, and nothing else changes. -/
def Respacing.shifting : Respacing :=
  { keeping with
    token := Token.Moved
    kind_of_token := fun h => h.kind
    text_of_token := fun h _ => h.text
    not_trivia := fun h => h.not_trivia
    not_loose_of_comment := fun _ _ _ _ => id
    same_of_token := fun h => h.text
    params_of_list := fun _ _ hs _ => congrArg Construct.Template.params hs }

theorem Respacing.isStrict_shifting : Respacing.IsStrict .shifting := fun _ _ => id

/-- Items that count as the same make entities of the same form. -/
theorem Item.Respaced.exists_draft {S : Respacing} {i i' : Item} {d : Draft}
    (h : Item.Respaced S i i') (hd : i.draft? = some d) :
    ∃ d', i'.draft? = some d' ∧ d'.form = d.form := by
  cases h with
  | entity h | scope h _ | access _ h | definition _ _ h | suspect _ _ h =>
    obtain rfl := Option.some.inj hd
    exact ⟨_, rfl, h.form⟩
  | linkage | close | documentation | nothing => cases hd

/-! ## Headers -/

/-- Entities that agree in their kinds, their names, their access levels, their flags and their
parents. -/
structure Entity.Agrees (e e' : Entity) : Prop where
  kind : e'.kind = e.kind
  name : e'.name = e.name
  fullName : e'.fullName = e.fullName
  access : e'.access = e.access
  flags : e'.flags = e.flags
  parent : e'.parent = e.parent

/-- The outline of a header with one more parameter in front: the first entity has it, and so
does its signature; everything else is as it is without the parameter. -/
structure Outline.Templated (text param : Text) (o o' : Outline) : Prop where
  diagnostics : o'.diagnostics = #[]
  size : o'.size = o.size
  agrees : ∀ i e e', o.get? i = some e → o'.get? i = some e' → e.Agrees e'
  first : ∀ e e', o.get? 1 = some e → o'.get? 1 = some e' →
    e'.template = some (param :: e.templateParams) ∧ e'.signature = text ++ ' ' :: e.signature
  others : ∀ i e e', i ≠ 1 → o.get? i = some e → o'.get? i = some e' →
    e'.template = e.template ∧ e'.signature = e.signature

/-- Outlines of tokens at other places differ by a parameter if it is put in front. -/
theorem Outline.Respaced.templated {m : Numbering} {o o' : Outline}
    (h : Outline.Respaced .shifting m o o') (hd : o.diagnostics = #[]) (text param : Text)
    (d : Draft) : o.Templated text param (o'.touch 1 (Entity.listed text param d)) := by
  have hall := h.forall₂ Respacing.isStrict_shifting
  have hsize : o'.entities.size = o.entities.size := by simpa using hall.length_eq.symm
  have hget : ∀ i e e', o.get? i = some e → o'.get? i = some e' →
      Entity.Respaced .shifting m e e' ∧ e'.parent = e.parent := by
    intro i e e' he he'
    rw [Outline.get?, ← Array.getElem?_toList] at he he'
    obtain ⟨hi, rfl⟩ := List.getElem?_eq_some_iff.mp he
    obtain ⟨hi', rfl⟩ := List.getElem?_eq_some_iff.mp he'
    exact List.forall₂_iff_get.mp hall |>.2 i hi hi'
  have htouched : ∀ i q, (o'.touch 1 (Entity.listed text param d)).get? i = some q →
      ∃ e', o'.get? i = some e' ∧ q = if 1 = i then Entity.listed text param d e' else e' := by
    intro i q hq
    rw [Outline.get?_touch] at hq
    split at hq
    · next hi =>
      obtain ⟨e', he', rfl⟩ := Option.map_eq_some_iff.mp hq
      exact ⟨e', he', (if_pos hi).symm⟩
    · next hi => exact ⟨q, hq, (if_neg hi).symm⟩
  refine ⟨h.diagnostics hd, ?_, ?_, ?_, ?_⟩
  · rw [Outline.size, Outline.size_entities_touch, hsize, Outline.size]
  · intro i e q he hq
    obtain ⟨e', he', rfl⟩ := htouched i q hq
    obtain ⟨hsame, hparent⟩ := hget i e e' he he'
    split
    · exact ⟨hsame.kind, hsame.name, hsame.fullName, hsame.access, hsame.flags, hparent⟩
    · exact ⟨hsame.kind, hsame.name, hsame.fullName, hsame.access, hsame.flags, hparent⟩
  · intro e q he hq
    obtain ⟨e', he', rfl⟩ := htouched 1 q hq
    obtain ⟨hsame, -⟩ := hget 1 e e' he he'
    rw [if_pos rfl]
    have htemplate : e'.template = e.template := hsame.template
    have hsignature : e'.signature = e.signature := hsame.signature
    simp only [Entity.listed, Entity.templateParams, htemplate, hsignature, and_self]
  · intro i e q hi he hq
    obtain ⟨e', he', rfl⟩ := htouched i q hq
    obtain ⟨hsame, -⟩ := hget i e e' he he'
    rw [if_neg (Ne.symm hi)]
    exact ⟨hsame.template, hsame.signature⟩

/-- The tokens of a declaration behind a parameter list: the list is read as one parameter, and
what is left are the tokens of the declaration at other places. -/
theorem Token.exists_templated [Alphabet] {l : Limits} {declaration : Text}
    (h : (scan l declaration).any isError = false)
    (hs : ∀ t ∈ scan l declaration, t.kind ≠ .punct .hash ∧ t.kind.isComment = false)
    (hl : l.Admits (Text.templated declaration)) :
    ∃ first rest vs ws, (scan l (Text.templated declaration)).any isError = false ∧
      (scan l (Text.templated declaration)).dropLast = first :: rest ∧
      first.kind = .keyword .templateKw ∧
      Construct.Template.clauses [] [] (first :: rest) = Construct.Template.clauses
        ["template <typename T>".toList] ["typename T".toList] (skipTrivia ws) ∧
      skipTrivia (scan l declaration).dropLast = skipTrivia vs ∧
      Respaced .shifting [] vs ws := by
  obtain ⟨zs, hcuts, hsound, hscan⟩ := exists_cuts_of_scan h
  obtain ⟨x, ys, hx, hys, hcuts'⟩ := Lexeme.cuts_templated hcuts
  have hsub : ys ⊆ zs := by
    rcases hys with rfl | ⟨y, -, rfl⟩
    · exact fun _ hv => hv
    · exact fun _ hv => List.mem_cons_of_mem y hv
  have hplain : ∀ v ∈ ys, v.kind.isComment = false ∧ v.kind ≠ .punct .hash := by
    intro v hv
    obtain ⟨r, hr⟩ := exists_mem_placed (hsub hv) .origin
    have hmem := hs _ (List.dropLast_subset _ (hscan ▸ hr))
    exact ⟨hmem.2, hmem.1⟩
  have hlist : Lexeme.parameterList.all (·.kind != .error) = true := by decide +kernel
  have hsound' : (Lexeme.parameterList ++ x :: ys).all (·.kind != .error) = true := by
    rw [List.all_append, hlist, List.all_cons, hx]
    exact List.all_eq_true.mpr fun v hv => List.all_eq_true.mp hsound v (hsub hv)
  obtain ⟨hany, hscan'⟩ := scan_of_cuts hcuts' hsound' hl
  obtain ⟨first, rest, q, hplaced, hfirst, hclauses⟩ :=
    Construct.Template.exists_clauses_templated hx (fun v hv => (hplain v hv).1) .origin
  obtain ⟨r, hts⟩ : ∃ r, skipTrivia (placed .origin zs) = skipTrivia (placed r ys) := by
    rcases hys with rfl | ⟨y, hy, rfl⟩
    · exact ⟨.origin, rfl⟩
    · exact ⟨Position.origin.advance y.text, skipTrivia_of_whitespace hy⟩
  have hshifted : Respaced .shifting [] (placed r ys ++ []) (placed q ys ++ []) :=
    respaced_placed (S := .shifting) (fun _ => trivial) (fun _ _ => trivial)
      (fun v hv ht _ _ => ⟨rfl, rfl, ht, (hplain v hv).1, (hplain v hv).2⟩) q .nil
  rw [List.append_nil, List.append_nil] at hshifted
  exact ⟨first, rest, placed r ys, placed q ys, hany, hscan'.trans hplaced, hfirst, hclauses,
    hscan ▸ hts, hshifted⟩

section

variable {options : Options} {file : String} {source declaration : Text} {o : Outline} {e : Entity}
  {t first : Token} {behind rest vs ws ts : List Token} {item : Item} {d : Draft}
  {text param : Text}

/-- What is read behind a parameter list, compared with what is read without it. -/
theorem Construct.exists_read_templated {merge : Bool} (hne : text ≠ [])
    (hts : Respaced .shifting [] vs ws) (hvs : skipTrivia vs = t :: behind)
    (hread : read .empty merge t behind = .read item rest) (hd : item.draft? = some d)
    (hform : d.form ∈ Template.forms)
    (hs : t.kind ≠ .keyword .templateKw → Template.Suits t.kind d.form)
    (hfirst : first.kind = .keyword .templateKw)
    (hclauses : Template.clauses [] [] (first :: ts)
      = Template.clauses [text] [param] (skipTrivia ws)) :
    ∃ u behind' item₁ item' rest', skipTrivia ws = u :: behind' ∧
      read .empty merge u behind' = .read item₁ rest' ∧
      read .empty merge first ts = .read item' rest' ∧ Item.Listed text param item₁ item' := by
  have hfront := hts.front (Respacing.isStrict_shifting _ _)
  rw [hvs] at hfront
  obtain ⟨u, behind', hus, fits, htoken, hmore⟩ := hfront.uncons
  have hread' : Outcome.Respaced .shifting (read .empty merge t behind)
      (read .empty merge u behind') :=
    read_respaced (Respacing.reads_of_moved (fun _ _ h => h) _) (.inl fun _ => rfl) (.inl rfl)
      (hus ▸ fits) htoken hmore
  rw [hread] at hread'
  generalize hread₁ : read .empty merge u behind' = outcome at hread'
  cases hread' with
  | @read _ item₁ _ rest' hitem _ =>
    obtain ⟨d₁, hd₁, hform₁⟩ := hitem.exists_draft hd
    obtain ⟨c, item', hc, hread', hlisted⟩ := Template.exists_read_of_read param hne hread₁ hd₁
      (hform₁ ▸ hform) (by rw [htoken.kind, hform₁]; exact hs)
      (by rw [htoken.kind]; exact htoken.not_hash) (by rw [htoken.kind]; exact htoken.not_comment)
      first
    refine ⟨u, behind', item₁, item', rest', hus, hread₁, ?_, hlisted⟩
    rw [hus, hc] at hclauses
    unfold read
    rw [hfirst]
    show Template.read .empty first ts = _
    rw [Template.read, hclauses]
    exact hread'

/-- A header without directives and comments is read without a complaint, and its first entity
is one that a template may declare and stands where the first token does. -/
structure Text.Declares [Alphabet] (options : Options) (file : String) (declaration : Text)
    (o : Outline) (e : Entity) (t : Token) : Prop where
  parsed : parse options file declaration = .ok o
  diagnostics : o.diagnostics = #[]
  plain : ∀ t ∈ Token.scan options.limits declaration,
    t.kind ≠ .punct .hash ∧ t.kind.isComment = false
  entity : o.get? 1 = some e
  kind : e.kind ∈ Construct.Template.kinds
  front : (skipTrivia (Token.scan options.limits declaration).dropLast).head? = some t
  start : e.sourceRange.start = t.start

/-- **A parameter list in front of a header** whose first construct makes its first entity: the
header is read as it is without the list, and the first entity becomes a template, or one with
a parameter more.  With the keyword of a class the first construct has to be a class, and it is
a variable only behind a name, a type or a specifier, unless it is a template already. -/
theorem parse_templated [Alphabet] (hm : options.predefined = [])
    (h : declaration.Declares options file o e t)
    (htakes : t.kind ≠ .keyword .templateKw → Construct.Template.Takes t.kind e.kind)
    (hl : options.limits.Admits (Text.templated declaration)) :
    ∃ o', parse options file (Text.templated declaration) = .ok o' ∧
      o.Templated "template <typename T>".toList "typename T".toList o' := by
  obtain ⟨h, hd, hs, he, hkind, hhead, hstart⟩ := h
  obtain ⟨behind, front⟩ := List.head?_eq_some_iff.mp hhead
  have hcomment : e.kind ≠ .comment := by
    rintro hk
    rw [hk] at hkind
    exact absurd hkind (by decide)
  obtain ⟨item, rest, d, hread, hdraft, hmakes⟩ :=
    exists_read_of_first hm h hd he hcomment front hstart
  rw [hmakes.kind] at hkind htakes
  have hds : options.definitions = .empty := Options.definitions_of_nil hm
  obtain ⟨hany, -⟩ := parse_eq_ok_iff.mp h
  obtain ⟨first, after, vs, ws, hany', hscan, hfirst, hclauses, hvs, hmore⟩ :=
    Token.exists_templated hany hs hl
  obtain ⟨u, behind', item₁, item', rest', hus, hread₁, hread', hlisted⟩ :=
    Construct.exists_read_templated (by decide) hmore (hvs ▸ front) hread hdraft
      (Construct.Template.mem_forms_of_kindIn hkind)
      (fun ht => Construct.Template.suits_of_takes (htakes ht)) hfirst hclauses
  -- the outline of the declaration at its new place
  have hrel : ExceptRel _ _ (outlineOf options file declaration _)
      (outlineOf options file (Text.templated declaration) ws) :=
    outlineOf_respaced (S := .shifting) (Respacing.reads_of_moved (fun _ _ h => h) _)
      (.inl fun _ => by rw [hds]; rfl) ⟨[], .inl rfl, vs, ws, hvs, rfl, hmore⟩
      (.inl Respacing.isStrict_shifting)
  rw [← parse_eq_outlineOf hany, h] at hrel
  generalize hr : outlineOf options file (Text.templated declaration) ws = r at hrel
  cases hrel with
  | @ok _ o₁ hrel =>
    obtain ⟨m, hrel⟩ := hrel
    rw [parse_eq_outlineOf hany', hscan]
    obtain ⟨d', hd'⟩ := outlineOf_listed hus (skipTrivia_of_not (by rw [hfirst]; rfl))
      (hds ▸ hread₁) (hds ▸ hread') hlisted hr
    exact ⟨_, hd', hrel.templated hd _ _ _⟩

variable (options file declaration) in
/-- The facts about a header, computed. -/
theorem Text.exists_declares [Alphabet] {p : Outline → Entity → Token → Bool}
    (h : (parse options file declaration).toOption.any (fun o => o.diagnostics == #[] &&
      (o.get? 1).any fun e => decide (e.kind ∈ Construct.Template.kinds) &&
        (skipTrivia (Token.scan options.limits declaration).dropLast).head?.any fun t =>
          e.sourceRange.start == t.start && p o e t) = true)
    (hs : ∀ t ∈ Token.scan options.limits declaration,
      t.kind ≠ .punct .hash ∧ t.kind.isComment = false) :
    ∃ o e t, declaration.Declares options file o e t ∧ p o e t = true := by
  obtain ⟨o, ho, hfacts⟩ := exists_of_toOption_any h
  rw [Bool.and_eq_true, Option.any_eq_true] at hfacts
  obtain ⟨hd, e, he, hfacts⟩ := hfacts
  rw [Bool.and_eq_true, Option.any_eq_true] at hfacts
  obtain ⟨hkind, t, ht, hfacts⟩ := hfacts
  rw [Bool.and_eq_true] at hfacts
  exact ⟨o, e, t, ⟨ho, eq_of_beq hd, hs, he, of_decide_eq_true hkind, ht, eq_of_beq hfacts.1⟩,
    hfacts.2⟩

/-- A class becomes a template. -/
theorem parse_templated_class :
    ∃ o o', parse .standard "a.h" "class A { int x; };".toList = .ok o ∧
      parse .standard "a.h" "template <typename T> class A { int x; };".toList = .ok o' ∧
      o.Templated "template <typename T>".toList "typename T".toList o' := by
  obtain ⟨o, e, t, h, hfacts⟩ := Text.exists_declares .standard "a.h" "class A { int x; };".toList
    (p := fun _ e t => e.kind == .classDecl && t.kind == .keyword .classKw)
    (by decide +kernel) (by decide +kernel)
  rw [Bool.and_eq_true, beq_iff_eq, beq_iff_eq] at hfacts
  have htakes : Construct.Template.Takes t.kind e.kind := by
    rw [hfacts.1, hfacts.2]
    exact ⟨fun _ => .inl rfl, nofun⟩
  have hadmits : Options.standard.limits.Admits (Text.templated "class A { int x; };".toList) := by
    unfold Limits.Admits
    decide +kernel
  obtain ⟨o', h', htemplated⟩ := parse_templated rfl h (fun _ => htakes) hadmits
  exact ⟨o, o', h.parsed, h', htemplated⟩

/-- A header that does not become a template with one parameter behind a parameter list. -/
def Text.IsNotTemplated [Alphabet] (declaration : Text) : Prop :=
  ∃ o e t, declaration.Declares .standard "a.h" o e t ∧ e.parent = some Outline.root ∧
    Limits.standard.Admits (Text.templated declaration) ∧
    ¬∃ o', parse .standard "a.h" (Text.templated declaration) = .ok o' ∧
      o'.diagnostics = #[] ∧ o'.size = o.size ∧
      ∃ e', o'.get? 1 = some e' ∧ e.Agrees e' ∧ e'.template = some ["typename T".toList]

/-- What is read behind the list is compared with the one entity of a header. -/
theorem Text.isNotTemplated [Alphabet] (kind : EntityKind)
    (h : (parse .standard "a.h" declaration).toOption.any (fun o => o.diagnostics == #[] &&
      (o.get? 1).any fun e => decide (e.kind ∈ Construct.Template.kinds) &&
        (skipTrivia (Token.scan .standard declaration).dropLast).head?.any fun t =>
          e.sourceRange.start == t.start &&
            (o.size == 1 && (e.kind == kind && e.parent == some Outline.root))) = true)
    (hs : ∀ t ∈ Token.scan .standard declaration,
      t.kind ≠ .punct .hash ∧ t.kind.isComment = false)
    (hl : Limits.standard.Admits (Text.templated declaration))
    (hfails : (parse .standard "a.h" (Text.templated declaration)).toOption.any (fun o =>
      o.diagnostics == #[] && (o.size == 1 && (o.get? 1).any fun e =>
        e.kind == kind && e.template == some ["typename T".toList])) = false) :
    declaration.IsNotTemplated := by
  obtain ⟨o, e, t, h, hfacts⟩ := Text.exists_declares .standard "a.h" declaration
    (p := fun o e _ => o.size == 1 && (e.kind == kind && e.parent == some Outline.root)) h hs
  simp only [Bool.and_eq_true, beq_iff_eq] at hfacts
  obtain ⟨hsize, hkind, hparent⟩ := hfacts
  refine ⟨o, e, t, h, hparent, hl, ?_⟩
  rintro ⟨o', h', hd', hsize', e', he', hagrees, htemplate⟩
  rw [h', Except.toOption, Option.any_some, hd', hsize', hsize, he', Option.any_some,
    hagrees.kind, hkind, htemplate] at hfails
  simp at hfails

/-- A template gets a second parameter; a variable is not looked for behind `::`, and what has
the type of a class is not told from a class. -/
theorem parse_templated_fails :
    Text.IsNotTemplated "template <class U> void f();".toList ∧
      Text.IsNotTemplated "::A x;".toList ∧ Text.IsNotTemplated "struct stat st;".toList := by
  have hadmits : ∀ declaration ∈ ["template <class U> void f();".toList, "::A x;".toList,
      "struct stat st;".toList], Limits.standard.Admits (Text.templated declaration) := by
    unfold Limits.Admits
    decide +kernel
  refine ⟨?_, ?_, ?_⟩
  · exact Text.isNotTemplated .function (by decide +kernel) (by decide +kernel)
      (hadmits _ (by simp)) (by decide +kernel)
  · exact Text.isNotTemplated .variableDecl (by decide +kernel) (by decide +kernel)
      (hadmits _ (by simp)) (by decide +kernel)
  · exact Text.isNotTemplated .variableDecl (by decide +kernel) (by decide +kernel)
      (hadmits _ (by simp)) (by decide +kernel)

end

end HeaderOutline
