import HeaderOutline.Proofs.Declared
import HeaderOutline.Proofs.Made
import HeaderOutline.Proofs.Pieces
import HeaderOutline.Proofs.Stretch

/-! # Which macros are known

The reading of a header remembers the macros that it defines on its way.  Each definition becomes
an entity, so what is known at some point can be told from the outline: the macros known from the
start, and then those of the macro entities made so far, in their order
(`Outline.definitionsBefore`).  The definition itself is what is read where its entity starts
(`Entity.definition?`), and the reading puts it into its table when it makes the entity
(`Records`).
-/
namespace HeaderOutline

/-- The macro that a directive defines, from its hash sign on. -/
def Construct.Directive.definition? : List Token → Option Definition
  | hash :: behind => (read hash behind).definition?
  | [] => none

/-- The macro that is defined where a macro entity starts among some tokens. -/
def Entity.definition? (ts : List Token) (e : Entity) : Option Definition :=
  if e.kind = .macroDecl then
    Construct.Directive.definition? (Tokens.since e.sourceRange.start.offset ts)
  else none

/-- The macros known before the entity of a number is made: those known from the start, and then,
in their order, the ones of the macro entities with smaller numbers; of two with one name the
later one is. -/
def Outline.definitionsBefore (o : Outline) (ts : List Token) (known : Definitions)
    (i : EntityId) : Definitions :=
  ((o.entities.toList.take i).filterMap (Entity.definition? ts)).foldl .define known

namespace Form

/-- Whether a form is that of a function or a variable. -/
def isDeclared : Form → Bool
  | .function | .destructor | .variableDecl => true
  | .plain _ => false

theorem isDeclared_kindIn {form : Form} (h : form.isDeclared = true) (scope : Entity)
    (name : Text) : (form.kindIn scope name).isDeclared = true := by
  cases form with
  | plain => cases h
  | destructor => rfl
  | variableDecl =>
    dsimp only [kindIn]
    split <;> rfl
  | function =>
    dsimp only [kindIn]
    split
    · split <;> rfl
    · rfl

end Form

namespace Construct

variable {ds : Definitions} {lead : Lead} {t keyword : Token} {ts rest behind : List Token}
  {item : Item} {d : Draft}

/-! ## The kinds that each routine makes -/

theorem Function.form_isDeclared (p : Progress) : p.form.isDeclared = true := by
  unfold Progress.form
  split
  · rfl
  · split <;> rfl

theorem Function.draft_isDeclared (h : read ds lead ts = .read item rest)
    (hd : item.draft? = some d) : d.form.isDeclared = true := by
  obtain ⟨p, _, _, _, _, _, rfl, -⟩ := exists_of_read h
  obtain rfl := Option.some.inj hd
  exact form_isDeclared p

theorem Variable.draft_isDeclared (h : read ds lead ts = .read item rest)
    (hd : item.draft? = some d) : d.form.isDeclared = true := by
  obtain ⟨_, _, _, _, -, -, rfl⟩ := exists_of_read h
  obtain rfl := Option.some.inj hd
  rfl

theorem Typedef.draft_form (h : read keyword ts = .read item rest) (hd : item.draft? = some d) :
    d.form = .plain .typedefDecl := by
  obtain ⟨_, _, _, -, -, rfl⟩ := exists_of_read h
  obtain rfl := Option.some.inj hd
  rfl

theorem Using.draft_form (h : read lead keyword ts = .read item rest)
    (hd : item.draft? = some d) : d.form = .plain .usingDecl := by
  obtain ⟨_, _, _, -, -, rfl⟩ := exists_of_read h
  obtain rfl := Option.some.inj hd
  rfl

/-- **Macros and the entities of macros** go together: what defines a macro makes an entity of one
that starts with the hash sign, and nothing else makes such an entity. -/
theorem read_macro {merge : Bool} (h : read ds merge t behind = .read item rest) :
    (∃ m d, item = .definition m d ∧ d.form = .plain .macroDecl ∧
        Directive.read t behind = .read item rest) ∨
      (read ds merge t behind).definition? = none ∧
        ∀ d ∈ item.draft?, ∀ scope, d.form.kindIn scope d.name ≠ .macroDecl := by
  have hdeclared : ∀ {d : Draft}, d.form.isDeclared = true →
      ∀ scope, d.form.kindIn scope d.name ≠ .macroDecl := by
    intro d hd scope hk
    have hdec := Form.isDeclared_kindIn hd scope d.name
    rw [hk] at hdec
    cases hdec
  have hkind : ∀ {d : Draft} {kind}, d.form = .plain kind → kind ≠ .macroDecl →
      ∀ scope, d.form.kindIn scope d.name ≠ .macroDecl := by
    intro d kind hform hne scope
    rw [hform]
    exact hne
  cases read_source ds merge t behind with
  | plain hplain =>
    refine .inr ⟨hplain.1, fun d hd => ?_⟩
    obtain ⟨kind, hform, hk⟩ := (hplain.2 item rest h d hd).form
    refine hkind hform ?_
    rintro rfl
    cases hk
  | definition hash after hus ho hdef =>
    obtain ⟨rfl, rfl⟩ := List.cons.inj hus
    obtain ⟨name, after, -, hread⟩ := hdef
    obtain ⟨rfl, -⟩ := Outcome.read.inj (h.symm.trans hread)
    exact .inl ⟨_, _, rfl, rfl, ho.symm.trans h⟩
  | typedefDecl keyword _ _ ho =>
    refine .inr ⟨ho ▸ Typedef.read_definition? .., fun d hd => ?_⟩
    exact hkind (Typedef.draft_form (ho ▸ h) hd) (by decide)
  | usingDecl lead keyword _ _ _ ho =>
    refine .inr ⟨ho ▸ Using.read_definition? .., fun d hd => ?_⟩
    exact hkind (Using.draft_form (ho ▸ h) hd) (by decide)
  | function lead ts _ ho =>
    exact .inr ⟨ho ▸ Function.read_definition? .., fun d hd =>
      hdeclared (Function.draft_isDeclared (ho ▸ h) hd)⟩
  | variableDecl lead ts _ ho =>
    exact .inr ⟨ho ▸ Variable.read_definition? .., fun d hd =>
      hdeclared (Variable.draft_isDeclared (ho ▸ h) hd)⟩

end Construct

/-! ## The macros known in a state -/

theorem filterMap_eq_filterMap_map {α β : Type} (g : α → Option β) (xs : List α) :
    xs.filterMap g = (xs.map g).filterMap id := by
  rw [List.filterMap_map]
  rfl

/-- Whatever does not depend on the place of an entity is put behind that of the others by one
that is added. -/
theorem Outline.filterMap_attach {α : Type} {g : Entity → Option α}
    (hg : ∀ (e : Entity) (full : Text) (parent : Option EntityId) (children : Array EntityId),
      g { e with fullName := full, parent := parent, children := children } = g e)
    (o : Outline) (parent : EntityId) (e : Entity) :
    (o.attach parent e).entities.toList.filterMap g
      = o.entities.toList.filterMap g ++ (g e).toList := by
  have hlinked := map_modify_eq (g := g)
    (f := fun p => { p with children := p.children.push o.entities.size })
    (fun p => hg p p.fullName p.parent _) o.entities.toList (o.hostOf parent)
  rw [attach, Array.toList_push, Array.toList_modify, List.filterMap_append,
    filterMap_eq_filterMap_map, hlinked, ← filterMap_eq_filterMap_map, List.filterMap_cons, hg,
    List.filterMap_nil]
  cases g e <;> rfl

namespace Building

variable {policy : Recovery.Policy} {merge : Bool} {size : Nat} {b b' : Building}
  {all ts us : List Token} {known : Definitions}

/-- The macros that are known are those known from the start and those of the macro entities made
so far. -/
def Knows (all : List Token) (known : Definitions) (b : Building) : Prop :=
  b.definitions = (b.outline.entities.toList.filterMap (Entity.definition? all)).foldl .define known

/-- A macro entity has its macro in every place. -/
theorem definition?_place (all : List Token) (e : Entity) (full : Text)
    (parent : Option EntityId) (children : Array EntityId) :
    Entity.definition? all { e with fullName := full, parent := parent, children := children }
      = Entity.definition? all e := rfl

/-- An entity that is added adds its macro, if it is one of a macro. -/
theorem filterMap_emit (b : Building) (d : Draft) :
    (b.emit d).outline.entities.toList.filterMap (Entity.definition? all)
      = b.outline.entities.toList.filterMap (Entity.definition? all)
        ++ (Entity.definition? all
          (d.toEntity b.enclosing b.scopes.current.access b.pending)).toList :=
  Outline.filterMap_attach (definition?_place all) b.outline _ _

/-- An entity starts with the first token of its construct. -/
theorem Makes.start_eq {behind rest : List Token} {t : Token} {item : Item} {d : Draft}
    {e : Entity} (h : Makes merge b ts e t behind item rest d) :
    e.sourceRange.start = t.start := by
  have hcovers := Construct.read_covers b.definitions merge t behind
  rw [h.read] at hcovers
  obtain ⟨last, -, hrange⟩ := Item.Covers.span hcovers (Item.span?_of_draft? h.draft)
  rw [h.becomes.sourceRange, hrange]
  rfl

/-- The tokens from the start of an entity on are those that its construct is read from. -/
theorem Makes.since_start {behind rest : List Token} {t : Token} {item : Item} {d : Draft}
    {e : Entity} (h : Makes merge b ts e t behind item rest d)
    (hord : Span.Ordered (all.map Token.span)) (hs : t :: behind <:+ all) :
    Tokens.since e.sourceRange.start.offset all = t :: behind := by
  obtain ⟨front, hfront⟩ := hs
  rw [h.start_eq]
  rw [← hfront] at hord ⊢
  exact hord.since_start

/-- A construct that makes no macro adds none. -/
theorem Knows.add_other {item : Item} (h : b.Knows all known)
    (hm : ∀ m d, item ≠ .definition m d)
    (hd : ∀ d ∈ item.draft?, ∀ scope, d.form.kindIn scope d.name ≠ .macroDecl) :
    (b.add size item).Knows all known := by
  have hemit : ∀ (b₀ : Building) (d : Draft), b₀.definitions = b.definitions →
      b₀.outline.entities = b.outline.entities →
      (∀ scope, d.form.kindIn scope d.name ≠ .macroDecl) → (b₀.emit d).Knows all known := by
    intro b₀ d hdefs hents hkind
    have hnone : Entity.definition? all
        (d.toEntity b₀.enclosing b₀.scopes.current.access b₀.pending) = none :=
      if_neg (hkind b₀.enclosing)
    rw [Knows, filterMap_emit, hnone, hents, Option.toList_none, List.append_nil]
    exact hdefs.trans h
  cases item with
  | entity d => exact hemit b d rfl rfl (hd d rfl)
  | scope d access => exact hemit b d rfl rfl (hd d rfl)
  | access level d => exact hemit (b.withScopes (b.scopes.setAccess level)) d rfl rfl (hd d rfl)
  | suspect w d => exact hemit (b.report (w.diagnostic size)) d rfl rfl (hd d rfl)
  | definition m d => exact absurd rfl (hm m d)
  | close brace =>
    simp only [add]
    split <;> exact h
  | linkage | documentation | nothing => exact h

/-- **One pass** adds the macro of the entity that it makes. -/
theorem Knows.pass {t : Token} {behind : List Token} (hord : Span.Ordered (all.map Token.span))
    (h : b.Knows all known) (hs : t :: behind <:+ all)
    (added : b.after policy size (Construct.read b.definitions merge t behind) = .ok b') :
    b'.Knows all known := by
  obtain ⟨item, rest, ho, rfl⟩ | ⟨_, _, _, -, -, rfl⟩ := after_eq_ok added
  case inr => exact h
  case inl =>
    rcases Construct.read_macro ho with ⟨m, d, rfl, hform, hread⟩ | ⟨hnone, hkind⟩
    · have hdef : Construct.Directive.definition? (t :: behind) = some m := by
        rw [Construct.Directive.definition?, hread]
        rfl
      -- the entity starts with the hash sign
      have hcovers := Construct.read_covers b.definitions merge t behind
      rw [ho] at hcovers
      obtain ⟨last, -, hrange⟩ := hcovers
      obtain ⟨front, hfront⟩ := hs
      have hsince : Tokens.since t.start.offset all = t :: behind := by
        rw [← hfront] at hord ⊢
        exact hord.since_start
      let b₀ : Building := { b with definitions := b.definitions.define m }
      have hsome : Entity.definition? all
          (d.toEntity b₀.enclosing b₀.scopes.current.access b₀.pending) = some m := by
        have hk : (d.toEntity b₀.enclosing b₀.scopes.current.access b₀.pending).kind
            = .macroDecl := by
          show d.form.kindIn b₀.enclosing d.name = .macroDecl
          rw [hform]
          rfl
        rw [Entity.definition?, if_pos hk, ← hdef, ← hsince]
        exact congrArg (fun s : Span => Construct.Directive.definition?
          (Tokens.since s.start.offset all)) hrange
      show (b₀.emit d).Knows all known
      rw [Knows, filterMap_emit, hsome, Option.toList_some, List.foldl_append]
      exact congrArg (·.define m) h
    · refine h.add_other (fun m d hitem => ?_) hkind
      rw [ho, hitem] at hnone
      cases hnone

/-- **What is known in a state** that a reading comes through. -/
theorem Knows.reaches (hord : Span.Ordered (all.map Token.span)) (h : b.Knows all known)
    (hs : ts <:+ all) (hr : Reaches policy merge size b ts b' us) : b'.Knows all known := by
  induction hr with
  | refl => exact h
  | @pass b b₁ b₂ ts behind us t front added _ ih =>
    have hfront : t :: behind <:+ all := (front ▸ Tokens.skipTrivia_suffix ts).trans hs
    exact ih (h.pass hord hfront added) ((next_suffix_of_front _ _ front).trans hs)

/-- What is known in a state can be told from every outline that keeps the entities made so
far. -/
theorem Knows.definitionsBefore {o : Outline} (h : b.Knows all known) (hk : b.outline.Keeps o) :
    o.definitionsBefore all known b.nextId = b.definitions := by
  -- a later entity changes nothing but the children of those that are there
  have hmap : (o.entities.toList.take b.nextId).map (Entity.definition? all)
      = b.outline.entities.toList.map (Entity.definition? all) := by
    refine List.ext_getElem? fun j => ?_
    rw [List.getElem?_map, List.getElem?_map, List.getElem?_take]
    by_cases hj : j < b.nextId
    · obtain ⟨e, he⟩ := Outline.exists_get? hj
      obtain ⟨children, he'⟩ := hk j e he
      rw [if_pos hj, Array.getElem?_toList, Array.getElem?_toList,
        show b.outline.entities[j]? = some e from he,
        show o.entities[j]? = _ from he']
      rfl
    · have hnone : b.outline.entities.toList[j]? = none :=
        List.getElem?_eq_none (Nat.not_lt.mp hj)
      rw [if_neg hj, hnone]
  rw [Outline.definitionsBefore, filterMap_eq_filterMap_map, hmap, ← filterMap_eq_filterMap_map]
  exact h.symm

end Building

/-- **A macro is recorded** with the entity of a number: the reading of a header comes to a state,
and its next pass makes the entity, and puts that macro into the table of the known ones. -/
def Records [Alphabet] (options : Options) (file : String) (source : Text) (i : EntityId)
    (m : Definition) : Prop :=
  ∃ b us t behind b',
    Building.Reaches options.recovery options.mergeLineComments source.size
      (.start file source options.definitions) (Token.scan options.limits source).dropLast b us ∧
    Tokens.skipTrivia us = t :: behind ∧
    b.after options.recovery source.size
      (Construct.read b.definitions options.mergeLineComments t behind) = .ok b' ∧
    b.nextId = i ∧ b'.nextId = i + 1 ∧ b.definitions.Gains m b'.definitions

section

variable [Alphabet] {options : Options} {file : String} {source : Text} {o : Outline}
  {i : EntityId} {e : Entity}

/-- **Where a macro comes from.**  The reading of the header comes through a state in which the
directive that the macro starts with, from its hash sign on, is read as a definition. -/
theorem exists_directive_of_parse (h : parse options file source = .ok o) (he : o.get? i = some e)
    (hk : e.kind = .macroDecl) :
    ∃ b us hash rest m d after,
      Building.Reaches options.recovery options.mergeLineComments source.size
        (.start file source options.definitions) (Token.scan options.limits source).dropLast b us ∧
      b.nextId = i ∧
      Building.Makes options.mergeLineComments b us e hash rest (.definition m d) after d ∧
      hash.kind = .punct .hash ∧
      Construct.Directive.read hash rest = .read (.definition m d) after ∧
      e.sourceRange.start = hash.start ∧
      Tokens.since e.sourceRange.start.offset (Token.scan options.limits source).dropLast
        = hash :: rest := by
  obtain ⟨hany, done, hrun, rfl⟩ := parse_eq_ok_iff.mp h
  have hpos : 0 < i := by
    refine Nat.pos_of_ne_zero ?_
    rintro rfl
    have hkeeps := (Building.keeps_of_run hrun).trans (Building.keeps_finish done)
    obtain ⟨children, hroot⟩ := hkeeps Outline.root _ rfl
    obtain rfl := Option.some.inj (hroot.symm.trans he)
    cases hk
  rcases exists_made_of_parse h hpos he with
    ⟨-, c, full, hc⟩ | ⟨b, us, t, behind, item, rest, d, hreach, -, hnext, hmakes⟩
  case inl =>
    obtain rfl := Option.some.inj (he.symm.trans hc)
    cases hk
  case inr =>
    obtain ⟨scope, hscope⟩ := hmakes.becomes.kind
    rcases Construct.read_macro hmakes.read with ⟨m, d', rfl, -, hread⟩ | ⟨-, hother⟩
    case inr => exact absurd (hscope.symm.trans hk) (hother d hmakes.draft scope)
    case inl =>
      obtain rfl := Option.some.inj hmakes.draft
      have hhash : t.kind = .punct .hash := by
        by_contra hne
        have hnone := Construct.read_definition? b.definitions options.mergeLineComments behind hne
        rw [hmakes.read] at hnone
        cases hnone
      exact ⟨b, us, t, behind, m, d', rest, hreach, hnext, hmakes, hhash, hread, hmakes.start_eq,
        hmakes.since_start (Token.ordered_scan hany) (hmakes.suffix hreach.suffix)⟩

/-- The pass that makes the entity of a macro records it. -/
theorem Building.Makes.records {b : Building} {us rest after : List Token} {hash : Token}
    {m : Definition} {d : Draft}
    (h : Makes options.mergeLineComments b us e hash rest (.definition m d) after d)
    (hreach : Reaches options.recovery options.mergeLineComments source.size
      (.start file source options.definitions) (Token.scan options.limits source).dropLast b us) :
    Records options file source b.nextId m := by
  refine ⟨b, us, hash, rest, b.add source.size (.definition m d), hreach, h.front, ?_, rfl,
    size_add b source.size (.definition m d), Definitions.gains_define b.definitions m⟩
  rw [h.read]
  rfl

end

end HeaderOutline
