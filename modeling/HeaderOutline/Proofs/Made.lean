import HeaderOutline.Proofs.Template.First

/-! # What each entity is made from

An entity of an outline is what a construct amounts to that the reading came to, or it is the
documentation that the header ends with (`exists_made_of_parse`).  Its kind depends on the scope
that it was put into; its name, its signature, its template parameters, its ranges and its body
are those of the draft, whatever is read afterwards.
-/
namespace HeaderOutline

/-- An entity is what a draft has become in some scope, its place among others left open. -/
structure Draft.Becomes (d : Draft) (e : Entity) : Prop where
  kind : ∃ scope, e.kind = d.form.kindIn scope d.name
  name : e.name = d.name
  signature : e.signature = d.signature
  template : e.template = d.template
  sourceRange : e.sourceRange = d.sourceRange
  headerRange : e.headerRange = d.headerRange
  body : e.body = d.body

theorem Draft.Becomes.children {d : Draft} {e : Entity} (h : d.Becomes e)
    (children : Array EntityId) : d.Becomes { e with children := children } :=
  ⟨h.kind, h.name, h.signature, h.template, h.sourceRange, h.headerRange, h.body⟩

namespace Building

variable {policy : Recovery.Policy} {merge : Bool} {size : Nat} {b done : Building}
  {ts : List Token} {i : EntityId} {e : Entity}

/-- An item that makes an entity gives it the next number. -/
theorem exists_becomes_of_add (b : Building) (size : Nat) {item : Item} {d : Draft}
    (hd : item.draft? = some d) :
    ∃ e, (b.add size item).outline.get? b.nextId = some e ∧ d.Becomes e := by
  have hemit : ∀ (b' : Building) (d : Draft), b'.outline.entities = b.outline.entities →
      ∃ e, (b'.emit d).outline.get? b.nextId = some e ∧ d.Becomes e := by
    intro b' d he
    have hget := Outline.get?_attach_size b'.outline b'.scopes.current.entity
      (d.toEntity b'.enclosing b'.scopes.current.access b'.pending)
    rw [he] at hget
    exact ⟨_, hget, ⟨b'.enclosing, rfl⟩, rfl, rfl, rfl, rfl, rfl, rfl⟩
  cases item with
  | entity d' =>
    obtain rfl := Option.some.inj hd
    exact hemit b d' rfl
  | scope d' access =>
    obtain rfl := Option.some.inj hd
    exact hemit b d' rfl
  | access level d' =>
    obtain rfl := Option.some.inj hd
    exact hemit (b.withScopes (b.scopes.setAccess level)) d' rfl
  | definition definition d' =>
    obtain rfl := Option.some.inj hd
    exact hemit { b with definitions := b.definitions.define definition } d' rfl
  | suspect warning d' =>
    obtain rfl := Option.some.inj hd
    exact hemit (b.report (warning.diagnostic size)) d' rfl
  | linkage | close | documentation | nothing => cases hd

/-- The construct that the reading comes to in a state is read, and becomes an entity. -/
structure Makes (merge : Bool) (b : Building) (ts : List Token) (e : Entity) (t : Token)
    (behind : List Token) (item : Item) (rest : List Token) (d : Draft) : Prop where
  front : Tokens.skipTrivia ts = t :: behind
  read : Construct.read b.definitions merge t behind = .read item rest
  draft : item.draft? = some d
  becomes : d.Becomes e

/-- The tokens that an entity is made from are among those that were left. -/
theorem Makes.suffix {all behind rest : List Token} {t : Token} {item : Item} {d : Draft}
    (h : Makes merge b ts e t behind item rest d) (hts : ts <:+ all) : t :: behind <:+ all :=
  (h.front ▸ Tokens.skipTrivia_suffix ts).trans hts

/-- **Where an entity comes from.**  An entity that is there after a reading was there before, or
the reading has come through a state from which it is made, its number being the next one. -/
theorem exists_made_of_run (hr : run policy merge size b ts = .ok done)
    (he : done.outline.get? i = some e) (hi : b.nextId ≤ i) :
    ∃ b' us t behind item rest d, Reaches policy merge size b ts b' us ∧ b'.nextId = i ∧
      Makes merge b' us e t behind item rest d := by
  induction b, ts using run_induction merge with
  | nil b ts hnil =>
    obtain rfl := Except.ok.inj ((run_of_nil hnil).symm.trans hr)
    exact absurd (Outline.lt_size_of_get? he) (Nat.not_lt.mpr hi)
  | cons b ts t behind front ih =>
    obtain ⟨b', added, hmore⟩ := exists_after_of_run front hr
    by_cases hlate : b'.nextId ≤ i
    · obtain ⟨b₁, us, t₁, behind₁, item, rest, d, hreach, hnext, hmakes⟩ := ih b' hmore hlate
      exact ⟨b₁, us, t₁, behind₁, item, rest, d, .pass front added hreach, hnext, hmakes⟩
    · -- the entity is added by this pass
      obtain ⟨item, rest, ho, rfl⟩ | ⟨_, _, _, -, -, rfl⟩ := after_eq_ok added
      case inr => exact absurd hi hlate
      case inl =>
        have hsize : (b.add size item).nextId = b.nextId + (item.draft?.map fun _ => 1).getD 0 :=
          size_add b size item
        cases hd : item.draft? with
        | none =>
          rw [hd] at hsize
          exact absurd (hsize ▸ hi) hlate
        | some d =>
          rw [hd, Option.map_some, Option.getD_some] at hsize
          have hlt : i < b.nextId + 1 := hsize ▸ Nat.not_le.mp hlate
          have hb : b.nextId = i := Nat.le_antisymm hi (Nat.le_of_lt_succ hlt)
          obtain ⟨e', he', hbecomes⟩ := exists_becomes_of_add b size hd
          obtain ⟨children, hkept⟩ := keeps_of_run hmore b.nextId e' he'
          obtain rfl := Option.some.inj ((hb ▸ hkept).symm.trans he)
          exact ⟨b, ts, t, behind, item, rest, d, .refl b ts, hb, front, ho, hd,
            hbecomes.children children⟩

end Building

/-- **An entity below the root** is documentation that nothing follows, or it is made in a state
that the reading of the header comes through, where as many entities are there as its number
says. -/
theorem exists_made_of_parse [Alphabet] {options : Options} {file : String} {source : Text}
    {o : Outline} {i : EntityId} {e : Entity} (h : parse options file source = .ok o) (hi : 0 < i)
    (he : o.get? i = some e) :
    o.IsTrailing i ∨ ∃ b us t behind item rest d,
      Building.Reaches options.recovery options.mergeLineComments source.size
        (.start file source options.definitions) (Token.scan options.limits source).dropLast b us ∧
      b.outline.Keeps o ∧ b.nextId = i ∧
      Building.Makes options.mergeLineComments b us e t behind item rest d := by
  obtain ⟨-, done, hrun, rfl⟩ := parse_eq_ok_iff.mp h
  rcases Building.get?_of_finish he with ⟨q, children, hq, rfl⟩ | ⟨c, -, hfinish, rfl, -⟩
  · obtain ⟨b, us, t, behind, item, rest, d, hreach, hnext, hmakes⟩ :=
      Building.exists_made_of_run hrun hq hi
    refine .inr ⟨b, us, t, behind, item, rest, d, hreach, ?_, hnext, hmakes.front, hmakes.read,
      hmakes.draft, hmakes.becomes.children children⟩
    exact (Building.keeps_of_run (hreach.run_eq ▸ hrun)).trans (Building.keeps_finish done)
  · exact .inl (hfinish ▸ Outline.isTrailing_attach done.outline c)

end HeaderOutline
