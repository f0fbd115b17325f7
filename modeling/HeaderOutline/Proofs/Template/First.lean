import HeaderOutline.Proofs.Account
import HeaderOutline.Proofs.Links
import HeaderOutline.Proofs.Sole

/-! # The first entity

Entities stay as they are when others are added, but for their children
(`Building.keeps_of_run`), and what is added starts at a token that is left
(`Building.le_start_of_run`).  So if the first entity of a header stands where its first token
does, it is made from what is read there (`exists_read_of_first`).
-/
namespace HeaderOutline

/-- All entities of an outline are found in another one, where they may have more children. -/
def Outline.Keeps (o o' : Outline) : Prop :=
  ∀ i e, o.get? i = some e → ∃ children, o'.get? i = some { e with children := children }

namespace Outline.Keeps

variable {o o' o'' : Outline}

theorem refl (o : Outline) : o.Keeps o := fun _ e h => ⟨e.children, h⟩

theorem trans (h : o.Keeps o') (h' : o'.Keeps o'') : o.Keeps o'' := by
  intro i e he
  obtain ⟨children, hchildren⟩ := h i e he
  obtain ⟨more, hmore⟩ := h' i _ hchildren
  exact ⟨more, hmore⟩

theorem attach (o : Outline) (parent : EntityId) (e : Entity) : o.Keeps (o.attach parent e) := by
  intro i q hq
  rw [Outline.get?_attach_of_lt (Outline.lt_size_of_get? hq), hq, Option.map_some]
  split
  · exact ⟨_, rfl⟩
  · exact ⟨q.children, rfl⟩

end Outline.Keeps

/-- An item that makes an entity covers the stretch of that entity. -/
theorem Item.span?_of_draft? {item : Item} {d : Draft} (h : item.draft? = some d) :
    item.span? = some d.sourceRange := by
  cases item with
  | entity | scope | access | definition | suspect =>
    obtain rfl := Option.some.inj h
    rfl
  | documentation | linkage | close | nothing => cases h

namespace Building

variable {policy : Recovery.Policy} {merge : Bool} {size n : Nat} {b done : Building}
  {ts : List Token}

theorem keeps_add (b : Building) (size : Nat) (item : Item) :
    b.outline.Keeps (b.add size item).outline := by
  have hemit : ∀ (b' : Building) (d : Draft), b'.outline.entities = b.outline.entities →
      b.outline.Keeps (b'.emit d).outline := by
    intro b' d he i e hi
    have hi' : b'.outline.get? i = some e := by
      rw [Outline.get?, he]
      exact hi
    obtain ⟨children, h⟩ := Outline.Keeps.attach b'.outline b'.scopes.current.entity
      (d.toEntity b'.enclosing b'.scopes.current.access b'.pending) i e hi'
    exact ⟨children, h⟩
  cases item with
  | close brace =>
    have hkeeps := Outline.Keeps.refl b.outline
    simp only [add]
    split
    · exact hkeeps
    · exact hkeeps
  | entity d => exact hemit b d rfl
  | scope d access => exact hemit b d rfl
  | access level d => exact hemit (b.withScopes (b.scopes.setAccess level)) d rfl
  | definition definition d =>
    exact hemit { b with definitions := b.definitions.define definition } d rfl
  | suspect warning d => exact hemit (b.report (warning.diagnostic size)) d rfl
  | linkage | documentation | nothing => exact Outline.Keeps.refl b.outline

/-- **A reading keeps the entities** that there are already. -/
theorem keeps_of_run (hr : run policy merge size b ts = .ok done) :
    b.outline.Keeps done.outline :=
  related_of_run (R := fun b b' => b.outline.Keeps b'.outline)
    (fun b => Outline.Keeps.refl b.outline) (fun h h' => Outline.Keeps.trans h h')
    (fun b item => keeps_add b size item) (fun b _ => Outline.Keeps.refl b.outline) hr

theorem keeps_finish (b : Building) : b.outline.Keeps b.finish := by
  have hkeeps := Outline.Keeps.refl b.outline
  have hattach := Outline.Keeps.attach b.outline Outline.root
  unfold finish
  cases b.pending with
  | none => exact hkeeps
  | some comment => exact hattach (trailing comment)

/-- **What is added starts at a token** that is left. -/
theorem le_start_of_run (hr : run policy merge size b ts = .ok done)
    (hd : done.outline.diagnostics = #[]) (hb : b.outline.Rooted)
    (hranges : ∀ s ∈ b.outline.ranges, n ≤ s.start.offset) (hts : ∀ t ∈ ts, n ≤ t.start.offset) :
    ∀ s ∈ done.outline.ranges, n ≤ s.start.offset := by
  induction b, ts using run_induction merge with
  | nil b ts hnil =>
    obtain rfl := Except.ok.inj ((run_of_nil hnil).symm.trans hr)
    exact hranges
  | cons b ts t behind front ih =>
    obtain ⟨item, rest, ho, hmore⟩ := exists_read_of_run front hr hd
    have hcovers := Construct.read_covers b.definitions merge t behind
    have hs := Construct.read_rest_suffix b.definitions merge t behind
    have ih := ih (b.add size item)
    rw [ho] at hcovers hs ih
    have hfront : t :: behind <:+ ts := front ▸ Tokens.skipTrivia_suffix ts
    have hrest : rest <:+ ts := (hs.trans (List.suffix_cons t behind)).trans hfront
    refine ih hmore (rooted_add hb size item) ?_ fun u hu => hts u (hrest.mem hu)
    intro s hs
    rw [ranges_add hb] at hs
    rcases List.mem_append.mp hs with hs | hs
    · exact hranges s hs
    · obtain ⟨d, hdraft, rfl⟩ : ∃ d, item.draft? = some d ∧ d.sourceRange = s := by
        simpa using hs
      obtain ⟨last, -, hspan⟩ := Item.Covers.span hcovers (Item.span?_of_draft? hdraft)
      rw [hspan]
      exact hts t (hfront.mem List.mem_cons_self)

/-- What is found in the end was there when all had been read, or it is made of the documentation
that waited then. -/
theorem get?_of_finish {i : EntityId} {e : Entity} (h : b.finish.get? i = some e) :
    (∃ q children, b.outline.get? i = some q ∧ e = { q with children := children }) ∨
      ∃ c ∈ b.pending, b.finish = b.outline.attach Outline.root (trailing c) ∧
        i = b.outline.entities.size ∧
        ∃ full parent, e = { trailing c with fullName := full, parent := parent } := by
  unfold finish at h ⊢
  cases hp : b.pending with
  | none =>
    rw [hp] at h
    exact .inl ⟨e, e.children, h, rfl⟩
  | some c =>
    rw [hp] at h
    have hlt : i < b.outline.entities.size + 1 :=
      Outline.size_entities_attach b.outline Outline.root _ ▸ Outline.lt_size_of_get? h
    rcases Nat.lt_succ_iff_lt_or_eq.mp hlt with hlt | rfl
    · rw [Outline.get?_attach_of_lt hlt] at h
      obtain ⟨q, hq, rfl⟩ := Option.map_eq_some_iff.mp h
      refine .inl ⟨q, ?_⟩
      split
      · exact ⟨_, hq, rfl⟩
      · exact ⟨q.children, hq, rfl⟩
    · rw [Outline.get?_attach_size] at h
      exact .inr ⟨c, rfl, rfl, rfl, _, _, (Option.some.inj h).symm⟩

end Building

section

variable {options : Options} {file : String} {source : Text} {o : Outline} {e : Entity}
  {t : Token} {behind : List Token}

/-- **The first entity of a header**, if it starts where the first token does, is made from what
is read there. -/
theorem exists_read_of_first [Alphabet] (hm : options.predefined = [])
    (h : parse options file source = .ok o) (hd : o.diagnostics = #[])
    (he : o.get? 1 = some e) (hkind : e.kind ≠ .comment)
    (front : Tokens.skipTrivia (Token.scan options.limits source).dropLast = t :: behind)
    (hstart : e.sourceRange.start = t.start) :
    ∃ item rest d, Construct.read .empty options.mergeLineComments t behind = .read item rest ∧
      item.draft? = some d ∧ d.Makes e := by
  obtain ⟨hany, done, hrun, rfl⟩ := parse_eq_ok_iff.mp h
  rw [Options.definitions_of_nil hm] at hrun
  have hd : done.outline.diagnostics = #[] := done.diagnostics_finish ▸ hd
  obtain ⟨item, rest, hread, hmore⟩ := Building.exists_read_of_run front hrun hd
  cases hdraft : item.draft? with
  | some d =>
    obtain ⟨e', he', hmakes⟩ := Building.first_entity file source .empty source.size hdraft
    obtain ⟨children, hdone⟩ := Building.keeps_of_run hmore 1 e' he'
    obtain ⟨more, hfinish⟩ := Building.keeps_finish done 1 _ hdone
    obtain rfl := Option.some.inj (he.symm.trans hfinish)
    exact ⟨item, rest, d, hread, hdraft, hmakes.kind, hmakes.name, hmakes.flags⟩
  | none =>
    -- then all entities start behind the first token
    have hfront : t :: behind <:+ (Token.scan options.limits source).dropLast :=
      front ▸ Tokens.skipTrivia_suffix _
    have hrest : rest <:+ behind := by
      have hs := Construct.read_rest_suffix .empty options.mergeLineComments t behind
      rwa [show Construct.read .empty _ t behind = .read item rest from hread] at hs
    have hord : Span.Ordered ((t :: behind).map Token.span) :=
      (Token.ordered_scan hany).sublist (hfront.sublist.map Token.span)
    have hpos : t.start.offset < t.stop.offset := hord.nonempty t.span List.mem_cons_self
    have hbehind : ∀ u ∈ rest, t.start.offset + 1 ≤ u.start.offset := by
      intro u hu
      have hle : t.stop.offset ≤ u.start.offset :=
        (List.pairwise_cons.mp hord.apart).1 u.span (List.mem_map_of_mem (hrest.mem hu))
      omega
    have hroot : (Building.start file source .empty).outline.Rooted := rfl
    have hranges :
        ((Building.start file source .empty).add source.size item).outline.ranges = [] := by
      rw [Building.ranges_add hroot, hdraft]
      rfl
    have hlate := Building.le_start_of_run hmore hd
      (Building.rooted_add hroot source.size item) (fun s hs => absurd (hranges ▸ hs) (by simp))
      hbehind
    rcases Building.get?_of_finish he with ⟨q, children, hq, rfl⟩ | ⟨c, -, -, -, full, parent, rfl⟩
    · have hmem : q.sourceRange ∈ done.outline.ranges := by
        refine List.mem_map_of_mem (List.mem_iff_getElem?.mpr ⟨0, ?_⟩)
        rw [List.getElem?_tail, Array.getElem?_toList]
        exact hq
      have hlt := hlate _ hmem
      rw [show q.sourceRange.start = t.start from hstart] at hlt
      omega
    · exact absurd rfl hkind

end

end HeaderOutline
