import HeaderOutline.Proofs.Cover
import HeaderOutline.Proofs.Lossless
import HeaderOutline.Proofs.Run
import HeaderOutline.Text.Unicode

/-! # Entities stand in order

Entities are made in the order in which they stand in the header, and none overlaps
another.  The reading keeps one invariant (`Building.InOrder`): the stretches that have
been covered so far, those of comments among them, and the tokens that are left follow
each other.  A construct covers a stretch between its first token and one that it has
passed, which takes the place of the tokens passed.  Documentation that waits is covered
last; an entity takes it over and comes right behind it.
-/
namespace HeaderOutline

/-- Stretches that are not empty and of which each ends before the next one starts. -/
structure Span.Ordered (ss : List Span) : Prop where
  nonempty : ∀ s ∈ ss, s.start.offset < s.stop.offset
  apart : ss.Pairwise fun s s' => s.stop.offset ≤ s'.start.offset

namespace Span.Ordered

variable {ss us : List Span}

theorem sublist (h : Ordered us) (hs : ss.Sublist us) : Ordered ss :=
  ⟨fun s hm => h.nonempty s (hs.subset hm), h.apart.sublist hs⟩

/-- Two stretches, with all between them, make up one. -/
theorem join {before taken rest : List Span} {s s' : Span}
    (h : Ordered (before ++ (taken ++ rest))) (hs : taken.head? = some s) (hs' : s' ∈ taken) :
    Ordered (before ++ ⟨s.start, s'.stop⟩ :: rest) := by
  obtain ⟨more, rfl⟩ : ∃ more, taken = s :: more := List.head?_eq_some_iff.mp hs
  obtain ⟨hb, htr, hbt⟩ := List.pairwise_append.mp h.apart
  obtain ⟨ht, hr, htr'⟩ := List.pairwise_append.mp htr
  -- the first of the two starts before the second one ends
  have hlt : s.start.offset < s'.stop.offset := by
    have hpos := h.nonempty s (by simp)
    rcases List.mem_cons.mp hs' with rfl | hm
    · exact hpos
    · have hle := (List.pairwise_cons.mp ht).1 s' hm
      have hpos' := h.nonempty s' (by simp [hm])
      omega
  constructor
  · intro x hx
    rcases List.mem_append.mp hx with hx | hx
    · exact h.nonempty x (List.mem_append_left _ hx)
    · rcases List.mem_cons.mp hx with rfl | hx
      · exact hlt
      · exact h.nonempty x (by simp [hx])
  · refine List.pairwise_append.mpr ⟨hb, List.pairwise_cons.mpr ⟨htr' s' hs', hr⟩, ?_⟩
    intro x hx y hy
    rcases List.mem_cons.mp hy with rfl | hy
    · exact hbt x hx s (by simp)
    · exact hbt x hx y (by simp [hy])

end Span.Ordered

/-! ## The tokens of a text -/

theorem Text.size_pos {t : Text} (h : t ≠ []) : 0 < t.size := by
  obtain ⟨c, cs, rfl⟩ := List.exists_cons_of_ne_nil h
  have hc := Char.utf8Size_pos c
  rw [Text.size_cons]
  omega

namespace Token

theorem stop_offset (t : Token) : t.stop.offset = t.start.offset + t.text.size :=
  Position.advance_offset ..

/-- Each token ends before the next ones start. -/
theorem scan_apart [Alphabet] (l : Limits) (source : Text) :
    (scan l source).Pairwise fun t u => t.stop.offset ≤ u.start.offset := by
  rw [List.pairwise_iff_forall_sublist]
  intro t u h
  obtain ⟨before, behind, heq, hu⟩ : ∃ before behind, scan l source = before ++ t :: behind ∧
      u ∈ behind := by
    obtain ⟨before, us, heq, ht, hus⟩ := List.cons_sublist_iff.mp h
    obtain ⟨first, last, rfl⟩ := List.append_of_mem ht
    exact ⟨first, last ++ us, by simp [heq],
      List.mem_append_right _ (List.singleton_sublist.mp hus)⟩
  obtain ⟨mid, behind, rfl⟩ := List.append_of_mem hu
  have hsplit : scan l source = (before ++ t :: mid) ++ u :: behind := by
    rw [heq]
    simp
  rw [stop_offset, start_of_scan heq, start_of_scan hsplit, Position.advance_offset,
    Position.advance_offset]
  simp only [textOf_append, textOf_cons, Text.size_append]
  omega

/-- The tokens of a text without mistakes, the end left out, follow each other. -/
theorem ordered_scan [Alphabet] {l : Limits} {source : Text}
    (h : (scan l source).any isError = false) :
    Span.Ordered ((scan l source).dropLast.map span) := by
  have hap := scan_apart l source
  obtain ⟨body, halted, stop, heq, hbody, hend⟩ := scan_shape l source
  rw [heq] at h
  obtain rfl : halted = [] := by
    rcases hend with ⟨hnone, _⟩ | ⟨f, _, rfl⟩
    · exact hnone
    · simp [isError, halt] at h
  rw [heq] at hap ⊢
  rw [List.append_nil, List.dropLast_concat]
  constructor
  · intro s hs
    obtain ⟨t, ht, rfl⟩ := List.mem_map.mp hs
    obtain ⟨x, hx, htx⟩ := hbody t ht
    have hpos : 0 < t.text.size := Text.size_pos (htx ▸ hx.text_ne_nil)
    show t.start.offset < t.stop.offset
    rw [stop_offset]
    omega
  · rw [List.append_nil] at hap
    exact List.pairwise_map.mpr (List.pairwise_append.mp hap).1

end Token

/-! ## What has been covered -/

/-- The place of a comment. -/
def DocComment.place (c : DocComment) : Span := c.span.getD .origin

/-- The stretches that an entity covers: that of its comment, if it carries one, and its
own. -/
def Entity.spans (e : Entity) : List Span :=
  (e.comment.map DocComment.place).toList ++ [e.sourceRange]

theorem Entity.sourceRange_mem_spans (e : Entity) : e.sourceRange ∈ e.spans :=
  List.mem_append_right _ (List.mem_singleton_self _)

theorem Entity.place_mem_spans (e : Entity) {c : DocComment} (h : e.comment = some c) :
    c.place ∈ e.spans := by
  rw [spans, h]
  exact List.mem_append_left _ (List.mem_singleton_self _)

/-- The stretches that the entities below the root cover, entity by entity. -/
def Outline.covered (o : Outline) : List (List Span) := o.entities.toList.tail.map Entity.spans

/-- The stretches that have been covered so far. -/
def Building.spans (b : Building) : List Span :=
  b.outline.covered.flatten ++ (b.pending.map DocComment.place).toList

/-- The stretch that an item covers. -/
def Item.span? : Item → Option Span
  | .entity d | .scope d _ | .access _ d | .definition _ d | .suspect _ d => some d.sourceRange
  | .documentation comment => comment.map DocComment.place
  | .linkage | .close _ | .nothing => none

/-- The stretch of an item lies between two tokens. -/
theorem Item.Covers.span {item : Item} {first : Token} {ends : Token → Prop} {s : Span}
    (h : item.Covers first ends) (hs : s ∈ item.span?) :
    ∃ last, ends last ∧ s = .between first last := by
  cases item with
  | entity | scope | access | definition | suspect =>
    obtain rfl := Option.some.inj hs
    exact h
  | documentation comment =>
    cases comment with
    | none => cases hs
    | some c =>
      obtain rfl := Option.some.inj hs
      obtain ⟨_, last, hl, hc⟩ := h
      exact ⟨last, hl, by simp [DocComment.place, hc]⟩
  | linkage | close | nothing => cases hs

/-- A change that a function does not see leaves its values as they are. -/
theorem map_modify_eq {α β : Type} {f : α → α} {g : α → β} (hf : ∀ x, g (f x) = g x)
    (xs : List α) (i : Nat) : (xs.modify i f).map g = xs.map g := by
  induction xs generalizing i with
  | nil => simp
  | cons x xs ih =>
    cases i with
    | zero => simp [hf]
    | succ i => simp [ih]

/-- Whatever does not depend on the place of an entity is put behind that of the others by
one that is added, as long as there is a root. -/
theorem Outline.map_tail_attach {α : Type} {g : Entity → α}
    (hg : ∀ (e : Entity) (full : Text) (parent : Option EntityId) (children : Array EntityId),
      g { e with fullName := full, parent := parent, children := children } = g e)
    {o : Outline} (h : 0 < o.entities.size) (parent : EntityId) (e : Entity) :
    (o.attach parent e).entities.toList.tail.map g = o.entities.toList.tail.map g ++ [g e] := by
  have hne : o.entities.toList ≠ [] := List.ne_nil_of_length_pos h
  have hlinked := map_modify_eq (g := g)
    (f := fun p => { p with children := p.children.push o.entities.size })
    (fun p => hg p p.fullName p.parent _) o.entities.toList (o.hostOf parent)
  simp only [List.map_tail, attach, Array.toList_push, Array.toList_modify, List.map_append,
    hlinked]
  rw [List.tail_append_of_ne_nil (by simpa using hne), List.map_singleton, hg]

/-- An entity that is added covers what it covers, as long as there is a root. -/
theorem Outline.covered_attach {o : Outline} (h : 0 < o.entities.size) (parent : EntityId)
    (e : Entity) : (o.attach parent e).covered = o.covered ++ [e.spans] :=
  map_tail_attach (fun _ _ _ _ => rfl) h parent e

namespace Building

variable {b : Building}

theorem spans_emit (h : 0 < b.outline.entities.size) (d : Draft) :
    (b.emit d).spans = b.spans ++ [d.sourceRange] := by
  simp only [spans, emit, Outline.covered_attach h]
  simp [Entity.spans, Draft.toEntity]

/-- An item covers one stretch more at most; documentation may take the place of what
waited before. -/
theorem spans_add (h : 0 < b.outline.entities.size) (size : Nat) (item : Item) :
    (b.add size item).spans.Sublist (b.spans ++ item.span?.toList) := by
  have hemit : ∀ (b' : Building) (d : Draft), b'.outline.entities = b.outline.entities →
      b'.pending = b.pending → (b'.emit d).spans.Sublist (b.spans ++ [d.sourceRange]) := by
    intro b' d he hp
    have hspans : (b'.emit d).spans = b.spans ++ [d.sourceRange] := by
      rw [spans_emit (he ▸ h), spans, spans, Outline.covered, Outline.covered, he, hp]
    exact hspans ▸ List.Sublist.refl _
  cases item with
  | entity d => exact hemit b d rfl rfl
  | scope d access => exact hemit b d rfl rfl
  | access level d => exact hemit (b.withScopes (b.scopes.setAccess level)) d rfl rfl
  | definition definition d =>
    exact hemit { b with definitions := b.definitions.define definition } d rfl rfl
  | suspect warning d => exact hemit (b.report (warning.diagnostic size)) d rfl rfl
  | documentation comment =>
    show (b.outline.covered.flatten ++ _).Sublist (b.outline.covered.flatten ++ _ ++ _)
    rw [List.append_assoc]
    exact List.Sublist.append_left (List.sublist_append_right _ _) _
  | linkage => simp [add, Item.span?, withScopes, spans]
  | close brace =>
    simp only [add, Item.span?]
    split <;> simp [withScopes, spans, report, Outline.report, Outline.covered]
  | nothing => simp [add, Item.span?]

end Building

/-- There is a root, which carries no comment. -/
def Outline.Rooted (o : Outline) : Prop :=
  (o.entities.toList.map Entity.comment).head? = some none

theorem Outline.Rooted.size_pos {o : Outline} (h : o.Rooted) : 0 < o.entities.size := by
  unfold Rooted at h
  obtain ⟨rest, hr⟩ := List.head?_eq_some_iff.mp h
  have hlen := congrArg List.length hr
  simp at hlen
  omega

theorem Outline.Rooted.comment_eq_none {o : Outline} {r : Entity} (h : o.Rooted)
    (hr : o.get? root = some r) : r.comment = none := by
  rw [Rooted, List.head?_map, List.head?_eq_getElem?, Array.getElem?_toList] at h
  rw [get?, root] at hr
  rw [hr] at h
  exact Option.some.inj h

theorem Outline.Rooted.attach {o : Outline} (h : o.Rooted) (parent : EntityId) (e : Entity) :
    (o.attach parent e).Rooted := by
  have hlinked := map_modify_eq (g := Entity.comment)
    (f := fun p => { p with children := p.children.push o.entities.size }) (fun _ => rfl)
    o.entities.toList (o.hostOf parent)
  unfold Rooted at h ⊢
  simp only [Outline.attach, Array.toList_push, Array.toList_modify, List.map_append, hlinked,
    List.head?_append, h, Option.some_or]

namespace Building

variable {b : Building} {ts : List Token}

theorem rooted_add (h : b.outline.Rooted) (size : Nat) (item : Item) :
    (b.add size item).outline.Rooted := by
  cases item with
  | close brace =>
    simp only [add]
    split <;> exact h
  | entity | scope | access | definition | suspect => exact Outline.Rooted.attach h _ _
  | documentation | linkage | nothing => exact h

/-- The invariant of a reading: what has been covered and the tokens that are left follow
each other, and there is a root. -/
structure InOrder (b : Building) (ts : List Token) : Prop where
  rooted : b.outline.Rooted
  ordered : Span.Ordered (b.spans ++ ts.map Token.span)

theorem InOrder.leave {us : List Token} (h : b.InOrder ts) (hs : us <:+ ts) : b.InOrder us :=
  ⟨h.rooted, h.ordered.sublist ((hs.sublist.map Token.span).append_left _)⟩

/-- A construct keeps the order: what it covers takes the place of tokens that it passes. -/
theorem InOrder.add {t : Token} {rest : List Token} {item : Item} (h : b.InOrder (t :: ts))
    (hs : rest <:+ ts) (hc : item.Covers t (Passed (t :: ts) rest)) (size : Nat) :
    (b.add size item).InOrder rest := by
  refine ⟨rooted_add h.rooted size item, ?_⟩
  refine Span.Ordered.sublist ?_
    ((spans_add h.rooted.size_pos size item).append_right (rest.map Token.span))
  cases hsp : item.span? with
  | none =>
    rw [Option.toList_none, List.append_nil]
    exact (h.leave (hs.trans (List.suffix_cons t ts))).ordered
  | some s =>
    obtain ⟨last, ⟨taken, htaken, hlast⟩, rfl⟩ := hc.span hsp
    have hord := h.ordered
    rw [htaken, List.map_append] at hord
    rw [Option.toList_some, List.append_assoc, List.singleton_append]
    refine hord.join (s := t.span) ?_ (List.mem_map_of_mem hlast)
    -- a construct passes its first token
    obtain ⟨x, more, rfl⟩ := List.exists_cons_of_ne_nil (List.ne_nil_of_mem hlast)
    rw [(List.cons.inj htaken).1]
    rfl

/-- **One pass keeps the order.** -/
theorem InOrder.pass {policy : Recovery.Policy} {merge : Bool} {size : Nat} {t : Token}
    {behind : List Token} {b' : Building} (h : b.InOrder ts)
    (front : Tokens.skipTrivia ts = t :: behind)
    (added : b.after policy size (Construct.read b.definitions merge t behind) = .ok b') :
    b'.InOrder (Construct.read b.definitions merge t behind).next := by
  have hfront : b.InOrder (t :: behind) := h.leave (front ▸ Tokens.skipTrivia_suffix ts)
  have hrest := Construct.read_rest_suffix b.definitions merge t behind
  have hcovers := Construct.read_covers b.definitions merge t behind
  obtain ⟨item, rest, ho, rfl⟩ | ⟨_, _, _, -, -, rfl⟩ := after_eq_ok added
  · rw [ho] at hrest hcovers ⊢
    exact hfront.add hrest hcovers size
  · -- a diagnostic covers nothing
    have hleft := h.leave (next_suffix_of_front b.definitions merge front)
    exact ⟨hleft.rooted, hleft.ordered⟩

/-- All states that a reading comes through are in order. -/
theorem InOrder.reaches {policy : Recovery.Policy} {merge : Bool} {size : Nat} {b' : Building}
    {us : List Token} (h : b.InOrder ts) (hr : Reaches policy merge size b ts b' us) :
    b'.InOrder us := by
  induction hr with
  | refl => exact h
  | pass front added _ ih => exact ih (h.pass front added)

/-- **A whole reading keeps the order.** -/
theorem InOrder.run {policy : Recovery.Policy} {merge : Bool} {size : Nat} {done : Building}
    (h : b.InOrder ts) (hr : run policy merge size b ts = .ok done) :
    done.InOrder [] := by
  obtain ⟨us, hus, -⟩ := reaches_of_run hr
  exact (h.reaches hus).leave List.nil_suffix

theorem inOrder_start (file : String) (source : Text) (ds : Definitions)
    (h : Span.Ordered (ts.map Token.span)) : (start file source ds).InOrder ts :=
  ⟨rfl, h⟩

end Building

/-! ## The outline -/

namespace Outline

variable {o : Outline} {i : EntityId} {e : Entity}

/-- The entity that documentation has become which nothing followed: it is the last one,
and stands where its comment does. -/
def IsTrailing (o : Outline) (i : EntityId) : Prop :=
  i + 1 = o.entities.size ∧ ∃ c full,
    o.get? i = some { Building.trailing c with fullName := full, parent := some root }

theorem covered_getElem? (k : Nat) : o.covered[k]? = (o.get? (k + 1)).map Entity.spans := by
  rw [covered, List.getElem?_map, List.getElem?_tail, Array.getElem?_toList, get?]

theorem length_covered : o.covered.length = o.entities.size - 1 := by
  simp [covered]

theorem get?_attach_size (o : Outline) (parent : EntityId) (e : Entity) :
    (o.attach parent e).get? o.entities.size = some { e with
      fullName := qualify (((o.get? (o.hostOf parent)).map (·.fullName)).getD []) e.name
      parent := some (o.hostOf parent) } := by
  rw [get?, attach, Array.getElem?_push, if_pos (Array.size_modify ..).symm]

/-- Documentation that nothing follows comes last. -/
theorem isTrailing_attach (o : Outline) (c : DocComment) :
    (o.attach root (Building.trailing c)).IsTrailing o.entities.size := by
  have hget := o.get?_attach_size root (Building.trailing c)
  rw [show o.hostOf root = root from ite_self _] at hget
  exact ⟨by rw [size_entities_attach], c, _, hget⟩

/-- The outline of a reading in order: the entities below the root cover stretches that
are not empty, each its own before the next one does, and the comment of an entity stands
in front of it unless the entity is nothing but that comment. -/
structure InOrder (o : Outline) : Prop where
  rooted : o.Rooted
  nonempty : ∀ ss ∈ o.covered, ∀ s ∈ ss, s.start.offset < s.stop.offset
  apart : o.covered.Pairwise fun ss ss' => ∀ s ∈ ss, ∀ s' ∈ ss', s.stop.offset ≤ s'.start.offset
  within : ∀ i e, 0 < i → o.get? i = some e →
    o.IsTrailing i ∨ e.spans.Pairwise fun s s' => s.stop.offset ≤ s'.start.offset

/-- In an outline in order an entity ends before the later ones start. -/
theorem InOrder.range_apart (h : o.InOrder) {j : EntityId} {e' : Entity}
    (hi : 0 < i) (hij : i < j) (he : o.get? i = some e) (he' : o.get? j = some e') :
    e.sourceRange.stop.offset ≤ e'.sourceRange.start.offset := by
  obtain ⟨k, rfl⟩ := Nat.exists_eq_add_one_of_ne_zero (Nat.pos_iff_ne_zero.mp hi)
  obtain ⟨m, rfl⟩ := Nat.exists_eq_add_one_of_ne_zero (Nat.ne_zero_of_lt hij)
  have hspans : ∀ k e, o.get? (k + 1) = some e → o.covered[k]? = some e.spans :=
    fun k e he => by rw [covered_getElem?, he]; rfl
  obtain ⟨hk, hek⟩ := List.getElem?_eq_some_iff.mp (hspans k e he)
  obtain ⟨hm, hem⟩ := List.getElem?_eq_some_iff.mp (hspans m e' he')
  have hap := List.pairwise_iff_getElem.mp h.apart k m hk hm (Nat.lt_of_succ_lt_succ hij)
  rw [hek, hem] at hap
  exact hap _ e.sourceRange_mem_spans _ e'.sourceRange_mem_spans

end Outline

/-- A reading in order leads to an outline in order. -/
theorem Building.InOrder.finish {b : Building} (h : b.InOrder []) : b.finish.InOrder := by
  have hord : Span.Ordered b.spans := by simpa using h.ordered
  have hcov : Span.Ordered b.outline.covered.flatten := hord.sublist (List.sublist_append_left _ _)
  have hflat := List.pairwise_flatten.mp hcov.apart
  -- what holds of the entities without the one that documentation may become
  have hwithin : ∀ ss ∈ b.outline.covered,
      ss.Pairwise fun s s' => s.stop.offset ≤ s'.start.offset :=
    hflat.1
  have hnonempty : ∀ ss ∈ b.outline.covered, ∀ s ∈ ss, s.start.offset < s.stop.offset :=
    fun ss hss s hs => hcov.nonempty s (List.mem_flatten_of_mem hss hs)
  unfold Building.finish
  cases hp : b.pending with
  | none =>
    refine ⟨h.rooted, hnonempty, hflat.2, fun i e hi he => .inr (hwithin _ ?_)⟩
    obtain ⟨k, rfl⟩ := Nat.exists_eq_add_one_of_ne_zero (Nat.pos_iff_ne_zero.mp hi)
    exact List.mem_of_getElem? (by rw [Outline.covered_getElem?, he]; rfl)
  | some c =>
    have hspans : b.spans = b.outline.covered.flatten ++ [c.place] := by simp [spans, hp]
    have htrailing : (trailing c).spans = [c.place, c.place] := rfl
    rw [hspans] at hord
    have hlast := (List.pairwise_append.mp hord.apart).2.2
    have hattach := Outline.covered_attach h.rooted.size_pos Outline.root (trailing c)
    refine ⟨h.rooted.attach _ _, ?_, ?_, ?_⟩
    · rw [hattach, htrailing]
      intro ss hss s hs
      rcases List.mem_append.mp hss with hss | hss
      · exact hnonempty ss hss s hs
      · obtain rfl := List.mem_singleton.mp hss
        exact hord.nonempty s (by simp_all)
    · rw [hattach, htrailing]
      refine List.pairwise_append.mpr ⟨hflat.2, List.pairwise_singleton _ _, ?_⟩
      intro ss hss ss' hss' s hs s' hs'
      obtain rfl := List.mem_singleton.mp hss'
      exact hlast s (List.mem_flatten_of_mem hss hs) s' (by simp_all)
    · intro i e hi he
      obtain ⟨k, rfl⟩ := Nat.exists_eq_add_one_of_ne_zero (Nat.pos_iff_ne_zero.mp hi)
      have hk : (b.outline.covered ++ [(trailing c).spans])[k]? = some e.spans := by
        rw [← hattach, Outline.covered_getElem?, he]
        rfl
      by_cases hlt : k < b.outline.covered.length
      · rw [List.getElem?_append_left hlt] at hk
        exact .inr (hwithin _ (List.mem_of_getElem? hk))
      · -- behind all others stands the entity that the comment has become
        have hlen := Outline.length_covered (o := b.outline)
        have hpos := h.rooted.size_pos
        have hk' := (List.getElem?_eq_some_iff.mp hk).1
        rw [List.length_append, List.length_singleton] at hk'
        have hsize : k + 1 = b.outline.entities.size := by omega
        exact .inl (hsize ▸ Outline.isTrailing_attach b.outline c)

/-- An outline is in order. -/
theorem parse_inOrder [Alphabet] {options : Options} {file : String} {source : Text} {o : Outline}
    (h : parse options file source = .ok o) : o.InOrder := by
  obtain ⟨hany, b, hr, rfl⟩ := parse_eq_ok_iff.mp h
  have hstart := Building.inOrder_start file source options.definitions (Token.ordered_scan hany)
  exact (hstart.run hr).finish

/-- **Entities are in order, and none overlaps another.**  In the outline of a header, the
range of each entity below the root is not empty and ends before those of the later ones
start.  Every comment has its place, which is not empty, behind the entities before the
one that carries it and behind their comments, and in front of that one, unless that is
the comment which the header ends with. -/
theorem parse_ranges_ordered [Alphabet] {options : Options} {file : String} {source : Text}
    {o : Outline} (h : parse options file source = .ok o) :
    (∀ i e, 0 < i → o.get? i = some e →
      e.sourceRange.start.offset < e.sourceRange.stop.offset ∧
      ∀ j e', i < j → o.get? j = some e' →
        e.sourceRange.stop.offset ≤ e'.sourceRange.start.offset) ∧
    ∀ i e c, o.get? i = some e → e.comment = some c →
      0 < i ∧ ∃ s, c.span = some s ∧ s.start.offset < s.stop.offset ∧
        (o.IsTrailing i ∨ s.stop.offset ≤ e.sourceRange.start.offset) ∧
        ∀ j e', 0 < j → j < i → o.get? j = some e' →
          e'.sourceRange.stop.offset ≤ s.start.offset ∧
          ∀ c' s', e'.comment = some c' → c'.span = some s' → s'.stop.offset ≤ s.start.offset := by
  have ho := parse_inOrder h
  -- the stretches of an entity, and those of a later one
  have hspans : ∀ k e, o.get? (k + 1) = some e → o.covered[k]? = some e.spans :=
    fun k e he => by rw [Outline.covered_getElem?, he]; rfl
  have hnonempty : ∀ k e, o.get? (k + 1) = some e → ∀ s ∈ e.spans,
      s.start.offset < s.stop.offset :=
    fun k e he => ho.nonempty _ (List.mem_of_getElem? (hspans k e he))
  have hapart : ∀ k m e e', k < m → o.get? (k + 1) = some e → o.get? (m + 1) = some e' →
      ∀ s ∈ e.spans, ∀ s' ∈ e'.spans, s.stop.offset ≤ s'.start.offset := by
    intro k m e e' hkm he he'
    obtain ⟨hk, hek⟩ := List.getElem?_eq_some_iff.mp (hspans k e he)
    obtain ⟨hm, hem⟩ := List.getElem?_eq_some_iff.mp (hspans m e' he')
    rw [← hek, ← hem]
    exact List.pairwise_iff_getElem.mp ho.apart k m hk hm hkm
  constructor
  · intro i e hi he
    obtain ⟨k, rfl⟩ := Nat.exists_eq_add_one_of_ne_zero (Nat.pos_iff_ne_zero.mp hi)
    refine ⟨hnonempty k e he _ e.sourceRange_mem_spans, fun j e' hij he' => ?_⟩
    obtain ⟨m, rfl⟩ := Nat.exists_eq_add_one_of_ne_zero (Nat.ne_zero_of_lt hij)
    exact hapart k m e e' (Nat.lt_of_succ_lt_succ hij) he he' _ e.sourceRange_mem_spans _
      e'.sourceRange_mem_spans
  · intro i e c he hc
    obtain ⟨k, rfl⟩ : ∃ k, i = k + 1 := by
      refine Nat.exists_eq_add_one_of_ne_zero ?_
      rintro rfl
      cases (ho.rooted.comment_eq_none he).symm.trans hc
    have hplace := e.place_mem_spans hc
    have hpos := hnonempty k e he _ hplace
    -- a comment without a place would be empty
    obtain ⟨s, hs⟩ : ∃ s, c.span = some s := by
      cases hs : c.span with
      | some s => exact ⟨s, rfl⟩
      | none => simp [DocComment.place, hs, Span.origin] at hpos
    have hcs : c.place = s := by simp [DocComment.place, hs]
    rw [hcs] at hplace hpos
    refine ⟨Nat.succ_pos k, s, hs, hpos, ?_, ?_⟩
    · refine (ho.within _ e (Nat.succ_pos k) he).imp_right fun hw => ?_
      rw [Entity.spans, hc] at hw
      simpa [hcs] using hw
    · intro j e' hj hji he'
      obtain ⟨m, rfl⟩ := Nat.exists_eq_add_one_of_ne_zero (Nat.pos_iff_ne_zero.mp hj)
      have hmk := hapart m k e' e (Nat.lt_of_succ_lt_succ hji) he' he
      refine ⟨hmk _ e'.sourceRange_mem_spans s hplace, fun c' s' hc' hs' => ?_⟩
      have hplace' := e'.place_mem_spans hc'
      rw [DocComment.place, hs'] at hplace'
      exact hmk s' hplace' s hplace

/-- A header of two variables, the first of which carries a comment. -/
theorem parse_ranges_ordered_two_variables :
    ∃ o e c s, parse .standard "a.h" "/** A. */\nint a;\nint b;".toList = .ok o ∧ o.size = 2 ∧
      o.get? 1 = some e ∧ e.comment = some c ∧ c.span = some s ∧
      s.start.offset < s.stop.offset ∧ s.stop.offset ≤ e.sourceRange.start.offset := by
  have hread : (match parse .standard "a.h" "/** A. */\nint a;\nint b;".toList with
      | .ok o => o.size == 2 && ((o.get? 1).bind (·.comment)).isSome
      | .error _ => false) = true := by decide +kernel
  cases h : parse .standard "a.h" "/** A. */\nint a;\nint b;".toList with
  | error e =>
    rw [h] at hread
    cases hread
  | ok o =>
    rw [h] at hread
    simp only [Bool.and_eq_true, beq_iff_eq] at hread
    obtain ⟨c, hcomment⟩ := Option.isSome_iff_exists.mp hread.2
    obtain ⟨e, he, hc⟩ := Option.bind_eq_some_iff.mp hcomment
    obtain ⟨_, s, hs, hpos, hbefore, _⟩ := (parse_ranges_ordered h).2 1 e c he hc
    refine ⟨o, e, c, s, rfl, hread.1, he, hc, hs, hpos, hbefore.resolve_left ?_⟩
    rintro ⟨hlast, -⟩
    have hsize : o.entities.size - 1 = 2 := hread.1
    rw [← hlast] at hsize
    exact absurd hsize (by decide)

end HeaderOutline
