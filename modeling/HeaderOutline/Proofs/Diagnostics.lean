import HeaderOutline.Proofs.Blame
import HeaderOutline.Proofs.Order
import HeaderOutline.Proofs.Policy
import HeaderOutline.Proofs.Revision.Scan
import HeaderOutline.Text.Unicode

/-! # Where diagnostics lie

A diagnostic lies on a token that its construct finds fault with, or on the end of the input
(`Outcome.Names`), and what it points to does so, too.  Such a token is passed, or the
reading goes on before it; so no token that is left starts before the diagnostic, and the
next diagnostic cannot lie before this one (`Building.Diagnosed`).  The end of the input is
taken for a token behind all the others, which is never passed.
-/
namespace HeaderOutline

/-- The places that a diagnostic names: its own one, and those that it points to. -/
def Diagnostic.ranges (d : Diagnostic) : List ByteRange := d.range :: d.related.map Related.range

/-! ## The places of tokens -/

namespace Token

variable {l : Limits} {source : Text}

/-- Tokens come in the order of their starts. -/
theorem scan_sorted [Alphabet] (l : Limits) (source : Text) :
    (scan l source).Pairwise fun t u => t.range.start ≤ u.range.start := by
  refine (scan_apart l source).imp fun {t u} h => ?_
  rw [stop_offset] at h
  show t.start.offset ≤ u.start.offset
  omega

/-- A token lies within the text. -/
theorem range_of_scan [Alphabet] {t : Token} (h : t ∈ scan l source) :
    t.range.start ≤ t.range.stop ∧ t.range.stop ≤ source.size := by
  refine ⟨Nat.le_add_right .., ?_⟩
  obtain ⟨before, behind, heq⟩ := List.append_of_mem h
  obtain ⟨missing, hsource⟩ := textOf_scan_beginning l source
  have hstart : t.start.offset = (textOf before).size := by
    rw [start_of_scan heq, Position.advance_offset]
    exact Nat.zero_add _
  have hsize := congrArg Text.size hsource
  rw [heq] at hsize
  simp only [textOf_append, textOf_cons, Text.size_append] at hsize
  show t.start.offset + t.text.size ≤ source.size
  omega

/-- The end of a text without mistakes is a token behind those that are read. -/
theorem exists_end_of_scan [Alphabet] (hany : (scan l source).any isError = false) :
    ∃ e, scan l source = (scan l source).dropLast ++ [e] ∧ e.range = .empty source.size := by
  obtain ⟨htext, e, heq⟩ := textOf_scan hany
  have hstart : e.start.offset = source.size := by
    rw [start_of_scan heq, htext, Position.advance_offset]
    exact Nat.zero_add _
  have hmem : e ∈ scan l source := by
    rw [heq]
    exact List.mem_append_right _ (List.mem_singleton_self e)
  have hempty : e.start.offset + e.text.size = source.size := by
    have hstop : e.start.offset + e.text.size ≤ source.size := (range_of_scan hmem).2
    omega
  refine ⟨e, heq, ?_⟩
  rw [range, hempty, hstart]
  rfl

end Token

/-! ## What a pass reports -/

/-- A diagnostic names what a construct finds fault with. -/
structure Outcome.Names (size : Nat) (o : Outcome) (d : Diagnostic) : Prop where
  range : (∃ x ∈ o.blamed, d.range = x.range) ∨ o.blamesEnd = true ∧ d.range = .empty size
  related : ∀ r ∈ d.related, ∃ x ∈ o.blamed, r.range = x.range

namespace Outcome

variable {size : Nat} {rest : List Token}

theorem names_failed (fault : Fault) (ended : Bool) :
    (failed fault ended rest).Names size (fault.diagnostic size) := by
  obtain ⟨cause, token⟩ := fault
  constructor
  · cases token with
    | none => exact .inr ⟨rfl, rfl⟩
    | some x => exact .inl ⟨x, by simp [blamed, Fault.tokens], rfl⟩
  · intro r hr
    cases cause with
    | templateWithoutList keyword =>
      obtain rfl := List.mem_singleton.mp hr
      exact ⟨keyword, by simp [blamed, Fault.tokens], rfl⟩
    | _ => cases hr

theorem names_suspect (warning : Warning) (d : Draft) :
    (read (.suspect warning d) rest).Names size (warning.diagnostic size) := by
  cases warning with
  | strayBrace brace => exact ⟨.inl ⟨brace, List.mem_cons_self, rfl⟩, nofun⟩
  | namelessMacro found =>
    refine ⟨?_, nofun⟩
    cases found with
    | none => exact .inr ⟨rfl, rfl⟩
    | some x => exact .inl ⟨x, by simp [blamed, Item.blamed, Warning.tokens], rfl⟩

theorem names_close (brace : Token) :
    (read (.close brace) rest).Names size ((Warning.strayBrace brace).diagnostic size) :=
  ⟨.inl ⟨brace, List.mem_cons_self, rfl⟩, nofun⟩

/-- **The token of a diagnostic** is one of those that the construct starts from, or the end,
and none that is left starts before it. -/
theorem Names.exists_token {o : Outcome} {us : List Token} {e : Token} {d : Diagnostic}
    (h : o.Names size d) (hb : o.Blames us) (hs : o.next <:+ us)
    (hsorted : (us ++ [e]).Pairwise fun t u => t.range.start ≤ u.range.start)
    (he : e.range = .empty size) :
    ∃ x ∈ us ++ [e], d.range = x.range ∧
      ∀ t ∈ o.next ++ [e], x.range.start ≤ t.range.start := by
  rcases h.range with ⟨x, hx, hd⟩ | ⟨hend, hd⟩
  · refine ⟨x, List.mem_append_left [e] (hb.mem hs hx), hd, ?_⟩
    rcases hb.tokens x hx with ⟨taken, hus, hmem⟩ | ⟨hhead, -⟩
    · intro t ht
      rw [hus, List.append_assoc] at hsorted
      exact (List.pairwise_append.mp hsorted).2.2 x hmem t ht
    · obtain ⟨more, hmore⟩ := List.head?_eq_some_iff.mp hhead
      obtain ⟨taken, rfl⟩ := hs
      rw [List.append_assoc] at hsorted
      have hleft := (List.pairwise_append.mp hsorted).2.1
      rw [hmore] at hleft ⊢
      intro t ht
      rcases List.mem_cons.mp ht with rfl | ht
      · exact Nat.le_refl _
      · exact (List.pairwise_cons.mp hleft).1 t ht
  · refine ⟨e, by simp, hd.trans he.symm, ?_⟩
    rw [hb.atEnd hend]
    intro t ht
    obtain rfl := List.mem_singleton.mp ht
    exact Nat.le_refl _

end Outcome

namespace Building

variable {policy : Recovery.Policy} {size : Nat} {b b' : Building}

/-- **What a pass reports**: nothing, or one diagnostic, which names what its construct finds
fault with. -/
theorem diagnostics_after {o : Outcome} (h : b.after policy size o = .ok b') :
    b'.outline.diagnostics = b.outline.diagnostics ∨
      ∃ d, o.Names size d ∧ b'.outline.diagnostics = b.outline.diagnostics.push d := by
  obtain ⟨item, rest, rfl, rfl⟩ | ⟨fault, ended, rest, rfl, -, rfl⟩ := after_eq_ok h
  · cases item with
    | close brace =>
      unfold add
      dsimp only
      split
      · exact .inl rfl
      · exact .inr ⟨_, Outcome.names_close brace, rfl⟩
    | suspect warning d => exact .inr ⟨_, Outcome.names_suspect warning d, rfl⟩
    | entity | scope | linkage | access | definition | documentation | nothing => exact .inl rfl
  · exact .inr ⟨_, Outcome.names_failed fault ended, rfl⟩

/-! ## The whole reading -/

/-- Diagnostics name places of tokens; they come in the order of their starts, and no token
that is left starts before one of them. -/
structure Diagnosed (all left : List Token) (b : Building) : Prop where
  onTokens : ∀ d ∈ b.outline.diagnostics, ∀ r ∈ d.ranges, ∃ t ∈ all, r = t.range
  sorted : b.outline.diagnostics.toList.Pairwise fun d d' => d.range.start ≤ d'.range.start
  ahead : ∀ d ∈ b.outline.diagnostics, ∀ t ∈ left, d.range.start ≤ t.range.start

namespace Diagnosed

variable {all left left' ts behind : List Token} {t x e : Token} {d : Diagnostic}

theorem start (file : String) (source : Text) (definitions : Definitions)
    (all left : List Token) : Diagnosed all left (Building.start file source definitions) :=
  ⟨nofun, .nil, nofun⟩

/-- Where nothing is reported, some tokens may be passed. -/
theorem pass (h : Diagnosed all left b) (hs : left' <:+ left)
    (hd : b'.outline.diagnostics = b.outline.diagnostics) : Diagnosed all left' b' := by
  constructor
  · rw [hd]
    exact h.onTokens
  · rw [hd]
    exact h.sorted
  · rw [hd]
    intro d hm t ht
    exact h.ahead d hm t (hs.subset ht)

/-- A diagnostic may be added on a token that is left, if none that is left afterwards starts
before it. -/
theorem push (h : Diagnosed all left b) (hs : left' <:+ left)
    (hd : b'.outline.diagnostics = b.outline.diagnostics.push d)
    (hranges : ∀ r ∈ d.ranges, ∃ t ∈ all, r = t.range) (hx : x ∈ left)
    (hrange : d.range = x.range) (hahead : ∀ t ∈ left', x.range.start ≤ t.range.start) :
    Diagnosed all left' b' := by
  constructor
  · intro d' hd'
    rw [hd] at hd'
    rcases Array.mem_push.mp hd' with hm | rfl
    · exact h.onTokens d' hm
    · exact hranges
  · rw [hd, Array.toList_push]
    refine List.pairwise_append.mpr ⟨h.sorted, List.pairwise_singleton .., ?_⟩
    intro d' hm d'' hnew
    obtain rfl := List.mem_singleton.mp hnew
    rw [hrange]
    exact h.ahead d' (Array.mem_toList_iff.mp hm) x hx
  · intro d' hd' t ht
    rw [hd] at hd'
    rcases Array.mem_push.mp hd' with hm | rfl
    · exact h.ahead d' hm t (hs.subset ht)
    · rw [hrange]
      exact hahead t ht

/-- **One pass.**  What a pass reports lies between what has been reported and the tokens that
it leaves. -/
theorem after {merge : Bool} (h : Diagnosed all (t :: behind ++ [e]) b)
    (hsorted : all.Pairwise fun t u => t.range.start ≤ u.range.start)
    (hall : t :: behind ++ [e] <:+ all) (he : e.range = .empty size)
    (ha : b.after policy size (Construct.read b.definitions merge t behind) = .ok b') :
    Diagnosed all ((Construct.read b.definitions merge t behind).next ++ [e]) b' := by
  have hb := Construct.read_blames b.definitions merge t behind
  have hs : (Construct.read b.definitions merge t behind).next <:+ t :: behind :=
    (next_suffix _ _ t behind).trans (List.suffix_cons t behind)
  generalize Construct.read b.definitions merge t behind = o at hb hs ha ⊢
  have hmore : o.next ++ [e] <:+ t :: behind ++ [e] := List.suffix_append_self_iff.mpr hs
  rcases diagnostics_after ha with hd | ⟨d, hnames, hd⟩
  · exact h.pass hmore hd
  · obtain ⟨x, hx, hrange, hahead⟩ :=
      hnames.exists_token hb hs (hsorted.sublist hall.sublist) he
    refine h.push hmore hd (fun r hr => ?_) hx hrange hahead
    rcases List.mem_cons.mp hr with rfl | hr
    · exact ⟨x, hall.subset hx, hrange⟩
    · obtain ⟨related, hm, rfl⟩ := List.mem_map.mp hr
      obtain ⟨y, hy, hplace⟩ := hnames.related related hm
      exact ⟨y, hall.subset (List.mem_append_left [e] (hb.mem hs hy)), hplace⟩

/-- **A whole reading.** -/
theorem run {merge : Bool} {done : Building} (h : Diagnosed all (ts ++ [e]) b)
    (hsorted : all.Pairwise fun t u => t.range.start ≤ u.range.start)
    (hall : ts ++ [e] <:+ all) (he : e.range = .empty size)
    (hr : Building.run policy merge size b ts = .ok done) : Diagnosed all [e] done := by
  induction b, ts using run_induction merge with
  | nil b ts hnil =>
    obtain rfl := Except.ok.inj ((run_of_nil hnil).symm.trans hr)
    exact h.pass (List.suffix_append ts [e]) rfl
  | cons b ts t behind front ih =>
    obtain ⟨b', ha, hmore⟩ := exists_after_of_run front hr
    have hfront : t :: behind ++ [e] <:+ ts ++ [e] :=
      List.suffix_append_self_iff.mpr (front ▸ Tokens.skipTrivia_suffix ts)
    have hnext : (Construct.read b.definitions merge t behind).next ++ [e] <:+ ts ++ [e] :=
      List.suffix_append_self_iff.mpr (next_suffix_of_front b.definitions merge front)
    exact ih b' ((h.pass hfront rfl).after hsorted (hfront.trans hall) he ha)
      (hnext.trans hall) hmore

end Diagnosed
end Building

/-- **Diagnostics lie on tokens, in order.**  Every diagnostic of an outline, and every place
that it points to, has the range of a token of the header, its end included, and so lies
within the header; the diagnostics are listed in the order of their starts. -/
theorem parse_diagnostics [Alphabet] {options : Options} {file : String} {source : Text}
    {o : Outline} (h : parse options file source = .ok o) :
    (∀ d ∈ o.diagnostics, ∀ r ∈ d.ranges, (∃ t ∈ Token.scan options.limits source, r = t.range) ∧
      r.start ≤ r.stop ∧ r.stop ≤ source.size) ∧
    o.diagnostics.toList.Pairwise fun d d' => d.range.start ≤ d'.range.start := by
  obtain ⟨hany, b, hr, rfl⟩ := parse_eq_ok_iff.mp h
  obtain ⟨e, heq, he⟩ := Token.exists_end_of_scan hany
  have hdone : Building.Diagnosed (Token.scan options.limits source) [e] b :=
    (Building.Diagnosed.start file source options.definitions _ _).run
      (Token.scan_sorted options.limits source) (heq ▸ List.suffix_rfl) he hr
  rw [Building.diagnostics_finish]
  refine ⟨fun d hd r hrange => ?_, hdone.sorted⟩
  obtain ⟨t, ht, rfl⟩ := hdone.onTokens d hd r hrange
  exact ⟨⟨t, ht, rfl⟩, Token.range_of_scan ht⟩

/-- A template without a list, whose diagnostic points back to the keyword, a brace that closes
nothing, and a class that is missing at the end. -/
theorem parse_diagnostics_template :
    ∃ o, parse .standard "a.h" "template x \x7d class".toList = .ok o ∧
      o.diagnostics.toList.map Diagnostic.ranges
        = [[⟨9, 10⟩, ⟨0, 8⟩], [⟨11, 12⟩], [⟨18, 18⟩]] ∧
      (∀ d ∈ o.diagnostics, ∀ r ∈ d.ranges,
        (∃ t ∈ Token.scan .standard "template x \x7d class".toList, r = t.range) ∧
          r.start ≤ r.stop ∧ r.stop ≤ Text.size "template x \x7d class".toList) ∧
      o.diagnostics.toList.Pairwise fun d d' => d.range.start ≤ d'.range.start := by
  obtain ⟨o, h, hread⟩ := exists_of_toOption_any
    (p := fun o => o.diagnostics.toList.map Diagnostic.ranges
      == [[⟨9, 10⟩, ⟨0, 8⟩], [⟨11, 12⟩], [⟨18, 18⟩]])
    (show (parse .standard "a.h" "template x \x7d class".toList).toOption.any _ = true by
      decide +kernel)
  obtain ⟨hplaces, hsorted⟩ := parse_diagnostics h
  exact ⟨o, h, eq_of_beq hread, hplaces, hsorted⟩

end HeaderOutline
