import HeaderOutline.Proofs.Account
import HeaderOutline.Proofs.Revision.Scan

/-! # The tokens of a stretch

Tokens that follow each other without overlap can be found by their offsets: those of a stretch
from the start of one token to the end of another are the ones between the two
(`Span.Ordered.tokens_between`), and the stretch covers just their text (`Token.slice_stretch`).
The ranges of the entities of an outline are such stretches (`exists_tokens_of_parse`).
-/
namespace HeaderOutline

/-- Whether a token starts in a stretch. -/
def Token.startsIn (t : Token) (s : Span) : Bool :=
  s.start.offset ≤ t.start.offset && t.start.offset < s.stop.offset

theorem Token.startsIn_eq_true_iff {t : Token} {s : Span} :
    t.startsIn s = true ↔ s.start.offset ≤ t.start.offset ∧ t.start.offset < s.stop.offset := by
  simp [startsIn]

/-- The tokens that start in a stretch. -/
def Span.tokens (s : Span) (ts : List Token) : List Token := ts.filter (·.startsIn s)

/-- The tokens from an offset on. -/
def Tokens.since (n : Nat) (ts : List Token) : List Token :=
  ts.filter fun t => n ≤ t.start.offset

/-- The tokens in front of an offset. -/
def Tokens.before (n : Nat) (ts : List Token) : List Token :=
  ts.filter fun t => t.start.offset < n

namespace Span.Ordered

variable {front taken rest : List Token} {t last x : Token}

/-- What comes before a token starts before it. -/
theorem start_lt (h : Ordered ((front ++ t :: rest).map Token.span)) (hx : x ∈ front) :
    x.start.offset < t.start.offset := by
  rw [List.map_append] at h
  have hpos : x.start.offset < x.stop.offset :=
    h.nonempty x.span (List.mem_append_left _ (List.mem_map_of_mem hx))
  have hle : x.stop.offset ≤ t.start.offset :=
    (List.pairwise_append.mp h.apart).2.2 x.span (List.mem_map_of_mem hx) t.span (by simp)
  omega

/-- What comes behind a token starts where it ends, or later. -/
theorem stop_le (h : Ordered ((front ++ t :: rest).map Token.span)) (hx : x ∈ rest) :
    t.stop.offset ≤ x.start.offset := by
  rw [List.map_append, List.map_cons] at h
  have hbehind := (List.pairwise_append.mp h.apart).2.1
  exact (List.pairwise_cons.mp hbehind).1 x.span (List.mem_map_of_mem hx)

/-- The tokens from the start of one of them on. -/
theorem since_start (h : Ordered ((front ++ t :: rest).map Token.span)) :
    Tokens.since t.start.offset (front ++ t :: rest) = t :: rest := by
  have hpos : t.start.offset < t.stop.offset := h.nonempty t.span (by simp)
  have hfront : front.filter (fun x => decide (t.start.offset ≤ x.start.offset)) = [] := by
    refine List.filter_eq_nil_iff.mpr fun x hx => ?_
    have hlt := h.start_lt hx
    simpa using hlt
  have hrest : rest.filter (fun x => decide (t.start.offset ≤ x.start.offset)) = rest := by
    refine List.filter_eq_self.mpr fun x hx => ?_
    have hle := h.stop_le hx
    exact decide_eq_true (by omega)
  rw [Tokens.since, List.filter_append, hfront, List.filter_cons_of_pos (by simp), hrest,
    List.nil_append]

/-- The tokens in front of the start of one of them. -/
theorem before_start (h : Ordered ((front ++ t :: rest).map Token.span)) :
    Tokens.before t.start.offset (front ++ t :: rest) = front := by
  have hpos : t.start.offset < t.stop.offset := h.nonempty t.span (by simp)
  have hfront : front.filter (fun x => decide (x.start.offset < t.start.offset)) = front :=
    List.filter_eq_self.mpr fun x hx => decide_eq_true (h.start_lt hx)
  have hrest : rest.filter (fun x => decide (x.start.offset < t.start.offset)) = [] := by
    refine List.filter_eq_nil_iff.mpr fun x hx => ?_
    have hle := h.stop_le hx
    simpa using Nat.le_trans (Nat.le_of_lt hpos) hle
  rw [Tokens.before, List.filter_append, hfront, List.filter_cons_of_neg (by simp), hrest,
    List.append_nil]

/-- **The tokens of a stretch** from one token to the end of another are those from the one to
the other. -/
theorem tokens_between (h : Ordered ((front ++ (taken ++ rest)).map Token.span))
    (hfirst : taken.head? = some t) (hlast : taken.getLast? = some last) :
    (Span.between t last).tokens (front ++ (taken ++ rest)) = taken := by
  obtain ⟨more, hmore⟩ := List.head?_eq_some_iff.mp hfirst
  obtain ⟨mid, hmid⟩ := List.getLast?_eq_some_iff.mp hlast
  -- what is not taken ends before the first token or starts behind the last one
  have hsplit : front ++ (taken ++ rest) = (front ++ mid) ++ last :: rest := by simp [hmid]
  have hfrom : front ++ (taken ++ rest) = front ++ t :: (more ++ rest) := by simp [hmore]
  have hfront : front.filter (·.startsIn (.between t last)) = [] := by
    refine List.filter_eq_nil_iff.mpr fun x hx hin => ?_
    have hlt := (hfrom ▸ h).start_lt hx
    exact Nat.not_le.mpr hlt (Token.startsIn_eq_true_iff.mp hin).1
  have hrest : rest.filter (·.startsIn (.between t last)) = [] := by
    refine List.filter_eq_nil_iff.mpr fun x hx hin => ?_
    have hle := (hsplit ▸ h).stop_le hx
    exact Nat.not_lt.mpr hle (Token.startsIn_eq_true_iff.mp hin).2
  have htaken : taken.filter (·.startsIn (.between t last)) = taken := by
    refine List.filter_eq_self.mpr fun x hx => Token.startsIn_eq_true_iff.mpr ?_
    have hbehind : Ordered ((t :: (more ++ rest)).map Token.span) :=
      (hfrom ▸ h).sublist ((List.sublist_append_right _ _).map Token.span)
    have hends : t :: (more ++ rest) = mid ++ last :: rest := by
      rw [← List.cons_append, ← hmore, hmid]
      simp
    have hmem : x ∈ mid ∨ x = last := by simpa [hmid] using hx
    obtain ⟨hstart, hstop⟩ := hbehind.holds_between hends hmem
    have hpos : x.start.offset < x.stop.offset :=
      h.nonempty x.span (List.mem_map_of_mem (by simp [hx]))
    exact ⟨hstart, Nat.lt_of_lt_of_le hpos hstop⟩
  rw [Span.tokens, List.filter_append, List.filter_append, hfront, hrest, htaken,
    List.append_nil, List.nil_append]

end Span.Ordered

/-- A token of a text without mistakes ends within the text. -/
theorem Token.stop_le_size [Alphabet] {l : Limits} {source : Text} {t : Token}
    (hany : (scan l source).any isError = false) (ht : t ∈ (scan l source).dropLast) :
    t.stop.offset ≤ source.size := by
  obtain ⟨front, rest, hts⟩ := List.append_of_mem ht
  obtain ⟨htext, e, heq⟩ := textOf_scan hany
  have hstart := start_of_scan (show scan l source = front ++ t :: (rest ++ [e]) by
    rw [heq, hts]
    simp)
  rw [stop_offset, hstart, Position.origin_advance_offset, ← htext, hts]
  simp only [textOf_append, textOf_cons, Text.size_append]
  omega

/-! ## What a reading covers -/

namespace Building

variable {policy : Recovery.Policy} {merge : Bool} {size : Nat} {b done : Building}
  {all ts : List Token}

/-- All that is covered runs from the start of a token to the end of one. -/
def CoversTokens (all : List Token) (b : Building) : Prop :=
  ∀ s ∈ b.spans, ∃ t ∈ all, ∃ last ∈ all, s = .between t last

/-- A reading covers stretches between tokens. -/
theorem CoversTokens.run (h : b.CoversTokens all) (hroot : b.outline.Rooted) (hts : ts <:+ all)
    (hr : run policy merge size b ts = .ok done) : done.CoversTokens all := by
  induction b, ts using run_induction merge with
  | nil b ts hnil =>
    obtain rfl := Except.ok.inj ((run_of_nil hnil).symm.trans hr)
    exact h
  | cons b ts t behind front ih =>
    obtain ⟨b', added, hmore⟩ := exists_after_of_run front hr
    have hfront : t :: behind <:+ all := (front ▸ Tokens.skipTrivia_suffix ts).trans hts
    have hnext := (next_suffix_of_front b.definitions merge front).trans hts
    have hcovers := Construct.read_covers b.definitions merge t behind
    obtain ⟨item, rest, ho, rfl⟩ | ⟨_, _, _, -, -, rfl⟩ := after_eq_ok added
    case inr => exact ih (b.report _) h hroot hnext hmore
    case inl =>
      rw [ho] at hcovers
      refine ih _ (fun s hs => ?_) (rooted_add hroot size item) hnext hmore
      rcases List.mem_append.mp ((spans_add hroot.size_pos size item).subset hs) with hs | hs
      · exact h s hs
      · obtain ⟨last, hlast, rfl⟩ := Item.Covers.span hcovers (Option.mem_toList.mp hs)
        exact ⟨t, hfront.mem List.mem_cons_self, last, hfront.mem hlast.mem, rfl⟩

/-- What the entities cover in the end had been covered when all was read. -/
theorem mem_spans_of_finish (h : b.outline.Rooted) {ss : List Span} (hss : ss ∈ b.finish.covered)
    {s : Span} (hs : s ∈ ss) : s ∈ b.spans := by
  unfold finish at hss
  cases hp : b.pending with
  | none =>
    rw [hp] at hss
    exact List.mem_append_left _ (List.mem_flatten_of_mem hss hs)
  | some c =>
    rw [hp] at hss
    change ss ∈ (b.outline.attach Outline.root (trailing c)).covered at hss
    rw [Outline.covered_attach h.size_pos] at hss
    rcases List.mem_append.mp hss with hss | hss
    · exact List.mem_append_left _ (List.mem_flatten_of_mem hss hs)
    · obtain rfl := List.mem_singleton.mp hss
      have hplace : s = c.place := by simpa [Entity.spans, trailing, DocComment.place] using hs
      exact List.mem_append_right _ (by simp [hp, hplace])

end Building

/-- **The range of an entity** runs from the start of a token to the end of one. -/
theorem exists_tokens_of_parse [Alphabet] {options : Options} {file : String} {source : Text}
    {o : Outline} {i : EntityId} {e : Entity} (h : parse options file source = .ok o) (hi : 0 < i)
    (he : o.get? i = some e) :
    ∃ t ∈ (Token.scan options.limits source).dropLast,
      ∃ last ∈ (Token.scan options.limits source).dropLast, e.sourceRange = .between t last := by
  obtain ⟨hany, done, hrun, rfl⟩ := parse_eq_ok_iff.mp h
  have hstart := Building.inOrder_start file source options.definitions (Token.ordered_scan hany)
  have hcovers : Building.CoversTokens (Token.scan options.limits source).dropLast
      (.start file source options.definitions) := fun _ hs => by cases hs
  obtain ⟨k, rfl⟩ := Nat.exists_eq_add_one_of_ne_zero (Nat.pos_iff_ne_zero.mp hi)
  have hk : e.spans ∈ done.finish.covered :=
    List.mem_of_getElem? (by rw [Outline.covered_getElem?, he]; rfl)
  exact hcovers.run rfl List.suffix_rfl hrun _
    (Building.mem_spans_of_finish (hstart.run hrun).rooted hk e.sourceRange_mem_spans)

end HeaderOutline
