import HeaderOutline.Proofs.Fills
import HeaderOutline.Proofs.Order
import HeaderOutline.Proofs.Policy
import HeaderOutline.Text.Unicode

/-! # A clean reading loses nothing

A construct that makes no entity passes spare tokens only (`Outcome.Spares`), and one that
makes an entity leaves only spare tokens behind it.  So the reading keeps account of all
tokens that it has passed (`Building.Accounts`), as long as it meets no fault; and since
entities do not overlap, no token belongs to two of them.  Directives are left out: behind
their last token they drop what they do not record.
-/
namespace HeaderOutline

/-! ## Constructs that make no entity -/

/-- A construct makes no entity and passes spare tokens only. -/
def Outcome.Spares (us : List Token) : Outcome → Prop
  | .read item rest => item.draft? = none ∧ ∀ t, Passed us rest t → Spare us t
  | .failed _ _ _ => True

namespace Construct

open Outcome

/-- What opens a linkage block is spare. -/
theorem Namespace.spares_linkage {first : Token} {rest members : List Token}
    (hk : first.kind = .keyword .externKw) (h : Namespace.afterLinkage? rest = some members) :
    (Outcome.read .linkage members).Spares (first :: rest) := by
  obtain ⟨behind, hstring, hbrace⟩ := Option.bind_eq_some_iff.mp h
  obtain ⟨string, hs, hstring⟩ := Tokens.eat?_eq_some_iff.mp hstring
  obtain ⟨brace, hb, hbrace⟩ := Tokens.eat?_eq_some_iff.mp hbrace
  obtain ⟨gap, hgap, hrest⟩ := Tokens.exists_trivia rest
  obtain ⟨gap', hgap', hbehind⟩ := Tokens.exists_trivia behind
  have hdrop : ∀ {gap : List Token}, (∀ t ∈ gap, t.kind.isTrivia = true) →
      gap.filter (!·.kind.isTrivia) = [] :=
    fun hgap => List.filter_eq_nil_iff.mpr fun t ht => by simp [hgap t ht]
  refine ⟨rfl, fun t ht => ?_⟩
  obtain ⟨opening, hopening, ht⟩ := ht
  have hsplit : opening = first :: (gap ++ string :: (gap' ++ [brace])) := by
    refine (List.append_left_inj members).mp ?_
    rw [← hopening, hrest, hstring, hbehind, hbrace]
    simp
  have hfront : first :: rest = [] ++ (opening ++ members) := hopening
  refine .linkage hfront ?_ ht
  have hkept : ∀ {t : Token} {k : Kind}, t.kind = k → k.isTrivia = false →
      [t].filter (!·.kind.isTrivia) = [t] :=
    fun ht hk => List.filter_cons_of_pos (by rw [ht, hk]; rfl)
  rw [hsplit, ← List.singleton_append, List.append_cons gap]
  simp only [List.filter_append, hdrop hgap, hdrop hgap', hkept hk rfl, hkept hs rfl, hkept hb rfl]
  simp [hk, hs, hb]

namespace Comment

/-- On the way to the next line of documentation there is nothing but trivia. -/
theorem nextLine?_spares {mark : Text} {ts after : List Token} {t x : Token}
    (h : nextLine? mark ts = some (t, after)) (hx : Passed ts after x) :
    x.kind.isTrivia = true ∨ x.kind = .docComment := by
  have hk : t.kind = .docComment := nextLine?_kind h
  obtain ⟨line, hl, hs⟩ := nextLine?_eq_some h
  obtain ⟨newline, hn, hl⟩ := Tokens.eat?_eq_some_iff.mp hl
  obtain ⟨gap, hgap, hts⟩ := Tokens.exists_space ts
  obtain ⟨gap', hgap', hline⟩ := Tokens.exists_space line
  obtain ⟨taken, htaken, hx⟩ := hx
  obtain rfl : taken = gap ++ newline :: (gap' ++ [t]) := by
    refine (List.append_left_inj after).mp ?_
    rw [← htaken, hts, hl, hline, hs]
    simp
  simp only [List.mem_append, List.mem_cons, List.not_mem_nil, or_false] at hx
  rcases hx with hx | rfl | hx | rfl
  · exact .inl (by rw [hgap x hx]; rfl)
  · exact .inl (by rw [hn]; rfl)
  · exact .inl (by rw [hgap' x hx]; rfl)
  · exact .inr hk

theorem mergeLines_spares {mark raw : Text} {last : Token} {ts : List Token} {x : Token}
    (hx : Passed ts (mergeLines mark raw last ts).2.2 x) :
    x.kind.isTrivia = true ∨ x.kind = .docComment := by
  fun_induction mergeLines mark raw last ts with
  | case1 _ _ _ t after h ih =>
    have hs := (List.suffix_cons t after).trans (nextLine?_suffix h)
    rcases hx.split hs (mergeLines_suffix ..) with hx | hx
    · exact nextLine?_spares h hx
    · exact ih hx
  | case2 => exact absurd hx Passed.not_self

/-- Documentation is spare, and any other comment is an entity. -/
theorem read_accounts (merge : Bool) (t : Token) (rest : List Token) :
    (read merge t rest).Fills (t :: rest) t ∨ (read merge t rest).Spares (t :: rest) := by
  unfold read
  split
  · next hk =>
    have hk : t.kind = .docComment := eq_of_beq hk
    right
    split
    · refine ⟨rfl, fun x hx => ?_⟩
      rcases hx.split (List.suffix_cons t rest) (mergeLines_suffix ..) with hx | hx
      · exact .documentation (hx.eq_head ▸ hk)
      · rcases mergeLines_spares hx with h | h
        · exact .trivia h
        · exact .documentation h
    · exact ⟨rfl, fun x hx => .documentation (hx.eq_head ▸ hk)⟩
  · exact .inl (fills_entity (.of_cons List.suffix_rfl) rfl)

end Comment

theorem readClose_spares {brace : Token} (rest : List Token) (hk : brace.kind = .punct .rBrace) :
    (readClose brace rest).Spares (brace :: rest) := by
  refine ⟨rfl, fun x hx => ?_⟩
  cases he : Tokens.eat? (.punct .semicolon) rest with
  | none =>
    rw [he] at hx
    exact .brace (hx.eq_head ▸ hk)
  | some behind =>
    obtain ⟨s, hs, rfl⟩ := Tokens.eat?_eq_some_iff.mp he
    rw [he] at hx
    rcases hx.split (List.suffix_cons brace _) (List.suffix_cons s behind) with hx | hx
    · exact .brace (hx.eq_head ▸ hk)
    · exact .semicolon (hx.eq_head ▸ hs)

/-- **What a construct accounts for.**  A construct, unless it is a directive, makes an
entity that reaches up to the last token which is not spare, or it passes spare tokens
only. -/
theorem read_accounts (ds : Definitions) (merge : Bool) {t : Token} (rest : List Token)
    (hh : t.kind ≠ .punct .hash) :
    (read ds merge t rest).Fills (t :: rest) t ∨ (read ds merge t rest).Spares (t :: rest) := by
  rcases fills_or_of_read ds merge rest hh with
    hfills | ⟨-, hread⟩ | ⟨hk, hread⟩ | ⟨hk, hread⟩ | ⟨hk, members, hm, hread⟩
  · exact .inl hfills
  · exact hread ▸ Comment.read_accounts merge t rest
  · exact .inr (hread ▸ readClose_spares rest hk)
  · exact .inr (hread ▸ ⟨rfl, fun x hx => .semicolon (hx.eq_head ▸ hk)⟩)
  · exact .inr (hread ▸ Namespace.spares_linkage hk hm)

end Construct

/-! ## The whole reading -/

/-- A token lies in a stretch. -/
def Span.Holds (s : Span) (t : Token) : Prop :=
  s.start.offset ≤ t.start.offset ∧ t.stop.offset ≤ s.stop.offset

/-- Of tokens that follow each other, those up to one of them lie between the first and
that one. -/
theorem Span.Ordered.holds_between {t last x : Token} {ts kept rest : List Token}
    (h : Ordered ((t :: ts).map Token.span)) (hts : t :: ts = kept ++ last :: rest)
    (hx : x ∈ kept ∨ x = last) : (Span.between t last).Holds x := by
  have hstart : ∀ y ∈ t :: ts, t.start.offset ≤ y.start.offset := by
    intro y hy
    have hap := List.pairwise_cons.mp h.apart
    have hpos : t.start.offset < t.stop.offset := h.nonempty t.span (by simp)
    rcases List.mem_cons.mp hy with rfl | hy
    · exact Nat.le_refl _
    · have hle : t.stop.offset ≤ y.start.offset := hap.1 y.span (List.mem_map_of_mem hy)
      omega
  have hstop : x.stop.offset ≤ last.stop.offset := by
    rcases hx with hx | rfl
    · rw [hts, List.map_append] at h
      have hap := (List.pairwise_append.mp h.apart).2.2
      have hle : x.stop.offset ≤ last.start.offset :=
        hap x.span (List.mem_map_of_mem hx) last.span (by simp)
      have hpos : last.start.offset < last.stop.offset := h.nonempty last.span (by simp)
      omega
    · exact Nat.le_refl _
  refine ⟨hstart x ?_, hstop⟩
  rw [hts]
  rcases hx with hx | rfl
  · exact List.mem_append_left _ hx
  · exact List.mem_append_right _ List.mem_cons_self

/-- The stretches of the entities below the root, without their comments. -/
def Outline.ranges (o : Outline) : List Span := o.entities.toList.tail.map Entity.sourceRange

theorem Outline.exists_of_mem_ranges {o : Outline} {s : Span} (h : s ∈ o.ranges) :
    ∃ i e, 0 < i ∧ o.get? i = some e ∧ e.sourceRange = s := by
  obtain ⟨e, he, hs⟩ := List.mem_map.mp h
  obtain ⟨k, hk⟩ := List.mem_iff_getElem?.mp he
  rw [List.getElem?_tail, Array.getElem?_toList] at hk
  exact ⟨k + 1, e, Nat.succ_pos k, hk, hs⟩

/-- The end of the input, and nothing else, comes behind the tokens that are read. -/
theorem Token.scan_eq_dropLast_append [Alphabet] (l : Limits) (source : Text) :
    ∃ p, scan l source = (scan l source).dropLast ++ [.eof p] := by
  obtain ⟨body, halted, stop, heq, -, -⟩ := scan_shape l source
  exact ⟨stop, by rw [heq, List.dropLast_concat]⟩

namespace Building

variable {b : Building} {all ts : List Token}

/-- An item adds the range of its entity, if it makes one. -/
theorem ranges_add (h : b.outline.Rooted) (size : Nat) (item : Item) :
    (b.add size item).outline.ranges
      = b.outline.ranges ++ (item.draft?.map Draft.sourceRange).toList := by
  have hemit : ∀ (b' : Building) (d : Draft), b'.outline.entities = b.outline.entities →
      (b'.emit d).outline.ranges = b.outline.ranges ++ [d.sourceRange] := by
    intro b' d he
    have hadd := Outline.map_tail_attach (o := b'.outline) (g := Entity.sourceRange)
      (fun _ _ _ _ => rfl) (he ▸ h.size_pos) b'.scopes.current.entity
      (d.toEntity b'.enclosing b'.scopes.current.access b'.pending)
    rw [he] at hadd
    exact hadd
  cases item with
  | entity d => exact hemit b d rfl
  | scope d access => exact hemit b d rfl
  | access level d => exact hemit (b.withScopes (b.scopes.setAccess level)) d rfl
  | definition definition d =>
    exact hemit { b with definitions := b.definitions.define definition } d rfl
  | suspect warning d => exact hemit (b.report (warning.diagnostic size)) d rfl
  | close brace =>
    simp only [add]
    split <;> simp [Item.draft?, withScopes, report, Outline.report, Outline.ranges]
  | linkage | documentation | nothing => simp [Item.draft?, add, withScopes]

/-- Every token that has been passed is spare or lies in the range of an entity. -/
structure Accounts (all : List Token) (b : Building) (ts : List Token) : Prop where
  suffix : ts <:+ all
  rooted : b.outline.Rooted
  settled : ∀ t, Passed all ts t → Spare all t ∨ ∃ s ∈ b.outline.ranges, s.Holds t

/-- A construct that could be read keeps account of the tokens that it takes. -/
theorem Accounts.add {t : Token} {behind rest : List Token} {item : Item} (h : Accounts all b ts)
    (hord : Span.Ordered (all.map Token.span)) (front : Tokens.skipTrivia ts = t :: behind)
    (hs : rest <:+ t :: behind) (hr : (Outcome.read item rest).Fills (t :: behind) t ∨
      (Outcome.read item rest).Spares (t :: behind)) (size : Nat) :
    Accounts all (b.add size item) rest := by
  have hfront : t :: behind <:+ ts := front ▸ Tokens.skipTrivia_suffix ts
  have hus := hfront.trans h.suffix
  refine ⟨hs.trans hus, rooted_add h.rooted size item, fun x hx => ?_⟩
  rw [ranges_add h.rooted]
  rcases hx.split h.suffix (hs.trans hfront) with hx | hx
  · refine (h.settled x hx).imp_right ?_
    rintro ⟨s, hm, hh⟩
    exact ⟨s, List.mem_append_left _ hm, hh⟩
  rcases hx.split hfront hs with hx | hx
  · obtain ⟨gap, hgap, hts⟩ := Tokens.exists_trivia ts
    rw [front] at hts
    obtain ⟨taken, htaken, hx⟩ := hx
    obtain rfl : gap = taken := List.append_cancel_right (hts.symm.trans htaken)
    exact .inl (.trivia (hgap x hx))
  · rcases hr with ⟨d, hd, last, ⟨kept, loose, hsplit, hloose⟩, hrange⟩ | ⟨_, hspare⟩
    · obtain ⟨taken, htaken, hx⟩ := hx
      obtain rfl : taken = kept ++ last :: loose := by
        refine (List.append_left_inj rest).mp ?_
        rw [← htaken, hsplit]
        simp
      have hheld : x ∈ kept ∨ x = last → Spare all x ∨ ∃ s ∈ b.outline.ranges ++
          (item.draft?.map Draft.sourceRange).toList, s.Holds x := by
        intro hx
        have hordered : Span.Ordered ((t :: behind).map Token.span) :=
          hord.sublist (hus.sublist.map Token.span)
        refine .inr ⟨d.sourceRange, ?_, hrange ▸ hordered.holds_between hsplit hx⟩
        rw [Option.mem_def.mp hd]
        exact List.mem_append_right _ (List.mem_singleton_self _)
      rcases List.mem_append.mp hx with hx | hx
      · exact hheld (.inl hx)
      · rcases List.mem_cons.mp hx with rfl | hx
        · exact hheld (.inr rfl)
        · exact .inl ((hloose x hx).within hus)
    · exact .inl ((hspare x hx).within hus)

/-- A reading that meets no fault keeps account of all tokens. -/
theorem Accounts.run {policy : Recovery.Policy} {merge : Bool} {size : Nat} {done : Building}
    (h : Accounts all b ts) (hord : Span.Ordered (all.map Token.span))
    (hh : ∀ t ∈ all, t.kind ≠ .punct .hash) (hr : run policy merge size b ts = .ok done)
    (hd : done.outline.diagnostics = #[]) : Accounts all done [] := by
  induction b, ts using run_induction merge with
  | nil b ts hnil =>
    obtain rfl := Except.ok.inj ((run_of_nil hnil).symm.trans hr)
    refine ⟨List.nil_suffix, h.rooted, fun x hx => ?_⟩
    rcases hx.split h.suffix List.nil_suffix with hx | hx
    · exact h.settled x hx
    · obtain ⟨gap, hgap, hts⟩ := Tokens.exists_trivia ts
      rw [hnil, List.append_nil] at hts
      exact .inl (.trivia (hgap x (hts ▸ hx.mem)))
  | cons b ts t behind front ih =>
    obtain ⟨item, rest, ho, hmore⟩ := exists_read_of_run front hr hd
    have hs := (Construct.read_rest_suffix b.definitions merge t behind).trans
      (List.suffix_cons t behind)
    have hkind : t.kind ≠ .punct .hash := by
      refine hh t ((front ▸ Tokens.skipTrivia_suffix ts).trans h.suffix |>.mem ?_)
      exact List.mem_cons_self
    have haccounts := Construct.read_accounts b.definitions merge behind hkind
    rw [ho] at hs haccounts ih
    exact ih _ (h.add hord front hs haccounts size) hmore

end Building

/-- **A clean reading loses nothing.**  In a header without directives that is read without
a diagnostic, every token, unless it is spare, lies in the range of an entity below the
root, and no token lies in the ranges of two. -/
theorem parse_accounts_for_tokens [Alphabet] {options : Options} {file : String} {source : Text}
    {o : Outline} (h : parse options file source = .ok o) (hd : o.diagnostics = #[])
    (hh : ∀ t ∈ Token.scan options.limits source, t.kind ≠ .punct .hash) {t : Token}
    (ht : t ∈ Token.scan options.limits source) (hend : t.kind ≠ .eof) :
    (Spare (Token.scan options.limits source) t ∨
      ∃ i e, 0 < i ∧ o.get? i = some e ∧ e.sourceRange.Holds t) ∧
    ∀ i j e e', 0 < i → 0 < j → o.get? i = some e → o.get? j = some e' →
      e.sourceRange.Holds t → e'.sourceRange.Holds t → i = j := by
  have ho := parse_inOrder h
  obtain ⟨hany, b, hr, rfl⟩ := parse_eq_ok_iff.mp h
  have hord := Token.ordered_scan hany
  obtain ⟨p, hscan⟩ := Token.scan_eq_dropLast_append options.limits source
  have hall : t ∈ (Token.scan options.limits source).dropLast := by
    rw [hscan] at ht
    rcases List.mem_append.mp ht with ht | ht
    · exact ht
    · exact absurd (List.mem_singleton.mp ht ▸ rfl) hend
  constructor
  · have hstart : Building.Accounts (Token.scan options.limits source).dropLast
        (.start file source options.definitions) (Token.scan options.limits source).dropLast :=
      ⟨List.suffix_rfl, rfl, fun _ hx => absurd hx Passed.not_self⟩
    have hdone := hstart.run hord (fun u hu => hh u (List.dropLast_subset _ hu)) hr
      (b.diagnostics_finish ▸ hd)
    rcases hdone.settled t ⟨_, (List.append_nil _).symm, hall⟩ with hspare | ⟨s, hs, hholds⟩
    · exact .inl (hscan ▸ hspare.append (by simp [Token.eof]))
    · have hmem : s ∈ b.finish.ranges := by
        unfold Building.finish
        split
        · rw [Outline.ranges, Outline.map_tail_attach (fun _ _ _ _ => rfl) hdone.rooted.size_pos]
          exact List.mem_append_left _ hs
        · exact hs
      obtain ⟨i, e, hi, he, rfl⟩ := Outline.exists_of_mem_ranges hmem
      exact .inr ⟨i, e, hi, he, hholds⟩
  · -- a token is not empty, so that it cannot lie before and behind where a range ends
    have hpos : t.start.offset < t.stop.offset := hord.nonempty t.span (List.mem_map_of_mem hall)
    have hlt : ∀ i j e e', 0 < i → i < j → b.finish.get? i = some e → b.finish.get? j = some e' →
        e.sourceRange.Holds t → e'.sourceRange.Holds t → False := by
      intro i j e e' hi hij he he' hholds hholds'
      have hap := ho.range_apart hi hij he he'
      have hstop := hholds.2
      have hstart := hholds'.1
      omega
    intro i j e e' hi hj he he' hholds hholds'
    rcases Nat.lt_trichotomy i j with hij | rfl | hji
    · exact (hlt i j e e' hi hij he he' hholds hholds').elim
    · rfl
    · exact (hlt j i e' e hj hji he' he hholds' hholds).elim

/-- A header whose first name breaks off; the name of the variable behind it is held. -/
theorem parse_accounts_for_tokens_dangling :
    ∃ o t i e, parse .standard "a.h" "namespace a::; int b;".toList = .ok o ∧
      o.diagnostics = #[] ∧ t ∈ Token.scan .standard "namespace a::; int b;".toList ∧
      t.text = "b".toList ∧ 0 < i ∧ o.get? i = some e ∧ e.sourceRange.Holds t := by
  have hread : (match parse .standard "a.h" "namespace a::; int b;".toList with
      | .ok o => o.diagnostics == #[]
      | .error _ => false) = true := by decide +kernel
  have hhash : ∀ t ∈ Token.scan .standard "namespace a::; int b;".toList,
      t.kind ≠ .punct .hash := by decide +kernel
  have hfind : ((Token.scan .standard "namespace a::; int b;".toList).find?
      fun t => t.kind == .ident && t.text == "b".toList).isSome = true := by decide +kernel
  obtain ⟨t, ht⟩ := Option.isSome_iff_exists.mp hfind
  have hmem := List.mem_of_find?_eq_some ht
  have hkind : t.kind = .ident ∧ t.text = "b".toList := by simpa using List.find?_some ht
  cases h : parse .standard "a.h" "namespace a::; int b;".toList with
  | error e =>
    rw [h] at hread
    cases hread
  | ok o =>
    rw [h] at hread
    have hd : o.diagnostics = #[] := eq_of_beq hread
    have hheld := (parse_accounts_for_tokens h hd hhash hmem (by simp [hkind.1])).1
    obtain ⟨i, e, hi, he, hholds⟩ := hheld.resolve_left fun hspare => by
      have hm := hspare.kind_mem
      rw [hkind.1] at hm
      exact absurd hm (by decide)
    exact ⟨o, t, i, e, rfl, hd, hmem, hkind.2, hi, he, hholds⟩

end HeaderOutline
