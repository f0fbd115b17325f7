import HeaderOutline.Proofs.Declared
import HeaderOutline.Proofs.Made
import HeaderOutline.Proofs.Pieces
import HeaderOutline.Proofs.Stretch
import HeaderOutline.Text.Unicode

/-! # Headers and bodies

An entity is its header, or its header and a body behind it, which only the routine for functions
makes.  It finds the end of the header, the start of the body and the end of the body in three
ways, but all on the same tokens, which it only cuts into pieces (`Draft.IsCut`).  So the ranges of
an entity nest, and its body is what stands in the source (`parse_ranges_nested`).
-/
namespace HeaderOutline

/-! ## Drafts -/

/-- An entity with a body is cut from some tokens: its header from the front, behind the header
and perhaps a gap the block that is its body, and what comes behind that is not its own. -/
structure Draft.IsCut (d : Draft) (us head gap block after : List Token) : Prop where
  pieces : us = head ++ (gap ++ (block ++ after))
  isBlock : Tokens.IsBlock block
  ranges : ∃ first last brace stop, head.getLast? = some last ∧ block.head? = some brace ∧
    block.getLast? = some stop ∧ d.sourceRange = .between first stop ∧
    d.headerRange = .between first last ∧ d.body = some ⟨.between brace stop, Token.textOf block⟩

/-- An entity is nothing but its header, or it is cut into header and body. -/
def Draft.Laid (d : Draft) (us : List Token) : Prop :=
  (d.headerRange = d.sourceRange ∧ d.body = none) ∨
    ∃ head gap block after, d.IsCut us head gap block after

namespace Construct

variable {ds : Definitions} {us ts rest : List Token} {lead : Lead} {item : Item} {d : Draft}

/-- The routine for functions cuts its entity from the tokens of the construct. -/
theorem Function.draft_laid (hs : ts <:+ us) (h : read ds lead ts = .read item rest)
    (hd : item.draft? = some d) : d.Laid us := by
  obtain ⟨p, name, head, last, stop, body, rfl, hlast, hcut⟩ := exists_of_read h
  obtain rfl := Option.some.inj hd
  have hheader : (draft ds lead p name head stop body).headerRange = .between lead.first last := by
    rw [draft, List.getLastD_eq_getLast?, hlast, Option.getD_some]
  rcases hcut with ⟨-, rfl, rfl⟩ | ⟨gap, block, brace, hts, hblock, hbrace, hstop, rfl⟩
  · exact .inl ⟨hheader, rfl⟩
  · obtain ⟨front, hfront⟩ := hs
    refine .inr ⟨front ++ head, gap, block, rest, ?_, hblock,
      ⟨lead.first, last, brace, stop, ?_, hbrace, hstop, rfl, hheader, rfl⟩⟩
    · rw [← hfront, hts, List.append_assoc]
    · rw [List.getLast?_append, hlast, Option.some_or]

/-- **How an entity is laid out**: as a header, or as a header and a block behind it, which are
cut from the tokens of its construct. -/
theorem read_laid {merge : Bool} {t : Token} {behind : List Token}
    (h : read ds merge t behind = .read item rest) (hd : item.draft? = some d) :
    d.Laid (t :: behind) := by
  cases read_source ds merge t behind with
  | plain hplain =>
    have hd := hplain.2 item rest h d hd
    exact .inl ⟨hd.header, hd.body⟩
  | definition hash _ _ _ hdef =>
    obtain ⟨name, after, -, ho⟩ := hdef
    obtain ⟨rfl, -⟩ := Outcome.read.inj (h.symm.trans ho)
    obtain rfl := Option.some.inj hd
    exact .inl ⟨rfl, rfl⟩
  | typedefDecl keyword _ _ ho =>
    obtain ⟨_, _, _, -, -, rfl⟩ := Typedef.exists_of_read (ho.symm.trans h)
    obtain rfl := Option.some.inj hd
    exact .inl ⟨rfl, rfl⟩
  | usingDecl lead keyword _ _ _ ho =>
    obtain ⟨_, _, _, -, -, rfl⟩ := Using.exists_of_read (ho.symm.trans h)
    obtain rfl := Option.some.inj hd
    exact .inl ⟨rfl, rfl⟩
  | function lead ts hl ho => exact Function.draft_laid hl.suffix (ho.symm.trans h) hd
  | variableDecl lead ts _ ho =>
    obtain ⟨_, _, _, _, -, -, rfl⟩ := Variable.exists_of_read (ho.symm.trans h)
    obtain rfl := Option.some.inj hd
    exact .inl ⟨rfl, rfl⟩

end Construct

/-! ## The ranges of an outline -/

/-- The ranges of an entity that is cut from tokens of a source. -/
theorem Draft.IsCut.ranges_nested [Alphabet] {d : Draft} {l : Limits} {source : Text}
    {us head gap block after : List Token} (h : d.IsCut us head gap block after)
    (hany : (Token.scan l source).any Token.isError = false)
    (hus : us <:+ (Token.scan l source).dropLast) :
    d.headerRange.start = d.sourceRange.start ∧
      ∃ b, d.body = some b ∧ b.text ≠ [] ∧ b.range.stop = d.sourceRange.stop ∧
        d.headerRange.stop.offset ≤ b.range.start.offset ∧
        b.range.start.offset < b.range.stop.offset ∧ b.range.slice source = b.text ∧
        b.range.tokens (Token.scan l source).dropLast = block := by
  obtain ⟨first, last, brace, stop, hlast, hbrace, hstop, hsource, hheader, hbody⟩ := h.ranges
  obtain ⟨front, hfront⟩ := hus
  have hts : (Token.scan l source).dropLast = (front ++ head ++ gap) ++ (block ++ after) := by
    rw [← hfront, h.pieces]
    simp
  have hord := Token.ordered_scan hany
  rw [hts] at hord
  have hslice := Token.slice_stretch hany hts hbrace hstop
  have htokens := hord.tokens_between hbrace hstop
  obtain ⟨others, hothers⟩ := List.head?_eq_some_iff.mp hbrace
  -- the stretch of the body is not empty, since it holds its brace
  have hmem : brace ∈
      (Span.between brace stop).tokens (front ++ head ++ gap ++ (block ++ after)) := by
    rw [htokens, hothers]
    exact List.mem_cons_self
  have hpos : brace.start.offset < stop.stop.offset :=
    (Token.startsIn_eq_true_iff.mp (List.mem_filter.mp hmem).2).2
  rw [hheader, hsource]
  refine ⟨rfl, _, hbody, ?_, rfl, ?_, hpos, hslice, hts ▸ htokens⟩
  · have hbraceText : brace.text ≠ [] := by
      intro hnil
      have hlt : brace.start.offset < brace.stop.offset :=
        hord.nonempty brace.span (by simp [hothers])
      rw [Token.stop_offset, hnil] at hlt
      exact Nat.lt_irrefl _ hlt
    simp [hothers, hbraceText]
  · obtain ⟨more, hmore⟩ := List.getLast?_eq_some_iff.mp hlast
    rw [hmore] at hord
    have happ : (front ++ (more ++ [last]) ++ gap) ++ (block ++ after)
        = (front ++ more) ++ last :: (gap ++ (block ++ after)) := by simp
    rw [happ] at hord
    exact hord.stop_le (by simp [hothers])

/-- **Ranges nest and bodies are verbatim.**  The range of an entity below the root is not empty
and lies in the source.  Its header starts where the entity does, ends no later, and ends there
exactly unless there is a body.  There is a body exactly if there is text of one; the body ends
where the entity does and starts where the header ends or later, the source holds its text there,
and its tokens are a block. -/
theorem parse_ranges_nested [Alphabet] {options : Options} {file : String} {source : Text}
    {o : Outline} {i : EntityId} {e : Entity} (h : parse options file source = .ok o) (hi : 0 < i)
    (he : o.get? i = some e) :
    e.sourceRange.start.offset < e.sourceRange.stop.offset ∧
      e.sourceRange.stop.offset ≤ source.size ∧
      e.headerRange.start = e.sourceRange.start ∧
      e.headerRange.stop.offset ≤ e.sourceRange.stop.offset ∧
      (e.body = none → e.headerRange.stop = e.sourceRange.stop) ∧
      (e.body.isSome = true ↔ e.bodyText ≠ []) ∧
      ∀ b, e.body = some b →
        b.range.stop = e.sourceRange.stop ∧
        e.headerRange.stop.offset ≤ b.range.start.offset ∧
        b.range.slice source = b.text ∧
        Tokens.IsBlock (b.range.tokens (Token.scan options.limits source).dropLast) := by
  obtain ⟨hany, -⟩ := parse_eq_ok_iff.mp h
  have hpos := ((parse_ranges_ordered h).1 i e hi he).1
  have hsize : e.sourceRange.stop.offset ≤ source.size := by
    obtain ⟨t, -, last, hlast, hrange⟩ := exists_tokens_of_parse h hi he
    rw [hrange]
    exact Token.stop_le_size hany hlast
  refine ⟨hpos, hsize, ?_⟩
  -- documentation at the end of the header is laid out like any entity without a body
  have hlaid : (e.headerRange = e.sourceRange ∧ e.body = none) ∨
      ∃ (d : Draft) (us head gap block after : List Token), d.Becomes e ∧
        d.IsCut us head gap block after ∧
        us <:+ (Token.scan options.limits source).dropLast := by
    rcases exists_made_of_parse h hi he with
      ⟨-, c, full, htrailing⟩ | ⟨b, us, t, behind, item, rest, d, hreach, -, -, hmakes⟩
    · obtain rfl := Option.some.inj (he.symm.trans htrailing)
      exact .inl ⟨rfl, rfl⟩
    · have hbecomes := hmakes.becomes
      rcases Construct.read_laid hmakes.read hmakes.draft with
        ⟨hr, hb⟩ | ⟨head, gap, block, after, hcut⟩
      · exact .inl ⟨by rw [hbecomes.headerRange, hr, hbecomes.sourceRange],
          hbecomes.body.trans hb⟩
      · exact .inr ⟨d, _, head, gap, block, after, hbecomes, hcut,
          hmakes.suffix hreach.suffix⟩
  rcases hlaid with ⟨hr, hb⟩ | ⟨d, us, head, gap, block, after, hbecomes, hcut, hus⟩
  · exact ⟨congrArg Span.start hr, hr ▸ Nat.le_refl _, fun _ => congrArg Span.stop hr,
      by simp [Entity.bodyText, hb], fun b h => by cases hb.symm.trans h⟩
  · obtain ⟨hstart, body, hbody, htext, hstop, hle, hlt, hslice, htokens⟩ :=
      hcut.ranges_nested hany hus
    rw [← hbecomes.headerRange, ← hbecomes.sourceRange] at hstart
    rw [← hbecomes.headerRange] at hle
    rw [← hbecomes.sourceRange] at hstop
    rw [← hbecomes.body] at hbody
    refine ⟨hstart, ?_, fun hnone => ?_, ?_, fun b' hb' => ?_⟩
    · rw [← hstop]
      omega
    · cases hnone.symm.trans hbody
    · simp [Entity.bodyText, hbody, htext]
    · obtain rfl := Option.some.inj (hbody.symm.trans hb')
      exact ⟨hstop, hle, hslice, htokens ▸ hcut.isBlock⟩

/-- A function with a body behind a comment. -/
theorem parse_ranges_nested_function :
    let source : Text := "int f() /* g */ \x7b int x; \x7b\x7d \x7d".toList
    ∃ o e b, parse .standard "a.h" source = .ok o ∧ o.get? 1 = some e ∧ e.body = some b ∧
      b.range.slice source = b.text ∧ e.headerRange.stop.offset ≤ b.range.start.offset := by
  intro source
  have hread : (match parse .standard "a.h" source with
      | .ok o => ((o.get? 1).bind (·.body)).isSome
      | .error _ => false) = true := by
    unfold source
    decide +kernel
  cases h : parse .standard "a.h" source with
  | error e =>
    rw [h] at hread
    cases hread
  | ok o =>
    rw [h] at hread
    obtain ⟨b, hb⟩ := Option.isSome_iff_exists.mp hread
    obtain ⟨e, he, hb⟩ := Option.bind_eq_some_iff.mp hb
    obtain ⟨-, -, -, -, -, -, hbody⟩ := parse_ranges_nested h Nat.one_pos he
    obtain ⟨-, hle, hslice, -⟩ := hbody b hb
    exact ⟨o, e, b, rfl, he, hb, hslice, hle⟩

end HeaderOutline
