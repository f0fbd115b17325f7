import HeaderOutline.Proofs.Normal.Trimmed
import HeaderOutline.Proofs.Paths
import HeaderOutline.Proofs.Returns.Doc

/-! # Styles of documentation

The same lines can be written as a block, each with a star in front, or as lines that start with
`///` or with `//!`.  A line that holds no end of a block and does not start with a star itself is
cleaned to the same text in each of these styles (`DocComment.cleanLine_marked`,
`DocComment.cleanLine_starred`), so that the comment says the same in all of them
(`DocComment.read?_styles`).
-/
namespace HeaderOutline

namespace Text

variable {s t mark : Text} {c : Char} {ts : List Text}

/-! ## Trimmed texts -/

theorem trim_eq_trimEnd (t : Text) : t.trim = trimEnd (t.dropWhile isBlank) := rfl

theorem trim_cons_blank (t : Text) (h : isBlank c = true) : trim (c :: t) = t.trim := by
  rw [trim_eq_trimEnd, List.dropWhile_cons_of_pos h, trim_eq_trimEnd]

/-- What is trimmed at its end and then at both ends is trimmed at both ends. -/
theorem trim_trimEnd (t : Text) : t.trimEnd.trim = t.trim := by
  rw [trim_eq_trimEnd, trim_eq_trimEnd, trimEnd_eq_rdropWhile t, dropWhile_rdropWhile]
  exact trimEnd_trimEnd _

theorem trim_trim (t : Text) : t.trim.trim = t.trim := by
  rw [trim_eq_trimEnd t, trim_trimEnd, trim_eq_trimEnd, List.dropWhile_idempotent]

/-- A text that starts and ends with no blank is trimmed with what follows it. -/
theorem trim_append_of_solid (hc : isBlank c = false) (h : trimEnd (c :: mark) = c :: mark)
    (t : Text) : trim (c :: mark ++ t) = c :: mark ++ t.trimEnd := by
  rw [trim_eq_trimEnd, List.cons_append, List.dropWhile_cons_of_neg (by simp [hc]),
    ← List.cons_append, trimEnd_append h]

/-! ## Lines put together -/

/-- Lines that hold no line feed are what a text made of them is cut into. -/
theorem lines_joinWith (hne : ts ≠ []) (h : ∀ t ∈ ts, '\n' ∉ t) :
    lines (joinWith ['\n'] ts) = ts := by
  induction ts with
  | nil => exact absurd rfl hne
  | cons t ts ih =>
    have ht := h t List.mem_cons_self
    by_cases hts : ts = []
    · rw [hts, joinWith_singleton, lines_of_notMem ht]
    · rw [joinWith_cons _ _ hts, List.append_assoc, List.singleton_append, lines_append_newline,
        lines_of_notMem ht, ih hts fun u hu => h u (List.mem_cons_of_mem t hu)]
      rfl

/-- A line of documentation as it can be written in any style: it neither breaks off nor ends a
block, and what it says does not start with a star. -/
structure IsPlainLine (t : Text) : Prop where
  unbroken : '\n' ∉ t
  unclosed : ¬"*/".toList <:+: t
  unstarred : (t.dropWhile isBlank).head? ≠ some '*'

instance : DecidablePred IsPlainLine := fun t =>
  let _ : Decidable ("*/".toList <:+: t) := List.instDecidableIsInfixOfDecidableEq _ _
  decidable_of_iff ('\n' ∉ t ∧ ¬"*/".toList <:+: t ∧ (t.dropWhile isBlank).head? ≠ some '*')
    ⟨fun h => ⟨h.1, h.2.1, h.2.2⟩, fun h => ⟨h.unbroken, h.unclosed, h.unstarred⟩⟩

theorem dropTail_of_not_suffix {tail : Text} (h : ¬tail <:+ t) : t.dropTail tail = t := by
  rw [dropTail, before?, if_neg (by rwa [List.isSuffixOf_iff_suffix]), Option.getD_none]

theorem dropLead_of_not_prefix {lead : Text} (h : ¬lead <+: t) : t.dropLead lead = t := by
  rw [dropLead, after?, if_neg (by rwa [List.isPrefixOf_iff_prefix]), Option.getD_none]

namespace IsPlainLine

variable (h : t.IsPlainLine)
include h

/-- A line keeps its first character where a star would be removed. -/
theorem dropLead_star : t.trim.dropLead ['*'] = t.trim := by
  refine dropLead_of_not_prefix fun hstar => h.unstarred ?_
  have hp := trimEnd_prefix (t.dropWhile isBlank)
  obtain ⟨rest, hrest⟩ := hstar.trans hp
  rw [← hrest]
  rfl

/-- Behind a blank a line does not end a block. -/
theorem not_suffix_blank : ¬"*/".toList <:+ trimEnd (' ' :: t) := by
  intro hs
  have hp := trimEnd_prefix (' ' :: t)
  rcases List.infix_cons_iff.mp (hs.isInfix.trans hp.isInfix) with hp | hi
  · exact absurd (List.cons_prefix_cons.mp hp).1 (by decide)
  · exact h.unclosed hi

end IsPlainLine
end Text

namespace DocComment

open Text (IsPlainLine joinWith isBlank)

variable {t : Text} {ts : List Text}

/-! ## Cleaned lines -/

/-- What is left of a line behind a mark and a blank, or behind a star and a blank. -/
theorem trim_dropLead_blank (h : t.IsPlainLine) :
    ((Text.trimEnd (' ' :: t)).trim.dropLead ['*']).trim = t.trim := by
  rw [Text.trim_trimEnd, Text.trim_cons_blank t (by decide +kernel), h.dropLead_star,
    Text.trim_trim]

/-- **Behind a mark** a line is cleaned to its text. -/
theorem cleanLine_marked (h : t.IsPlainLine) {mark : Text}
    (hmark : mark ∈ ["///".toList, "//!".toList]) : cleanLine (mark ++ ' ' :: t) = t.trim := by
  have hblank : Text.trimEnd (' ' :: t) = [] ∨ ∃ u, Text.trimEnd (' ' :: t) = ' ' :: u := by
    have hp := Text.trimEnd_prefix (' ' :: t)
    cases hu : Text.trimEnd (' ' :: t) with
    | nil => exact .inl rfl
    | cons d u =>
      rw [hu] at hp
      rw [(List.cons_prefix_cons.mp hp).1]
      exact .inr ⟨u, rfl⟩
  have htrim : (mark ++ ' ' :: t).trim = mark ++ Text.trimEnd (' ' :: t) := by
    simp only [List.mem_cons, List.not_mem_nil, or_false] at hmark
    rcases hmark with rfl | rfl
    · exact Text.trim_append_of_solid (by decide +kernel) (by decide +kernel) _
    · exact Text.trim_append_of_solid (by decide +kernel) (by decide +kernel) _
  have hdrop : dropMark (mark ++ Text.trimEnd (' ' :: t)) = Text.trimEnd (' ' :: t) := by
    simp only [List.mem_cons, List.not_mem_nil, or_false] at hmark
    rcases hblank with hu | ⟨u, hu⟩
    · rw [hu]
      rcases hmark with rfl | rfl
      · rfl
      · rfl
    · rw [hu]
      rcases hmark with rfl | rfl
      · rfl
      · rfl
  rw [cleanLine, htrim, hdrop, Text.dropTail_of_not_suffix h.not_suffix_blank,
    trim_dropLead_blank h]

/-- **Behind a star** a line is cleaned to its text. -/
theorem cleanLine_starred (h : t.IsPlainLine) : cleanLine (" * ".toList ++ t) = t.trim := by
  have hend : Text.trimEnd ['*'] = ['*'] := by decide +kernel
  have hsolid : ∀ s : Text, Text.trim ('*' :: s) = '*' :: Text.trimEnd s :=
    Text.trim_append_of_solid (by decide +kernel) hend
  have hstar : Text.trim (" * ".toList ++ t) = '*' :: Text.trimEnd (' ' :: t) :=
    (Text.trim_cons_blank _ (by decide +kernel)).trans (hsolid _)
  have hopen : ¬"*/".toList <:+ '*' :: Text.trimEnd (' ' :: t) := by
    intro hs
    rcases List.suffix_cons_iff.mp hs with heq | hs
    · have hp := Text.trimEnd_prefix (' ' :: t)
      rw [← (List.cons.inj heq).2] at hp
      exact absurd (List.cons_prefix_cons.mp hp).1 (by decide)
    · exact h.not_suffix_blank hs
  have hdrop : dropMark ('*' :: Text.trimEnd (' ' :: t)) = '*' :: Text.trimEnd (' ' :: t) := rfl
  have hlead : Text.dropLead ('*' :: Text.trimEnd (' ' :: t)) ['*'] = Text.trimEnd (' ' :: t) := rfl
  rw [cleanLine, hstar, hdrop, Text.dropTail_of_not_suffix hopen, hsolid, Text.trimEnd_trimEnd,
    hlead, Text.trim_trimEnd, Text.trim_cons_blank t (by decide +kernel)]

/-! ## Comments in different styles -/

/-- Lines behind a mark and a blank each. -/
def marked (mark : Text) (ts : List Text) : Text :=
  joinWith ['\n'] (ts.map fun t => mark ++ ' ' :: t)

/-- Lines in a block, behind a star each. -/
def block (ts : List Text) : Text :=
  joinWith ['\n'] ("/**".toList :: (ts.map (" * ".toList ++ ·) ++ [" */".toList]))

/-- The lines of which a text is put together are cleaned one by one. -/
theorem contentLines_joinWith (h : ∀ t ∈ ts, '\n' ∉ t) :
    contentLines (joinWith ['\n'] ts) = (ts.map cleanLine).filter (!·.isEmpty) := by
  by_cases hne : ts = []
  · rw [hne]
    decide +kernel
  · rw [contentLines, Text.lines_joinWith hne h]

/-- The lines that a comment holds, cleaned. -/
def spokenLines (ts : List Text) : List Text := (ts.map Text.trim).filter (!·.isEmpty)

theorem contentLines_marked (h : ∀ t ∈ ts, t.IsPlainLine) {mark : Text}
    (hmark : mark ∈ ["///".toList, "//!".toList]) :
    contentLines (marked mark ts) = spokenLines ts := by
  have hclean : ts.map (cleanLine ∘ fun t => mark ++ ' ' :: t) = ts.map Text.trim := by
    refine List.map_congr_left fun t ht => ?_
    rw [Function.comp_apply, cleanLine_marked (h t ht) hmark]
  rw [marked, contentLines_joinWith, List.map_map, hclean, spokenLines]
  intro line hline
  obtain ⟨t, ht, rfl⟩ := List.mem_map.mp hline
  have hbreak := (h t ht).unbroken
  simp only [List.mem_cons, List.not_mem_nil, or_false] at hmark
  rcases hmark with rfl | rfl
  · simpa using hbreak
  · simpa using hbreak

theorem contentLines_block (h : ∀ t ∈ ts, t.IsPlainLine) :
    contentLines (block ts) = spokenLines ts := by
  have hopen : cleanLine "/**".toList = [] := by decide +kernel
  have hclose : cleanLine " */".toList = [] := by decide +kernel
  have hclean : ts.map (cleanLine ∘ (" * ".toList ++ ·)) = ts.map Text.trim := by
    refine List.map_congr_left fun t ht => ?_
    rw [Function.comp_apply, cleanLine_starred (h t ht)]
  rw [block, contentLines_joinWith]
  · simp only [List.map_cons, List.map_append, List.map_map, List.map_nil, hopen, hclose, hclean]
    simp [spokenLines]
  · intro line hline
    simp only [List.mem_cons, List.mem_append, List.mem_map, List.not_mem_nil, or_false] at hline
    rcases hline with rfl | ⟨t, ht, rfl⟩ | rfl
    · decide
    · simpa using (h t ht).unbroken
    · decide

/-- **The style of a comment does not matter**: the same lines say the same as a block, behind
`///` and behind `//!`. -/
theorem read?_styles (h : ∀ t ∈ ts, t.IsPlainLine) :
    read? (marked "///".toList ts)
        = (read? (block ts)).map (withRaw (marked "///".toList ts)) ∧
      read? (marked "//!".toList ts)
        = (read? (block ts)).map (withRaw (marked "//!".toList ts)) := by
  refine ⟨read?_of_contentLines ?_, read?_of_contentLines ?_⟩
  · rw [contentLines_marked h (by decide), contentLines_block h]
  · rw [contentLines_marked h (by decide), contentLines_block h]

/-- A line that starts with a slash, one of blanks alone, and one that starts a tag. -/
theorem read?_styles_slashes :
    let ts : List Text := ["/< a ".toList, "  ".toList, "\t@brief b".toList]
    (∀ t ∈ ts, t.IsPlainLine) ∧ (read? (block ts)).bind (·.brief) = some "b".toList ∧
      read? (marked "///".toList ts)
        = (read? (block ts)).map (withRaw (marked "///".toList ts)) := by
  intro ts
  have h : ∀ t ∈ ts, t.IsPlainLine := by decide +kernel
  exact ⟨h, by decide +kernel, (read?_styles h).1⟩

end DocComment
end HeaderOutline
