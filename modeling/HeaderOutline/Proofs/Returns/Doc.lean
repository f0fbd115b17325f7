import HeaderOutline.Proofs.Returns.Text

/-! # Comments with carriage returns

The lines of a comment may end in carriage returns (`Text.Commented`).  Documentation is read
line by line, without the blanks at their ends, so that it says the same
(`DocComment.read?_commented`), and the name of a comment is made of words
(`Construct.Comment.name_commented`).  A comment that runs to the end of its line must not end
in the mark that closes another kind of comment: with a carriage return behind it, the mark is
no longer at the end.
-/
namespace HeaderOutline

namespace Text

/-- The text of a comment in lines that end in line feeds, and its text if they end in carriage
returns too, one of which may stand behind a comment that runs to the end of its line. -/
inductive Commented (t : Text) : Text → Prop
  | block : Commented t t.withReturns
  | line (h : '\n' ∉ t) : Commented t (t ++ ['\r'])

variable {s s' t u mark : Text}

theorem Commented.returned (h : Commented t u) : Returned t u := by
  cases h with
  | block => exact .withReturns t
  | line =>
    have happ := (Returned.refl t).append (.insert .nil)
    rwa [List.append_nil] at happ

theorem withoutReturns_of_notMem (h : '\r' ∉ t) : t.withoutReturns = t :=
  List.filter_eq_self.mpr fun _ hc => bne_iff_ne.mpr fun he => h (he ▸ hc)

/-- A mark without line ends in front of a text stays there. -/
theorem Commented.isPrefixOf (h : Commented t u) (ht : '\r' ∉ t) (hm : '\r' ∉ mark)
    (hn : '\n' ∉ mark) : mark.isPrefixOf u = mark.isPrefixOf t := by
  rw [Bool.eq_iff_iff, List.isPrefixOf_iff_prefix, List.isPrefixOf_iff_prefix]
  constructor
  · intro hp
    have hfilter := hp.filter (· != '\r')
    rwa [show mark.filter _ = mark from withoutReturns_of_notMem hm,
      show u.filter _ = t from h.returned.withoutReturns_eq.trans (withoutReturns_of_notMem ht)]
      at hfilter
  · rintro ⟨rest, rfl⟩
    cases h with
    | block =>
      rw [withReturns_append, withReturns_of_notMem hn]
      exact List.prefix_append _ _
    | line =>
      rw [List.append_assoc]
      exact List.prefix_append _ _

/-! ## Lines -/

/-- Lines with carriage returns at some of their ends. -/
def LinesReturned (t u : Text) : Prop :=
  List.Forall₂ (fun l l' => l' = l ∨ l' = l ++ ['\r']) t.lines u.lines

theorem lines_cons (c : Char) (t : Text) :
    lines (c :: t) = if c == '\n' then [] :: lines t else (lines t).modifyHead (c :: ·) := by
  unfold lines
  rw [List.splitOnP_cons_eq_if_modifyHead]

theorem lines_append_newline (s t : Text) : lines (s ++ '\n' :: t) = lines s ++ lines t := by
  induction s with
  | nil => rw [List.nil_append, lines_cons]; rfl
  | cons c s ih =>
    rw [List.cons_append, lines_cons, lines_cons, ih]
    split
    · rfl
    · obtain ⟨l, ls, hl⟩ : ∃ l ls, lines s = l :: ls :=
        List.exists_cons_of_ne_nil (List.splitOnP_ne_nil _ _)
      rw [hl]
      rfl

theorem lines_of_notMem (h : '\n' ∉ t) : lines t = [t] := by
  induction t with
  | nil => rfl
  | cons c t ih =>
    obtain ⟨hc, ht⟩ := by simpa using h
    rw [lines_cons, if_neg (by simpa using Ne.symm hc), ih ht]
    rfl

theorem linesReturned_withReturns (t : Text) : LinesReturned t t.withReturns := by
  unfold LinesReturned
  induction t with
  | nil => exact .cons (.inl rfl) .nil
  | cons c t ih =>
    by_cases hc : c = '\n'
    · subst hc
      have hline : lines ('\n' :: t) = [] :: lines t := by rw [lines_cons]; rfl
      have hline' : ∀ u : Text, lines ('\r' :: '\n' :: u) = ['\r'] :: lines u := fun u => by
        rw [lines_cons, lines_cons]
        rfl
      rw [withReturns_newline, hline, hline']
      exact .cons (.inr rfl) ih
    · rw [withReturns_cons_of_ne hc, lines_cons, lines_cons, if_neg (by simpa using hc),
        if_neg (by simpa using hc)]
      generalize lines t = ls, lines (withReturns t) = ls' at ih ⊢
      cases ih with
      | nil => exact .nil
      | @cons l l' ls ls' hl hls =>
        refine .cons ?_ hls
        rcases hl with rfl | rfl
        · exact .inl rfl
        · exact .inr rfl

theorem Commented.lines (h : Commented t u) : LinesReturned t u := by
  cases h with
  | block => exact linesReturned_withReturns t
  | line hn =>
    unfold LinesReturned
    rw [lines_of_notMem hn, lines_of_notMem (by simpa using hn)]
    exact .cons (.inr rfl) .nil

theorem LinesReturned.append (h : LinesReturned s s') (h' : LinesReturned t u) :
    LinesReturned (s ++ '\n' :: t) (s' ++ '\n' :: u) := by
  unfold LinesReturned
  rw [lines_append_newline, lines_append_newline]
  exact List.rel_append h h'

theorem trim_append_blank (t : Text) {c : Char} (hc : isBlank c = true) :
    Text.trim (t ++ [c]) = Text.trim t := by
  unfold trim strip
  rw [List.dropWhile_append]
  split
  · next h =>
    rw [List.isEmpty_iff.mp h, List.dropWhile_cons, if_pos hc]
    rfl
  · rw [List.reverse_append, List.reverse_singleton, List.singleton_append, List.dropWhile_cons,
      if_pos hc]

end Text

open Text

/-! ## Documentation -/

namespace DocComment

/-- Lines of documentation do not show how they end. -/
theorem contentLines_returned {t u : Text} (h : LinesReturned t u) :
    contentLines u = contentLines t := by
  unfold LinesReturned at h
  unfold contentLines
  congr 1
  generalize lines t = ls, lines u = ls' at h ⊢
  induction h with
  | nil => rfl
  | @cons l l' ls ls' hl _ ih =>
    have hclean : cleanLine l' = cleanLine l := by
      rcases hl with rfl | rfl
      · rfl
      · rw [cleanLine, trim_append_blank l isBlank_return, cleanLine]
    rw [List.map_cons, List.map_cons, hclean, ih]

/-- The comment with another raw text. -/
def withRaw (raw : Text) (d : DocComment) : DocComment := { d with raw := raw }

theorem record_withRaw (raw : Text) (d : DocComment) (tag : Tag) (content : Text) :
    (d.withRaw raw).record tag content = (d.record tag content).withRaw raw := by
  cases tag with
  | param =>
    unfold record
    dsimp only
    split <;> rfl
  | _ => rfl

theorem describe_withRaw (raw : Text) (d : DocComment) (line : Text) :
    Draft.describe (d.withRaw raw) line = (Draft.describe d line).withRaw raw := by
  unfold Draft.describe
  rw [show (d.withRaw raw).brief = d.brief from rfl,
    show (d.withRaw raw).detailed = d.detailed from rfl]
  split
  · rfl
  · cases d.detailed <;> rfl

/-- A draft with another raw text. -/
def Draft.withRaw (raw : Text) (d : Draft) : Draft := { d with doc := d.doc.withRaw raw }

theorem Draft.close_withRaw (raw : Text) (d : Draft) :
    (d.withRaw raw).close = d.close.withRaw raw := by
  unfold close
  rw [show (d.withRaw raw).openTag = d.openTag from rfl]
  cases d.openTag with
  | none => rfl
  | some tag => exact record_withRaw raw d.doc _ _

theorem Draft.read_withRaw (raw : Text) (d : Draft) (line : Text) :
    (d.withRaw raw).read line = (d.read line).withRaw raw := by
  unfold Draft.read
  rw [show (d.withRaw raw).openTag = d.openTag from rfl, Draft.close_withRaw]
  cases Draft.tagged? line with
  | some tag => rfl
  | none =>
    cases d.openTag with
    | some open' => rfl
    | none =>
      show (⟨Draft.describe (d.doc.withRaw raw) line, none⟩ : Draft) = _
      rw [describe_withRaw]
      rfl

theorem Draft.foldl_withRaw (raw : Text) (ls : List Text) (d : Draft) :
    ls.foldl Draft.read (d.withRaw raw) = (ls.foldl Draft.read d).withRaw raw := by
  induction ls generalizing d with
  | nil => rfl
  | cons l ls ih => rw [List.foldl_cons, Draft.read_withRaw, ih, List.foldl_cons]

/-- What is read of some lines, whatever the raw text. -/
theorem Draft.close_foldl_unread (t u : Text) (ls : List Text) :
    (ls.foldl Draft.read ⟨unread u, none⟩).close
      = (ls.foldl Draft.read ⟨unread t, none⟩).close.withRaw u := by
  rw [show (⟨unread u, none⟩ : Draft) = Draft.withRaw u ⟨unread t, none⟩ from rfl, foldl_withRaw,
    Draft.close_withRaw]

/-- A comment with some lines that hold text is read from them. -/
theorem read?_of_lines {t : Text} {ls : List Text} (h : contentLines t = ls) (hne : ls ≠ []) :
    read? t = some (ls.foldl Draft.read ⟨unread t, none⟩).close := by
  unfold read?
  rw [h]
  split
  · exact absurd rfl hne
  · rfl

/-- **What documentation says depends on its lines alone**, once they are cleaned. -/
theorem read?_of_contentLines {t u : Text} (h : contentLines u = contentLines t) :
    read? u = (read? t).map (withRaw u) := by
  by_cases hnil : contentLines t = []
  · rw [read?, read?, h, hnil]
    rfl
  · rw [read?_of_lines h hnil, read?_of_lines rfl hnil, Draft.close_foldl_unread t]
    rfl

/-- **Documentation with carriage returns** says the same. -/
theorem read?_returned {t u : Text} (h : LinesReturned t u) :
    read? u = (read? t).map (withRaw u) :=
  read?_of_contentLines (contentLines_returned h)

end DocComment

/-! ## Names of comments -/

namespace Construct.Comment

theorem dropTail_append (t tail : Text) : (t ++ tail).dropTail tail = t := by
  unfold Text.dropTail before?
  rw [if_pos (List.isSuffixOf_iff_suffix.mpr (List.suffix_append t tail))]
  simp

theorem dropTail_of_not {t tail : Text} (h : ¬tail <:+ t) : t.dropTail tail = t := by
  unfold Text.dropTail before?
  rw [if_neg (fun hs => h (List.isSuffixOf_iff_suffix.mp hs)), Option.getD_none]

/-- A closing mark is removed from a text in lines that end in carriage returns as it is from
the text itself. -/
theorem dropTail_withReturns {t tail : Text} (ht : '\r' ∉ t) (hr : '\r' ∉ tail)
    (hn : '\n' ∉ tail) : t.withReturns.dropTail tail = (t.dropTail tail).withReturns := by
  by_cases h : tail <:+ t
  · obtain ⟨rest, rfl⟩ := h
    rw [withReturns_append, withReturns_of_notMem hn, dropTail_append, dropTail_append]
  · rw [dropTail_of_not h, dropTail_of_not]
    intro hs
    have hfilter := hs.filter (· != '\r')
    rw [show tail.filter _ = tail from withoutReturns_of_notMem hr,
      show t.withReturns.filter _ = t from
        (Returned.withReturns t).withoutReturns_eq.trans (withoutReturns_of_notMem ht)] at hfilter
    exact h hfilter

theorem after?_withReturns {t lead : Text} (ht : '\r' ∉ t) (hr : '\r' ∉ lead)
    (hn : '\n' ∉ lead) : t.withReturns.after? lead = (t.after? lead).map withReturns := by
  unfold after?
  rw [Commented.block.isPrefixOf ht hr hn]
  split
  · next hp =>
    obtain ⟨rest, rfl⟩ := List.isPrefixOf_iff_prefix.mp hp
    rw [withReturns_append, withReturns_of_notMem hn, List.drop_left, List.drop_left]
    rfl
  · rfl

theorem content_isInfix (t : Text) : content t <:+: t := by
  unfold content
  refine (dropTail_isPrefix _ _).isInfix.trans (List.IsSuffix.isInfix ?_)
  split
  · next h => exact suffix_of_after? h
  · exact dropLead_suffix _ _

/-- The content of a comment in lines that end in carriage returns. -/
theorem content_withReturns {t : Text} (ht : '\r' ∉ t) :
    content t.withReturns = (content t).withReturns := by
  have hafter : ∀ {lead rest : Text}, t.after? lead = some rest → '\r' ∉ rest :=
    fun h hrest => ht ((suffix_of_after? h).mem hrest)
  unfold content
  rw [after?_withReturns ht (by decide) (by decide)]
  cases hslashes : t.after? "//".toList with
  | some rest => exact dropTail_withReturns (hafter hslashes) (by decide) (by decide)
  | none =>
    have hblock : t.withReturns.after? "/*".toList = (t.after? "/*".toList).map withReturns :=
      after?_withReturns ht (by decide) (by decide)
    dsimp only [Option.map_none]
    unfold Text.dropLead
    rw [hblock]
    cases hstar : t.after? "/*".toList with
    | some rest => exact dropTail_withReturns (hafter hstar) (by decide) (by decide)
    | none => exact dropTail_withReturns ht (by decide) (by decide)

/-- The content of a comment up to the end of its line. -/
theorem content_line {t : Text} (ht : "//".toList <+: t) (hs : ¬"*/".toList <:+ t) :
    content (t ++ ['\r']) = content t ++ ['\r'] := by
  obtain ⟨rest, rfl⟩ := ht
  have hafter : ∀ u : Text, Text.after? ("//".toList ++ u) "//".toList = some u := fun u => by
    unfold after?
    rw [if_pos (List.isPrefixOf_iff_prefix.mpr (List.prefix_append _ u)), List.drop_left]
  have hrest : ¬"*/".toList <:+ rest := fun h => hs (h.trans (List.suffix_append _ rest))
  have hreturn : ¬"*/".toList <:+ rest ++ ['\r'] := by
    rintro ⟨front, hfront⟩
    have hlast := congrArg List.getLast? hfront
    simp at hlast
  unfold content
  rw [List.append_assoc, hafter, hafter]
  dsimp only
  rw [dropTail_of_not hrest, dropTail_of_not hreturn]

theorem name_of_words {t u : Text} (h : (content u).words = (content t).words) :
    name u = name t := by
  unfold name
  rw [h]

/-- **The name of a comment** does not show how its lines end. -/
theorem name_withReturns {t : Text} (ht : '\r' ∉ t) : name t.withReturns = name t := by
  refine name_of_words ?_
  have hcontent : '\r' ∉ content t := fun hmem => ht ((content_isInfix t).mem hmem)
  rw [content_withReturns ht]
  exact (Returned.withReturns _).words_eq (endsLines_withReturns hcontent)

theorem name_line {t : Text} (ht : "//".toList <+: t) (hs : ¬"*/".toList <:+ t) (hr : '\r' ∉ t) :
    name (t ++ ['\r']) = name t := by
  refine name_of_words ?_
  have hcontent : '\r' ∉ content t := fun hmem => hr ((content_isInfix t).mem hmem)
  have hreturned := (Returned.refl (content t)).append (.insert .nil)
  rw [List.append_nil] at hreturned
  rw [content_line ht hs]
  exact hreturned.words_eq (endsLines_append_return hcontent)

end Construct.Comment
end HeaderOutline
