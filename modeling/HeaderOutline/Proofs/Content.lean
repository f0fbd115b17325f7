import HeaderOutline.Proofs.Wrapping

/-! # Comments without content

A comment is read if a line of it holds any text, and each line gives some field a value, but for
one kind of line: the tag of a parameter with nothing behind it (`DocComment.isBareParam`).  One
more line makes no difference to whether a draft says anything if it is of that kind; behind any
other line it does say something, whatever follows (`DocComment.Draft.isEmpty_close_read`).  So the
comments that are read and say nothing are those of such lines alone
(`DocComment.isEmpty_of_read?`).
-/
namespace HeaderOutline.DocComment

open Text (joinWith isBlank)

/-- Whether a line is the tag of a parameter with nothing behind it. -/
def isBareParam (line : Text) : Bool :=
  match Draft.tagged? line with
  | some tag =>
    let (name, content) := Text.splitWord tag
    Tag.ofName name == .param && content.isEmpty
  | none => false

variable {line : Text} {ls : List Text}

/-! ## Tags -/

/-- A tag gives a field a value, unless it is that of a parameter. -/
theorem isEmpty_record_of_ne {tag : Tag} (h : tag ≠ .param) (d : DocComment) (content : Text) :
    (d.record tag content).isEmpty = false := by
  have hlist : ∀ xs : List Text, (xs ++ [content]).isEmpty = false := fun xs => by simp
  have hput : ∀ name, List.isEmpty (d.customTags.put name content) = false := fun name => by
    simpa using Entries.put_ne_nil name content d.customTags
  cases tag with
  | param => exact absurd rfl h
  | _ => simp [record, isEmpty, hlist, hput]

/-- A parameter has a value if it has a name. -/
theorem isEmpty_record_param (d : DocComment) (content : Text) :
    (d.record .param content).isEmpty = (d.isEmpty && (Text.splitWord content).1.isEmpty) := by
  unfold record
  dsimp only
  split
  · next h => rw [h, Bool.and_true]
  · next h =>
    have hput : List.isEmpty (d.params.put (Text.splitWord content).1 (Text.splitWord content).2)
        = false := by
      simpa using Entries.put_ne_nil _ _ d.params
    simp [isEmpty, h, hput]

theorem isEmpty_record (d : DocComment) (tag : Tag) (content : Text) :
    (d.record tag content).isEmpty
      = (d.isEmpty && (tag == .param && (Text.splitWord content).1.isEmpty)) := by
  by_cases h : tag = .param
  · rw [h, isEmpty_record_param, beq_self_eq_true, Bool.true_and]
  · rw [isEmpty_record_of_ne h, beq_false_of_ne h, Bool.false_and, Bool.and_false]

/-- The first description that takes a line has a value then. -/
theorem isEmpty_describe (d : DocComment) (line : Text) :
    (Draft.describe d line).isEmpty = false := by
  unfold Draft.describe
  split
  · simp [isEmpty]
  · next h =>
    split <;> simp [isEmpty, h]

/-! ## Lines -/

/-- A text that starts with no blank has a first word. -/
theorem isEmpty_firstWord {t : Text} (hne : t ≠ []) (h : ∀ c ∈ t.head?, isBlank c = false) :
    (Text.splitWord t).1.isEmpty = false := by
  obtain ⟨c, rest, rfl⟩ := List.exists_cons_of_ne_nil hne
  rw [Text.splitWord, List.takeWhile_cons_of_pos (by simp [h c rfl])]
  rfl

/-- A line of a comment, cleaned: it holds text and starts with no blank. -/
structure IsContent (line : Text) : Prop where
  ne_nil : line ≠ []
  head : ∀ c ∈ line.head?, isBlank c = false

/-- The lines of a comment that are read. -/
theorem isContent_of_mem {raw : Text} (h : line ∈ contentLines raw) : IsContent line := by
  obtain ⟨hmem, hne⟩ := List.mem_filter.mp h
  obtain ⟨l, -, rfl⟩ := List.mem_map.mp hmem
  exact ⟨by simpa using hne, (Text.trim_tight _).1⟩

/-- Lines of a tag have a first word if there are any. -/
theorem isEmpty_firstWord_joinWith (h : ∀ l ∈ ls, IsContent l) :
    (Text.splitWord (joinWith [' '] ls)).1.isEmpty = ls.isEmpty := by
  cases ls with
  | nil => rfl
  | cons l more =>
    have hl := h l List.mem_cons_self
    obtain ⟨s, hs⟩ := Text.exists_joinWith_cons [' '] l more
    rw [hs]
    have hne := List.append_ne_nil_of_left_ne_nil hl.ne_nil s
    refine isEmpty_firstWord hne fun c hc => hl.head c ?_
    obtain ⟨d, rest, rfl⟩ := List.exists_cons_of_ne_nil hl.ne_nil
    exact hc

namespace Draft

variable {d : Draft}

/-- The lines of an open tag hold text. -/
def Filled (d : Draft) : Prop := ∀ p ∈ d.openTag, ∀ l ∈ p.2, IsContent l

theorem Filled.read (h : d.Filled) (hline : IsContent line) : (d.read line).Filled := by
  intro p hp l hl
  unfold Draft.read at hp
  cases ht : tagged? line with
  | some tag =>
    rw [ht] at hp
    obtain rfl := Option.some.inj hp
    dsimp only at hl
    split at hl
    · cases hl
    · next hc =>
      rw [List.mem_singleton.mp hl]
      exact ⟨by simpa using hc, (Text.trim_tight _).1⟩
  | none =>
    rw [ht] at hp
    cases ho : d.openTag with
    | none =>
      rw [ho] at hp
      cases hp
    | some q =>
      rw [ho] at hp
      obtain rfl := Option.some.inj hp
      rcases List.mem_append.mp hl with hl | hl
      · exact h q ho l hl
      · rw [List.mem_singleton.mp hl]
        exact hline

/-- A comment says nothing once a tag is closed if it has said nothing and the tag is that of a
parameter without a line. -/
theorem Filled.isEmpty_close (h : d.Filled) : d.close.isEmpty
    = (d.doc.isEmpty && d.openTag.all fun p => Tag.ofName p.1 == .param && p.2.isEmpty) := by
  unfold Draft.close
  cases ho : d.openTag with
  | none => simp
  | some p => simp [isEmpty_record, isEmpty_firstWord_joinWith (h p ho)]

/-- **One more line** leaves a comment without content only if it is a bare parameter tag. -/
theorem isEmpty_close_read (h : d.Filled) (hline : IsContent line) :
    (d.read line).close.isEmpty = (d.close.isEmpty && isBareParam line) := by
  rw [(h.read hline).isEmpty_close, isBareParam]
  unfold Draft.read
  cases ht : tagged? line with
  | some tag =>
    cases hc : (Text.splitWord tag).2 <;> simp [hc]
  | none =>
    cases ho : d.openTag with
    | none => simp [isEmpty_describe]
    | some p => simp

theorem isEmpty_close_foldl (h : d.Filled) (hls : ∀ l ∈ ls, IsContent l) :
    (ls.foldl read d).close.isEmpty = (d.close.isEmpty && ls.all isBareParam) := by
  induction ls generalizing d with
  | nil => simp
  | cons l ls ih =>
    have hl := hls l List.mem_cons_self
    rw [List.foldl_cons, ih (h.read hl) fun u hu => hls u (List.mem_cons_of_mem l hu),
      isEmpty_close_read h hl, List.all_cons, Bool.and_assoc]

end Draft

/-- **A comment that is read says something**, unless each line of it that holds text is the tag of
a parameter with nothing behind it. -/
theorem isEmpty_of_read? {raw : Text} {doc : DocComment} (h : read? raw = some doc) :
    doc.isEmpty = true ↔ ∀ line ∈ contentLines raw, isBareParam line = true := by
  have hne : contentLines raw ≠ [] := by
    intro hnil
    rw [read?, hnil] at h
    cases h
  have hfilled : Draft.Filled ⟨unread raw, none⟩ := fun p hp => by cases hp
  have hcontent : ∀ l ∈ contentLines raw, IsContent l := fun l hl => isContent_of_mem hl
  have hempty := Draft.isEmpty_close_foldl hfilled hcontent
  rw [read?_of_lines rfl hne] at h
  rw [← Option.some.inj h, hempty, show (Draft.close ⟨unread raw, none⟩).isEmpty = true from rfl,
    Bool.true_and, List.all_eq_true]

/-- A tag of a parameter with its name on the next line says something. -/
theorem isEmpty_of_read?_wrapped :
    ∃ doc, read? "/// @param\n/// a".toList = some doc ∧
      (doc.isEmpty = true ↔
        ∀ line ∈ contentLines "/// @param\n/// a".toList, isBareParam line = true) ∧
      doc.isEmpty = false := by
  obtain ⟨doc, h⟩ : ∃ doc, read? "/// @param\n/// a".toList = some doc :=
    Option.isSome_iff_exists.mp (by decide +kernel)
  have hiff := isEmpty_of_read? h
  refine ⟨doc, h, hiff, ?_⟩
  rw [← Bool.not_eq_true, hiff]
  decide +kernel

/-- A comment that is a bare parameter tag is read, though it says nothing. -/
theorem read?_bareParam_fails :
    ¬∀ raw doc, read? raw = some doc → doc.isEmpty = false := by
  intro hall
  have hread : (read? "/// @param".toList).map isEmpty = some true := by decide +kernel
  obtain ⟨doc, h, hempty⟩ := Option.map_eq_some_iff.mp hread
  rw [hall _ doc h] at hempty
  cases hempty

end HeaderOutline.DocComment
