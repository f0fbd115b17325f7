import HeaderOutline.Proofs.Finding
import HeaderOutline.Proofs.Wrapping
import HeaderOutline.Text.Unicode

/-! # Names of comments

The name of a comment is made of its first words, a space between each two: the colons at its ends
are removed first, and the blanks after them.  A word of colons alone is lost that way, and then the
space next to it; what is then at the end may be a colon again, that of the word behind the space
(`Construct.Comment.leavesColon`).  This is the only way in which a name comes to start or to end
with a colon (`Construct.Comment.name_ends_iff`).  All other names are looked up as they stand: no
lookup takes an end of them for a separator (`Outline.findByPath?_name`, `Outline.lookup?_name`).
-/
namespace HeaderOutline

namespace Text

variable {s t : Text} {c : Char}

/-! ## Texts read backwards -/

theorem strip_reverse (p : Char → Bool) (t : Text) : strip p t.reverse = (strip p t).reverse := by
  rw [strip_eq_rdropWhile p t, ← dropWhile_rdropWhile]
  rfl

/-- Texts in reverse order, each of them backwards. -/
def backwards (ts : List Text) : List Text := (ts.map List.reverse).reverse

theorem joinWith_backwards (ts : List Text) :
    joinWith [' '] (backwards ts) = (joinWith [' '] ts).reverse := by
  induction ts with
  | nil => rfl
  | cons t ts ih =>
    have hcons : backwards (t :: ts) = backwards ts ++ [t.reverse] := by simp [backwards]
    by_cases hts : ts = []
    · simp [hts, backwards]
    · have hback : backwards ts ≠ [] := by simpa [backwards] using hts
      rw [hcons, joinWith_append _ hback (List.cons_ne_nil _ _), ih, joinWith_singleton,
        joinWith_cons _ _ hts]
      simp

/-! ## Words -/

/-- A text as words are: it holds characters, and none of them is a blank. -/
structure IsSolid (t : Text) : Prop where
  ne_nil : t ≠ []
  solid : ∀ c ∈ t, isBlank c = false

theorem IsSolid.reverse (h : t.IsSolid) : IsSolid t.reverse :=
  ⟨by simpa using h.ne_nil, fun c hc => h.solid c (List.mem_reverse.mp hc)⟩

/-- No piece between blanks holds a blank. -/
theorem isBlank_of_mem_pieces (h : s ∈ t.splitOnP isBlank) (hc : c ∈ s) : isBlank c = false := by
  induction t generalizing s with
  | nil =>
    rw [List.splitOnP_nil, List.mem_singleton] at h
    rw [h] at hc
    cases hc
  | cons d t ih =>
    obtain ⟨piece, pieces, hpieces⟩ := List.exists_cons_of_ne_nil (List.splitOnP_ne_nil isBlank t)
    rw [List.splitOnP_cons_eq_if_modifyHead] at h
    rw [hpieces] at h ih
    split at h
    · rcases List.mem_cons.mp h with rfl | h
      · cases hc
      · exact ih h hc
    · next hd =>
      rcases List.mem_cons.mp h with rfl | h
      · rcases List.mem_cons.mp hc with rfl | hc
        · simpa using hd
        · exact ih List.mem_cons_self hc
      · exact ih (List.mem_cons_of_mem _ h) hc

theorem isSolid_of_mem_words (h : s ∈ t.words) : s.IsSolid := by
  obtain ⟨hmem, hne⟩ := List.mem_filter.mp h
  exact ⟨by simpa using hne, fun c hc => isBlank_of_mem_pieces hmem hc⟩

/-! ## Colons and blanks at the front -/

/-- A text that starts with no blank starts with the same character when it is trimmed. -/
theorem head?_trim_of_solid (h : t.head? = some c) (hc : isBlank c = false) :
    t.trim.head? = some c := by
  obtain ⟨rest, rfl⟩ := List.head?_eq_some_iff.mp h
  rw [head?_trim, List.dropWhile_cons_of_neg (by simp [hc])]
  rfl

/-- What is removed at the end leaves the front as it is, unless it is the whole text. -/
theorem head?_rdropWhile (p : Char → Bool) (t : Text) :
    (t.rdropWhile p).head? = if t.all p then none else t.head? := by
  split
  · next hall => rw [List.rdropWhile_eq_nil_iff.mpr (List.all_eq_true.mp hall), List.head?_nil]
  · next hall =>
    have hne : t.rdropWhile p ≠ [] := fun hnil =>
      hall (List.all_eq_true.mpr (List.rdropWhile_eq_nil_iff.mp hnil))
    obtain ⟨behind, hbehind⟩ := List.rdropWhile_prefix p (l := t)
    have hsame := congrArg List.head? hbehind
    rwa [List.head?_append_of_ne_nil _ hne] at hsame

end Text

namespace Construct.Comment

open Text (IsSolid backwards isBlank joinWith)

variable {words more : List Text} {word next text : Text}

/-- The words that a comment is named by. -/
def nameWords (text : Text) : List Text :=
  ((content text).words.filter (!isDecoration ·)).take 3

/-- What is left of some words with spaces between them when first the colons and then the blanks
at either end are removed. -/
def bare (words : List Text) : Text := ((joinWith [' '] words).strip (· == ':')).trim

theorem name_eq (text : Text) : name text =
    if (bare (nameWords text)).isEmpty then "comment".toList else bare (nameWords text) := rfl

/-- Whether a colon is left in front of some words when the colons and then the blanks there are
removed: the first word is made of colons alone, and the next one starts with a colon.  Two words of
colons alone are removed together, if there are no others. -/
def leavesColon : List Text → Bool
  | word :: next :: more =>
    word.all (· == ':') && next.head? == some ':' && !(more.isEmpty && next.all (· == ':'))
  | _ => false

/-! ## The front of a name -/

theorem dropWhile_of_all (h : word.all (· == ':') = true) : word.dropWhile (· == ':') = [] :=
  List.dropWhile_eq_nil_iff.mpr (List.all_eq_true.mp h)

/-- A first word that is more than colons stays in front, without the colons it starts with. -/
theorem head?_bare_of_not_all (hword : word.IsSolid) (h : ¬word.all (· == ':') = true) :
    (bare (word :: more)).head? ≠ some ':' := by
  have hne : word.dropWhile (· == ':') ≠ [] := fun hnil =>
    h (List.all_eq_true.mpr (List.dropWhile_eq_nil_iff.mp hnil))
  obtain ⟨c, rest, hc⟩ := List.exists_cons_of_ne_nil hne
  obtain ⟨tail, htail⟩ := Text.exists_joinWith_cons [' '] word more
  have hcolon : c ≠ ':' := by
    have hstop := List.head?_dropWhile_not (· == ':') word
    rw [hc] at hstop
    simpa using hstop
  have hsolid : isBlank c = false :=
    hword.solid c ((List.dropWhile_suffix _).subset (hc ▸ List.mem_cons_self))
  have hstrip : ((joinWith [' '] (word :: more)).strip (· == ':')).head? = some c := by
    rw [Text.head?_strip, htail, List.dropWhile_append, if_neg (by simpa using hne), hc]
    rfl
  rw [bare, Text.head?_trim_of_solid hstrip hsolid]
  exact fun heq => hcolon (Option.some.inj heq)

/-- One word of colons alone is lost. -/
theorem bare_singleton_of_all (h : word.all (· == ':') = true) : bare [word] = [] := by
  rw [bare, Text.joinWith_singleton, Text.strip_eq_rdropWhile, dropWhile_of_all h]
  rfl

/-- A first word of colons alone is lost, and so is the space behind it. -/
theorem bare_of_all (h : word.all (· == ':') = true) (hmore : more ≠ []) :
    bare (word :: more) = Text.trim ((joinWith [' '] more).rdropWhile (· == ':')) := by
  have hstrip : (joinWith [' '] (word :: more)).strip (· == ':')
      = ' ' :: (joinWith [' '] more).rdropWhile (· == ':') := by
    rw [Text.strip_eq_rdropWhile, Text.joinWith_cons _ _ hmore, List.append_assoc,
      List.dropWhile_append, if_pos (List.isEmpty_iff.mpr (dropWhile_of_all h)),
      List.singleton_append, List.dropWhile_cons_of_neg (by decide),
      Text.rdropWhile_cons_of_neg (by decide)]
  rw [bare, hstrip, Text.trim_cons_blank _ (by decide +kernel)]

/-- Words with a space between them are not made of colons alone. -/
theorem all_joinWith (word : Text) (more : List Text) :
    (joinWith [' '] (word :: more)).all (· == ':') = (more.isEmpty && word.all (· == ':')) := by
  cases more with
  | nil => rw [Text.joinWith_singleton, List.isEmpty_nil, Bool.true_and]
  | cons next more => simp [Text.joinWith_cons _ _ (List.cons_ne_nil next more)]

/-- Behind a first word of colons alone, the next word is in front, unless it is lost, too. -/
theorem head?_bare_of_all (h : word.all (· == ':') = true) (hnext : next.IsSolid) :
    (bare (word :: next :: more)).head?
      = if more.isEmpty && next.all (· == ':') then none else next.head? := by
  obtain ⟨c, rest, rfl⟩ := List.exists_cons_of_ne_nil hnext.ne_nil
  obtain ⟨tail, htail⟩ := Text.exists_joinWith_cons [' '] (c :: rest) more
  have hhead := Text.head?_rdropWhile (· == ':') (joinWith [' '] ((c :: rest) :: more))
  rw [all_joinWith] at hhead
  rw [bare_of_all h (List.cons_ne_nil _ _)]
  split at hhead
  · next hall =>
    rw [if_pos hall, List.head?_eq_none_iff.mp hhead]
    rfl
  · next hall =>
    rw [htail] at hhead
    rw [if_neg hall, htail, Text.head?_trim_of_solid hhead (hnext.solid c List.mem_cons_self)]
    rfl

/-- **A colon is in front** of what is left of some words exactly if a first word of colons alone is
lost in front of it. -/
theorem head?_bare_iff (h : ∀ w ∈ words, w.IsSolid) :
    (bare words).head? = some ':' ↔ leavesColon words = true := by
  cases words with
  | nil => exact ⟨nofun, nofun⟩
  | cons word more =>
    have hword := h word List.mem_cons_self
    -- whether the first word is lost decides which word is in front
    by_cases hall : word.all (· == ':') = true
    · cases more with
      | nil =>
        rw [bare_singleton_of_all hall]
        exact ⟨nofun, nofun⟩
      | cons next more =>
        have hnext := h next (List.mem_cons_of_mem _ List.mem_cons_self)
        rw [head?_bare_of_all hall hnext, leavesColon, hall]
        split
        · next hnone => simp [hnone]
        · next hsome => simp [hsome]
    · refine iff_of_false (head?_bare_of_not_all hword hall) ?_
      cases more with
      | nil => exact Bool.false_ne_true
      | cons next more => simp [leavesColon, hall]

/-! ## Both ends -/

theorem bare_backwards (words : List Text) : bare (backwards words) = (bare words).reverse := by
  rw [bare, Text.joinWith_backwards, Text.strip_reverse]
  exact Text.strip_reverse isBlank _

theorem isSolid_of_mem_nameWords (h : word ∈ nameWords text) : word.IsSolid :=
  Text.isSolid_of_mem_words (List.mem_filter.mp (List.mem_of_mem_take h)).1

theorem name_ne_nil (text : Text) : name text ≠ [] := by
  rw [name_eq]
  split
  · decide
  · next hne => simpa using hne

/-- A name is trimmed. -/
theorem name_solid (text : Text) : (∀ c ∈ (name text).head?, isBlank c = false) ∧
    ∀ c ∈ (name text).getLast?, isBlank c = false := by
  have hdefault : Text.trim "comment".toList = "comment".toList := by decide +kernel
  rw [name_eq]
  split
  · rw [← hdefault]
    exact Text.trim_tight _
  · exact Text.trim_tight _

/-- A name starts with a colon exactly if one is left in front of its words. -/
theorem head?_name_iff (text : Text) :
    (name text).head? = some ':' ↔ leavesColon (nameWords text) = true := by
  rw [← head?_bare_iff fun w hw => isSolid_of_mem_nameWords hw, name_eq]
  split
  · next hnil =>
    rw [List.isEmpty_iff.mp hnil]
    decide
  · rfl

/-- A name ends with a colon exactly if one is left in front of its words, read backwards. -/
theorem getLast?_name_iff (text : Text) :
    (name text).getLast? = some ':' ↔ leavesColon (backwards (nameWords text)) = true := by
  -- the end of a name is the front of what is made of its words backwards
  have hsolid : ∀ w ∈ backwards (nameWords text), w.IsSolid := by
    intro w hw
    obtain ⟨v, hv, rfl⟩ := List.mem_map.mp (List.mem_reverse.mp hw)
    exact (isSolid_of_mem_nameWords hv).reverse
  rw [← head?_bare_iff hsolid, bare_backwards, List.head?_reverse, name_eq]
  split
  · next hnil =>
    rw [List.isEmpty_iff.mp hnil]
    decide
  · rfl

/-- **The ends of a name.**  The name of a comment holds characters, and it neither starts nor ends
with a blank.  It starts with a colon exactly if the word behind a first word of colons alone starts
with one and is not lost itself, and it ends with a colon exactly if the same is the case from
behind. -/
theorem name_ends_iff (text : Text) :
    name text ≠ [] ∧
      (∀ c ∈ (name text).head?, isBlank c = false) ∧
      (∀ c ∈ (name text).getLast?, isBlank c = false) ∧
      ((name text).head? = some ':' ↔ leavesColon (nameWords text) = true) ∧
      ((name text).getLast? = some ':' ↔ leavesColon (backwards (nameWords text)) = true) := by
  obtain ⟨hfront, hback⟩ := name_solid text
  exact ⟨name_ne_nil text, hfront, hback, head?_name_iff text, getLast?_name_iff text⟩

-- The colon of the first word stays, since the word behind it is lost.
example : name "// Accessors: :".toList = "Accessors:".toList := by decide +kernel

/-- The name of a comment of three words of colons is a double colon, which leads to the root. -/
theorem name_ends_fails :
    ¬∀ (source : Text) (t : Token), t ∈ Token.scan .standard source → t.kind.isComment = true →
      name t.text ≠ [] ∧
        (∀ c ∈ (name t.text).head?, c ≠ ':' ∧ isBlank c = false) ∧
        (∀ c ∈ (name t.text).getLast?, c ≠ ':' ∧ isBlank c = false) := by
  intro hall
  have hscan : ∃ t ∈ Token.scan .standard "// : :: :".toList,
      t.kind.isComment = true ∧ name t.text = Text.colons := by
    decide +kernel
  obtain ⟨t, ht, hkind, hname⟩ := hscan
  obtain ⟨-, hfront, -⟩ := hall _ t ht hkind
  rw [hname] at hfront
  exact (hfront ':' rfl).1 rfl

end Construct.Comment

/-! ## Lookups -/

namespace Outline

open Construct.Comment (name nameWords leavesColon)
open Text (backwards)

variable {text : Text}

/-- **A name is no separator** for the walk along a path: it is cut at the double colons that it
holds, and at no other place. -/
theorem findByPath?_name (o : Outline) (hfront : leavesColon (nameWords text) = false)
    (hback : leavesColon (backwards (nameWords text)) = false) :
    o.findByPath? (name text) = o.resolve root none (name text).splitColons := by
  refine findByPath?_of_ends (Construct.Comment.name_ne_nil text) ?_ ?_
  · rintro ⟨rest, hrest⟩
    have hhead : (name text).head? = some ':' := by
      rw [← hrest]
      rfl
    cases hfront.symm.trans ((Construct.Comment.head?_name_iff text).mp hhead)
  · rintro ⟨rest, hrest⟩
    have hlast : (name text).getLast? = some ':' := by
      rw [← hrest, List.getLast?_append]
      rfl
    cases hback.symm.trans ((Construct.Comment.getLast?_name_iff text).mp hlast)

/-- Nor is it one for a lookup by full name, where colons alone lead to the root. -/
theorem lookup?_name (o : Outline) (hfront : leavesColon (nameWords text) = false) :
    o.lookup? (name text) = o.firstOf? (name text) := by
  obtain ⟨c, rest, hname⟩ := List.exists_cons_of_ne_nil (Construct.Comment.name_ne_nil text)
  have hc : c ≠ ':' := by
    rintro rfl
    have hhead : (name text).head? = some ':' := by
      rw [hname]
      rfl
    cases hfront.symm.trans ((Construct.Comment.head?_name_iff text).mp hhead)
  have hkept := Text.strip_ne_nil (p := (· == ':')) (hname ▸ List.mem_cons_self) (by simpa using hc)
  rw [lookup?, if_neg (by simpa using hkept)]

end Outline
end HeaderOutline
