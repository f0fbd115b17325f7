import HeaderOutline.Proofs.Styles

/-! # Tags over several lines

A tag takes all lines up to the next tag, and puts a space between each two of them.  So it makes no
difference whether two of its lines are one (`DocComment.Draft.read_read`): the draft of a comment
with the lines joined is the same, but that its open tag holds other lines of the same text
(`DocComment.Draft.Same`).  Hence the text of a tag can be wrapped anywhere
(`DocComment.read?_wrapped`).
-/
namespace HeaderOutline

namespace Text

variable {s t u : Text} {c : Char}

/-! ## Trimmed texts put together -/

theorem trimEnd_eq_self_iff : t.trimEnd = t ↔ ∀ h : t ≠ [], ¬isBlank (t.getLast h) = true :=
  List.rdropWhile_eq_self_iff

theorem trimEnd_of_suffix (h : t.trimEnd = t) (hs : s <:+ t) : s.trimEnd = s := by
  obtain ⟨front, rfl⟩ := hs
  rw [trimEnd_eq_self_iff] at h ⊢
  intro hne
  have hlast := h (List.append_ne_nil_of_right_ne_nil _ hne)
  rwa [List.getLast_append_of_right_ne_nil _ _ hne] at hlast

theorem trimEnd_append_of_ne_nil (s : Text) (h : t.trimEnd = t) (hne : t ≠ []) :
    trimEnd (s ++ t) = s ++ t := by
  rw [trimEnd_eq_self_iff] at h ⊢
  intro _
  rw [List.getLast_append_of_right_ne_nil _ _ hne]
  exact h hne

theorem trimEnd_trim (t : Text) : t.trim.trimEnd = t.trim := trimEnd_trimEnd _

/-- The first character that is left is the first one that is not of the class. -/
theorem head?_strip (p : Char → Bool) (t : Text) : (t.strip p).head? = (t.dropWhile p).head? := by
  have hstop := List.head?_dropWhile_not p t
  rw [strip_eq_rdropWhile]
  cases hd : t.dropWhile p with
  | nil => rfl
  | cons c rest =>
    rw [hd] at hstop
    rw [rdropWhile_cons_of_neg (by simpa using hstop)]
    rfl

/-- The first character of a trimmed text is the first one that is no blank. -/
theorem head?_trim (t : Text) : t.trim.head? = (t.dropWhile isBlank).head? := head?_strip isBlank t

/-- Two trimmed texts with a space between them are trimmed. -/
theorem trim_joined (hs : s.trimEnd = s) (ht : t.trim = t) (hne : t ≠ []) :
    trim (s ++ ' ' :: t) = if s.trim.isEmpty then t else s.trim ++ ' ' :: t := by
  have hback : trimEnd (' ' :: t) = ' ' :: t :=
    trimEnd_append_of_ne_nil [' '] (ht ▸ trimEnd_trim t) hne
  have hdrop : trimEnd (s.dropWhile isBlank) = s.dropWhile isBlank :=
    trimEnd_of_suffix hs (List.dropWhile_suffix _)
  rw [trim_eq_trimEnd s, hdrop, trim_eq_trimEnd, List.dropWhile_append]
  split
  · rw [List.dropWhile_cons_of_pos (by decide +kernel), ← trim_eq_trimEnd, ht]
  · rw [trimEnd_append hdrop, hback]

/-- What follows a text behind a space belongs to what follows its first word. -/
theorem splitWord_joined (hs : s.trimEnd = s) (ht : t.trim = t) (hne : t ≠ []) :
    splitWord (s ++ ' ' :: t)
      = ((splitWord s).1, if (splitWord s).2.isEmpty then t else (splitWord s).2 ++ ' ' :: t) := by
  have htake : (s ++ ' ' :: t).takeWhile (!isBlank ·) = s.takeWhile (!isBlank ·) := by
    rw [List.takeWhile_append]
    split
    · next hall =>
      rw [List.takeWhile_cons_of_neg (by decide +kernel), List.append_nil,
        (List.takeWhile_prefix _).eq_of_length hall]
    · rfl
  have hdrop : (s ++ ' ' :: t).dropWhile (!isBlank ·) = s.dropWhile (!isBlank ·) ++ ' ' :: t := by
    rw [List.dropWhile_append]
    split
    · next hnil =>
      rw [List.isEmpty_iff.mp hnil, List.dropWhile_cons_of_neg (by decide +kernel), List.nil_append]
    · rfl
  rw [splitWord, htake, hdrop, trim_joined (trimEnd_of_suffix hs (List.dropWhile_suffix _)) ht hne]
  rfl

/-- A line that starts a tag, blanks aside. -/
def StartsTag (t : Text) : Prop :=
  (t.dropWhile isBlank).head? = some '@' ∨ (t.dropWhile isBlank).head? = some '\\'

instance : DecidablePred StartsTag := fun _ => inferInstanceAs (Decidable (_ ∨ _))

/-- Texts with something between them start with the first text. -/
theorem exists_joinWith_cons (separator t : Text) (ts : List Text) :
    ∃ s, joinWith separator (t :: ts) = t ++ s := by
  by_cases hts : ts = []
  · exact ⟨[], by rw [hts, joinWith_singleton, List.append_nil]⟩
  · exact ⟨_, by rw [joinWith_cons _ _ hts, List.append_assoc]⟩

/-- Two characters that a space parts from each other do not stand side by side. -/
theorem infix_of_infix_joined {d : Char} (hc : c ≠ ' ') (hd : d ≠ ' ')
    (h : [c, d] <:+: s ++ ' ' :: t) : [c, d] <:+: s ∨ [c, d] <:+: t := by
  obtain ⟨front, behind, heq⟩ := h
  rw [List.append_assoc] at heq
  rcases List.append_eq_append_iff.mp heq with ⟨m, rfl, hm⟩ | ⟨m, rfl, hm⟩
  · rcases m with _ | ⟨e, _ | ⟨f, m⟩⟩
    · exact absurd (List.cons.inj hm).1 hc
    · exact absurd (List.cons.inj (List.cons.inj hm).2).1 hd
    · simp only [List.cons_append, List.cons.injEq] at hm
      obtain ⟨rfl, rfl, -⟩ := hm
      exact .inl ⟨front, m, by simp⟩
  · rcases m with _ | ⟨e, m⟩
    · exact absurd (List.cons.inj hm).1.symm hc
    · obtain ⟨rfl, rfl⟩ := List.cons.inj hm
      exact .inr ⟨m, behind, by simp⟩

/-- Two plain lines can be joined to one. -/
theorem IsPlainLine.joined (hs : s.IsPlainLine) (ht : t.IsPlainLine) (hne : s.trim ≠ []) :
    IsPlainLine (s.trim ++ ' ' :: t.trim) where
  unbroken := by
    have hin : ∀ {u : Text}, u.IsPlainLine → '\n' ∉ u.trim := fun h hm =>
      h.unbroken ((trim_isInfix _).subset hm)
    simp [hin hs, hin ht]
  unclosed h := by
    rcases infix_of_infix_joined (by decide) (by decide) h with h | h
    · exact hs.unclosed (h.trans (trim_isInfix s))
    · exact ht.unclosed (h.trans (trim_isInfix t))
  unstarred := by
    have hhead := head?_trim (s.trim ++ ' ' :: t.trim)
    have hfirst := head?_trim s
    obtain ⟨c, rest, hc⟩ := List.exists_cons_of_ne_nil hne
    have htight := (trim_tight s).1 c (by rw [hc]; rfl)
    rw [hc, List.cons_append, List.dropWhile_cons_of_neg (by simp [htight])]
    rw [hc] at hfirst
    exact fun hstar => hs.unstarred (hfirst.symm.trans hstar)

end Text

namespace DocComment

open Text (IsPlainLine joinWith)

/-! ## Drafts -/

namespace Draft

variable {d d' : Draft} {line a b : Text} {ls : List Text}

/-- Drafts that say the same, though the text of an open tag may be made of other lines. -/
structure Same (d d' : Draft) : Prop where
  doc : d'.doc = d.doc
  openTag : Option.Rel (fun p q => q.1 = p.1 ∧ (q.2 = [] ↔ p.2 = []) ∧
    joinWith [' '] q.2 = joinWith [' '] p.2) d.openTag d'.openTag

theorem Same.refl (d : Draft) : Same d d := by
  refine ⟨rfl, ?_⟩
  cases d.openTag with
  | none => exact .none
  | some p => exact .some ⟨rfl, Iff.rfl, rfl⟩

theorem Same.close (h : Same d d') : d'.close = d.close := by
  obtain ⟨doc, tag⟩ := d
  obtain ⟨doc', tag'⟩ := d'
  obtain ⟨rfl, htag⟩ := h
  cases htag with
  | none => rfl
  | some hp =>
    obtain ⟨hname, -, hjoin⟩ := hp
    simp only [Draft.close, hname, hjoin]

theorem joinWith_concat (ls : List Text) (t : Text) :
    joinWith [' '] (ls ++ [t]) = if ls.isEmpty then t else joinWith [' '] ls ++ ' ' :: t := by
  by_cases hls : ls = []
  · simp [hls]
  · rw [Text.joinWith_append _ hls (List.cons_ne_nil t []), Text.joinWith_singleton,
      if_neg (by simp [hls]), List.append_assoc]
    rfl

/-- Two texts at the end are joined as all texts are. -/
theorem joinWith_pair (ls : List Text) (t u : Text) :
    joinWith [' '] (ls ++ [t] ++ [u]) = joinWith [' '] (ls ++ [t ++ ' ' :: u]) := by
  rw [joinWith_concat, joinWith_concat, joinWith_concat, if_neg (by simp)]
  split
  · rfl
  · rw [List.append_assoc, List.cons_append]

theorem Same.read (h : Same d d') (line : Text) : Same (d.read line) (d'.read line) := by
  have hclose := h.close
  obtain ⟨doc, tag⟩ := d
  obtain ⟨doc', tag'⟩ := d'
  obtain ⟨rfl, htag⟩ := h
  unfold Draft.read
  rw [hclose]
  cases tagged? line with
  | some tag => exact .refl _
  | none =>
    cases htag with
    | none => exact .refl _
    | @some p q hp =>
      obtain ⟨name, ls⟩ := p
      obtain ⟨name', ls'⟩ := q
      obtain ⟨rfl, hempty, hjoin⟩ := hp
      refine ⟨rfl, .some ⟨rfl, by simp, ?_⟩⟩
      have hsame : ls'.isEmpty = ls.isEmpty := by
        rw [Bool.eq_iff_iff, List.isEmpty_iff, List.isEmpty_iff]
        exact hempty
      show joinWith [' '] (ls' ++ [line]) = joinWith [' '] (ls ++ [line])
      rw [joinWith_concat, joinWith_concat, hsame, show joinWith [' '] ls' = _ from hjoin]

theorem Same.foldl (h : Same d d') (ls : List Text) :
    Same (ls.foldl Draft.read d) (ls.foldl Draft.read d') := by
  induction ls generalizing d d' with
  | nil => exact h
  | cons l ls ih => exact ih (h.read l)

theorem tagged?_cons (c : Char) (t : Text) :
    tagged? (c :: t) = if c = '@' ∨ c = '\\' then some t else none := by
  by_cases hat : c = '@'
  · subst hat
    rfl
  · by_cases hslash : c = '\\'
    · subst hslash
      rfl
    · simp [tagged?, Text.after?, List.isPrefixOf, Ne.symm hat, Ne.symm hslash, hat, hslash]

theorem tagged?_append (hne : a ≠ []) (t : Text) : tagged? (a ++ t) = (tagged? a).map (· ++ t) := by
  obtain ⟨c, rest, rfl⟩ := List.exists_cons_of_ne_nil hne
  rw [List.cons_append, tagged?_cons, tagged?_cons]
  split <;> rfl

/-- Whether a trimmed line starts a tag. -/
theorem isSome_tagged?_trim (t : Text) : (tagged? t.trim).isSome = true ↔ t.StartsTag := by
  rw [Text.StartsTag, ← Text.head?_trim]
  cases t.trim with
  | nil => simp [tagged?, Text.after?, List.isPrefixOf]
  | cons c rest =>
    rw [tagged?_cons, List.head?_cons, Option.some_inj, Option.some_inj]
    split
    · next h => simp [h]
    · next h => simp [h]

/-- A tag that is open stays open or gives way to another one. -/
theorem isSome_openTag_foldl
    (h : d.openTag.isSome = true ∨ ∃ l ∈ ls, (tagged? l).isSome = true) :
    (ls.foldl read d).openTag.isSome = true := by
  have hread : ∀ (d : Draft) (l : Text), d.openTag.isSome = true ∨ (tagged? l).isSome = true →
      (d.read l).openTag.isSome = true := by
    intro d l h
    unfold read
    cases ht : tagged? l with
    | some tag => rfl
    | none =>
      rw [ht] at h
      cases ho : d.openTag with
      | some p => rfl
      | none => simp [ho] at h
  induction ls generalizing d with
  | nil => simpa using h
  | cons l ls ih =>
    refine ih ?_
    rcases h with h | ⟨u, hu, htag⟩
    · exact .inl (hread d l (.inl h))
    · rcases List.mem_cons.mp hu with rfl | hu
      · exact .inl (hread d u (.inr htag))
      · exact .inr ⟨u, hu, htag⟩

/-- **Two lines of a tag and their join** say the same. -/
theorem read_read (ha : a.trimEnd = a) (hne : a ≠ []) (hb : b.trim = b) (hbne : b ≠ [])
    (hbtag : tagged? b = none) (htag : d.openTag.isSome = true ∨ (tagged? a).isSome = true) :
    Same ((d.read a).read b) (d.read (a ++ ' ' :: b)) := by
  have hjoined := tagged?_append hne (' ' :: b)
  unfold read
  rw [hbtag, hjoined]
  cases ht : tagged? a with
  | some tag =>
    -- the first line starts the tag, perhaps with nothing behind its name
    have hend : tag.trimEnd = tag := by
      obtain ⟨c, rest, rfl⟩ := List.exists_cons_of_ne_nil hne
      rw [tagged?_cons] at ht
      split at ht
      · obtain rfl := Option.some.inj ht
        exact Text.trimEnd_of_suffix ha (List.suffix_cons c rest)
      · cases ht
    simp only [Option.map_some, Text.splitWord_joined hend hb hbne]
    refine ⟨rfl, .some ⟨rfl, ?_, ?_⟩⟩
    · cases (Text.splitWord tag).2.isEmpty <;> simp [hbne]
    · cases hword : (Text.splitWord tag).2 with
      | nil => simp [hbne]
      | cons c rest => simpa [hbne] using (joinWith_pair [] (c :: rest) b).symm
  | none =>
    rw [ht] at htag
    cases ho : d.openTag with
    | none => simp [ho] at htag
    | some p =>
      obtain ⟨name, ls⟩ := p
      exact ⟨rfl, .some ⟨rfl, by simp, (joinWith_pair ls a b).symm⟩⟩

end Draft

/-! ## Comments -/

variable {pre post : List Text} {a b : Text}

theorem spokenLines_append (ts us : List Text) :
    spokenLines (ts ++ us) = spokenLines ts ++ spokenLines us := by
  rw [spokenLines, List.map_append, List.filter_append, spokenLines, spokenLines]

theorem spokenLines_cons (h : a.trim ≠ []) (ts : List Text) :
    spokenLines (a :: ts) = a.trim :: spokenLines ts := by
  rw [spokenLines, List.map_cons, List.filter_cons_of_pos (by simp [h]), spokenLines]

theorem trim_joined_trim (ha : a.trim ≠ []) (hb : b.trim ≠ []) :
    Text.trim (a.trim ++ ' ' :: b.trim) = a.trim ++ ' ' :: b.trim := by
  rw [Text.trim_joined (Text.trimEnd_trim a) (Text.trim_trim b) hb, Text.trim_trim,
    if_neg (by simpa using ha)]

/-- The lines that are read of a comment in which two lines are joined. -/
theorem contentLines_joined (h : ∀ t ∈ pre ++ a :: b :: post, t.IsPlainLine) (ha : a.trim ≠ [])
    (hb : b.trim ≠ []) :
    contentLines (marked "///".toList (pre ++ (a.trim ++ ' ' :: b.trim) :: post))
      = spokenLines pre ++ (a.trim ++ ' ' :: b.trim) :: spokenLines post := by
  have htrim := trim_joined_trim ha hb
  rw [contentLines_marked _ (by decide), spokenLines_append,
    spokenLines_cons (by rw [htrim]; simp), htrim]
  intro t ht
  rcases List.mem_append.mp ht with ht | ht
  · exact h t (by simp [ht])
  · rcases List.mem_cons.mp ht with rfl | ht
    · exact (h a (by simp)).joined (h b (by simp)) ha
    · exact h t (by simp [ht])

/-- Behind a line that starts a tag there is an open tag. -/
theorem isSome_openTag_spokenLines {ts : List Text} (d : Draft) (h : ∃ t ∈ ts, t.StartsTag) :
    ((spokenLines ts).foldl Draft.read d).openTag.isSome = true := by
  obtain ⟨t, ht, htag⟩ := h
  have htagged := (Draft.isSome_tagged?_trim t).mpr htag
  refine Draft.isSome_openTag_foldl (.inr ⟨t.trim, ?_, htagged⟩)
  refine List.mem_filter.mpr ⟨List.mem_map_of_mem ht, ?_⟩
  cases hn : t.trim with
  | nil =>
    rw [hn] at htagged
    cases htagged
  | cons c rest => rfl

/-- **Wrapping the text of a tag does not change its meaning.**  If a line behind a tag, or behind
lines that continue one, starts no tag itself, it can be joined to the line in front of it. -/
theorem read?_wrapped (h : ∀ t ∈ pre ++ a :: b :: post, t.IsPlainLine) (ha : a.trim ≠ [])
    (hb : b.trim ≠ []) (hbtag : ¬b.StartsTag) (htag : ∃ t ∈ pre ++ [a], t.StartsTag) :
    read? (marked "///".toList (pre ++ (a.trim ++ ' ' :: b.trim) :: post))
      = (read? (marked "///".toList (pre ++ a :: b :: post))).map
        (withRaw (marked "///".toList (pre ++ (a.trim ++ ' ' :: b.trim) :: post))) := by
  have hlines : contentLines (marked "///".toList (pre ++ a :: b :: post))
      = spokenLines pre ++ a.trim :: b.trim :: spokenLines post := by
    rw [contentLines_marked h (by decide), spokenLines_append, spokenLines_cons ha,
      spokenLines_cons hb]
  -- a tag is open in front of the two lines, or the first one starts it
  have hopen : ((spokenLines pre).foldl Draft.read
      ⟨unread (marked "///".toList (pre ++ a :: b :: post)), none⟩).openTag.isSome = true ∨
        (Draft.tagged? a.trim).isSome = true := by
    obtain ⟨t, ht, htag⟩ := htag
    rcases List.mem_append.mp ht with ht | ht
    · exact .inl (isSome_openTag_spokenLines _ ⟨t, ht, htag⟩)
    · exact .inr ((Draft.isSome_tagged?_trim a).mpr (List.mem_singleton.mp ht ▸ htag))
  have hsame := (Draft.read_read (Text.trimEnd_trim a) ha (Text.trim_trim b) hb
    (by simpa using (Draft.isSome_tagged?_trim b).not.mpr hbtag) hopen).foldl (spokenLines post)
  rw [read?_of_lines (contentLines_joined h ha hb) (by simp), read?_of_lines hlines (by simp),
    Draft.close_foldl_unread (marked "///".toList (pre ++ a :: b :: post)), List.foldl_append,
    List.foldl_append, List.foldl_cons, List.foldl_cons, List.foldl_cons, hsame.close]
  rfl

/-- A bare tag whose text starts on the next line and goes on behind an empty one. -/
theorem read?_wrapped_returns :
    let pre : List Text := ["a".toList, "@return".toList, "".toList]
    let post : List Text := ["\\see c".toList]
    (∀ t ∈ pre ++ " the sum".toList :: "of both ".toList :: post, t.IsPlainLine) ∧
      ¬Text.StartsTag "of both ".toList ∧
      (∃ t ∈ pre ++ [" the sum".toList], t.StartsTag) ∧
      (read? (marked "///".toList (pre ++ "the sum of both".toList :: post))).bind (·.returns)
        = some "the sum of both".toList ∧
      read? (marked "///".toList (pre ++ "the sum of both".toList :: post))
        = (read? (marked "///".toList (pre ++ " the sum".toList :: "of both ".toList :: post))).map
          (withRaw (marked "///".toList (pre ++ "the sum of both".toList :: post))) := by
  intro pre post
  have h : ∀ t ∈ pre ++ " the sum".toList :: "of both ".toList :: post, t.IsPlainLine := by
    decide +kernel
  have hb : ¬Text.StartsTag "of both ".toList := by decide +kernel
  have htag : ∃ t ∈ pre ++ [" the sum".toList], t.StartsTag := by decide +kernel
  exact ⟨h, hb, htag, by decide +kernel,
    read?_wrapped h (by decide +kernel) (by decide +kernel) hb htag⟩

end DocComment
end HeaderOutline
