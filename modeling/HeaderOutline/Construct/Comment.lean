import HeaderOutline.Construct.Basic
import HeaderOutline.Doc.Reading

/-! # Comments

A documentation comment belongs to what comes next; lines of documentation that
follow each other may count as one comment.  Any other comment is an entity of its
own, named for its first words.
-/
namespace HeaderOutline.Construct.Comment

/-- Whether all characters of a word are stars and slashes. -/
def isDecoration (word : Text) : Bool := word.all fun c => c == '*' || c == '/'

/-- The text of a comment without the marks around it. -/
def content (text : Text) : Text :=
  (match text.after? "//".toList with
    | some rest => rest
    | none => text.dropLead "/*".toList).dropTail "*/".toList

/-- The name of a comment: its first three words, from which first the colons at either end
are removed and then the blanks. -/
def name (text : Text) : Text :=
  let words := ((content text).words.filter (!isDecoration ·)).take 3
  let name := ((Text.joinWith [' '] words).strip (· == ':')).trim
  if name.isEmpty then "comment".toList else name

/-- The mark that opens a line of documentation, if it is one. -/
def lineMark? (text : Text) : Option Text :=
  ["///".toList, "//!".toList].find? (·.isPrefixOf text)

/-- The line of documentation with the given mark that the next line consists of, and the
tokens after it. -/
def nextLine? (mark : Text) (rest : List Token) : Option (Token × List Token) :=
  match Tokens.eat? .newline (Tokens.skipSpace rest) with
  | some line =>
    match Tokens.skipSpace line with
    | t :: after =>
      if t.kind == .docComment && mark.isPrefixOf t.text then some (t, after) else none
    | [] => none
  | none => none

/-- The next line of documentation stands behind the end of this one. -/
theorem nextLine?_eq_some {mark : Text} {ts after : List Token} {t : Token}
    (h : nextLine? mark ts = some (t, after)) :
    ∃ line, Tokens.eat? .newline (Tokens.skipSpace ts) = some line
      ∧ Tokens.skipSpace line = t :: after := by
  unfold nextLine? at h
  split at h
  · next line hl =>
    refine ⟨line, hl, ?_⟩
    split at h
    · next hs =>
      split at h
      · obtain ⟨rfl, rfl⟩ := by simpa using h
        exact hs
      · simp at h
    · simp at h
  · simp at h

theorem nextLine?_kind {mark : Text} {ts after : List Token} {t : Token}
    (h : nextLine? mark ts = some (t, after)) : t.kind = .docComment := by
  unfold nextLine? at h
  split at h
  · split at h
    · split at h
      · next hd =>
        obtain ⟨rfl, rfl⟩ := by simpa using h
        exact (by simpa using hd : _ ∧ _).1
      · cases h
    · cases h
  · cases h

theorem nextLine?_suffix {mark : Text} {ts after : List Token} {t : Token}
    (h : nextLine? mark ts = some (t, after)) : t :: after <:+ ts := by
  obtain ⟨line, hl, hs⟩ := nextLine?_eq_some h
  exact ((hs ▸ Tokens.skipSpace_suffix line).trans (Tokens.eat?_suffix hl)).trans
    (Tokens.skipSpace_suffix ts)

theorem nextLine?_length_lt {mark : Text} {ts after : List Token} {t : Token}
    (h : nextLine? mark ts = some (t, after)) : after.length < ts.length :=
  (nextLine?_suffix h).length_le

/-- The lines of documentation with a mark that follow each other, put after the text
read so far, with the last token of all. -/
def mergeLines (mark raw : Text) (last : Token) (rest : List Token) :
    Text × Token × List Token :=
  match _h : nextLine? mark rest with
  | some (t, after) => mergeLines mark (raw ++ '\n' :: t.text) t after
  | none => (raw, last, rest)
termination_by rest.length
decreasing_by exact nextLine?_length_lt _h

theorem mergeLines_suffix (mark raw : Text) (last : Token) (rest : List Token) :
    (mergeLines mark raw last rest).2.2 <:+ rest := by
  fun_induction mergeLines mark raw last rest with
  | case1 _ _ _ t after h ih =>
    exact ih.trans ((List.suffix_cons t after).trans (nextLine?_suffix h))
  | case2 => exact List.suffix_rfl

/-- A documentation comment with its place. -/
def documentation (raw : Text) (first last : Token) : Option DocComment :=
  (DocComment.read? raw).map fun d => { d with span := some (.between first last) }

/-- Reads a comment; `merge` says whether lines of documentation are taken together. -/
def read (merge : Bool) (t : Token) (rest : List Token) : Outcome :=
  if t.kind == .docComment then
    match if merge then lineMark? t.text else none with
    | some mark =>
      let (raw, last, after) := mergeLines mark t.text t rest
      .read (.documentation (documentation raw t last)) after
    | none => .read (.documentation (documentation t.text t t)) rest
  else .read (.entity (.simple (.plain .comment) (name t.text) t.text (.between t t))) rest

theorem read_rest_suffix (merge : Bool) (t : Token) (rest : List Token) :
    (read merge t rest).rest <:+ rest := by
  unfold read
  split
  · split
    · exact mergeLines_suffix ..
    · exact List.suffix_rfl
  · exact List.suffix_rfl

end HeaderOutline.Construct.Comment
