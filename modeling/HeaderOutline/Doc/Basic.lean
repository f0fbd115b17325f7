import HeaderOutline.Position

/-! # Documentation comments

What a documentation comment says, field by field, beside the comment as it is
written.  Parameters and tags of other names keep the order in which they first
appear.
-/
namespace HeaderOutline

/-- Keys and values in the order in which the keys first appear. -/
abbrev Entries := List (Text × Text)

namespace Entries

/-- Gives a key a value: in its old place if it has one, else at the end. -/
def put (key value : Text) : Entries → Entries
  | [] => [(key, value)]
  | (k, v) :: rest => if k == key then (k, value) :: rest else (k, v) :: put key value rest

/-- The value of a key. -/
def get? (entries : Entries) (key : Text) : Option Text := entries.lookup key

theorem get?_cons (j value : Text) (entries : Entries) (k : Text) :
    get? ((j, value) :: entries) k = if k = j then some value else get? entries k := by
  by_cases h : k = j
  · subst h
    simp [get?]
  · have hb : (k == j) = false := beq_false_of_ne h
    simp [get?, List.lookup_cons, hb, h]

/-- A key has the value that it got last. -/
theorem get?_put (key value : Text) (entries : Entries) (k : Text) :
    (put key value entries).get? k = if k = key then some value else entries.get? k := by
  induction entries with
  | nil => exact get?_cons key value [] k
  | cons e rest ih =>
    obtain ⟨j, v⟩ := e
    by_cases hj : j = key
    · rw [put, if_pos (by simp [hj]), get?_cons, get?_cons, hj]
      split <;> rfl
    · rw [put, if_neg (by simp [hj]), get?_cons, get?_cons, ih]
      by_cases hk : k = j
      · rw [if_pos hk, if_pos hk, if_neg fun h => hj (hk.symm.trans h)]
      · rw [if_neg hk, if_neg hk]

theorem put_ne_nil (key value : Text) (entries : Entries) : put key value entries ≠ [] := by
  cases entries with
  | nil => simp [put]
  | cons e rest => unfold put; split <;> simp

end Entries

/-- A documentation comment. -/
structure DocComment where
  /-- The comment as it is written. -/
  raw : Text
  brief : Option Text
  detailed : Option Text
  params : Entries
  returns : Option Text
  throws : List Text
  since : Option Text
  deprecatedNote : Option Text
  see : List Text
  author : Option Text
  version : Option Text
  defgroup : Option Text
  ingroup : List Text
  addtogroup : Option Text
  file : Option Text
  namespaceName : Option Text
  className : Option Text
  /-- Tags of other names. -/
  customTags : Entries
  /-- The place of the comment, if it was found in a header. -/
  span : Option Span
deriving DecidableEq, Repr

namespace DocComment

/-- A comment of which nothing has been read. -/
def unread (raw : Text) : DocComment where
  raw := raw
  brief := none
  detailed := none
  params := []
  returns := none
  throws := []
  since := none
  deprecatedNote := none
  see := []
  author := none
  version := none
  defgroup := none
  ingroup := []
  addtogroup := none
  file := none
  namespaceName := none
  className := none
  customTags := []
  span := none

/-- What is said about a parameter. -/
def param? (d : DocComment) (name : Text) : Option Text := d.params.get? name

/-- The text of a tag of another name. -/
def customTag? (d : DocComment) (name : Text) : Option Text := d.customTags.get? name

/-- Whether no field but the raw text says anything. -/
def isEmpty (d : DocComment) : Bool :=
  d.brief.isNone && d.detailed.isNone && d.params.isEmpty && d.returns.isNone
    && d.throws.isEmpty && d.since.isNone && d.deprecatedNote.isNone && d.see.isEmpty
    && d.author.isNone && d.version.isNone && d.defgroup.isNone && d.ingroup.isEmpty
    && d.addtogroup.isNone && d.file.isNone && d.namespaceName.isNone && d.className.isNone
    && d.customTags.isEmpty

/-- Whether the comment carries a deprecation note. -/
def isDeprecated (d : DocComment) : Bool := d.deprecatedNote.isSome

end DocComment
end HeaderOutline
