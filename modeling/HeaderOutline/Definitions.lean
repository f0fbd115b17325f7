import HeaderOutline.Text.Basic

/-! # Macro definitions

The macros defined so far.  A name has at most one definition, the latest.  An
object-like macro stands for its value; where the value is itself the name of a
macro, that one is looked up in turn, until a name comes up for the second time.
-/
namespace HeaderOutline

/-- A macro: its name, its value, and the names of its parameters if it takes any. -/
structure Definition where
  name : Text
  value : Text
  params : Option (List Text)
deriving DecidableEq, Repr

namespace Definition

/-- A macro that takes no parameters. -/
def object (name value : Text) : Definition := ⟨name, value, none⟩

/-- Whether a macro takes parameters. -/
def isFunctionLike (d : Definition) : Bool := d.params.isSome

end Definition

/-- Macros in the order in which their names were first defined. -/
structure Definitions where
  entries : List Definition
deriving DecidableEq, Repr

namespace Definitions

/-- No macro at all. -/
def empty : Definitions := ⟨[]⟩

/-- A definition in the place of an earlier one of its name, or at the end. -/
def put (d : Definition) : List Definition → List Definition
  | [] => [d]
  | e :: rest => if e.name == d.name then d :: rest else e :: put d rest

/-- The macros with one more definition. -/
def define (ds : Definitions) (d : Definition) : Definitions := ⟨put d ds.entries⟩

/-- The definition of a name. -/
def get? (ds : Definitions) (name : Text) : Option Definition :=
  ds.entries.find? (·.name == name)

theorem find?_put (d : Definition) (name : Text) (entries : List Definition) :
    (put d entries).find? (·.name == name) =
      if d.name = name then some d else entries.find? (·.name == name) := by
  induction entries with
  | nil => by_cases h : d.name = name <;> simp [put, h]
  | cons e rest ih =>
    by_cases he : e.name = d.name
    · rw [put, if_pos (by simp [he])]
      by_cases hd : d.name = name
      · rw [if_pos hd, List.find?_cons_of_pos (by simp [hd])]
      · rw [if_neg hd, List.find?_cons_of_neg (by simp [hd]),
          List.find?_cons_of_neg (by simp [he, hd])]
    · rw [put, if_neg (by simp [he])]
      by_cases hn : e.name = name
      · rw [List.find?_cons_of_pos (by simp [hn]), List.find?_cons_of_pos (by simp [hn]),
          if_neg fun h => he (hn.trans h.symm)]
      · rw [List.find?_cons_of_neg (by simp [hn]), List.find?_cons_of_neg (by simp [hn]), ih]

/-- A name has the definition that it got last. -/
theorem get?_define (ds : Definitions) (d : Definition) (name : Text) :
    (ds.define d).get? name = if d.name = name then some d else ds.get? name :=
  find?_put d name ds.entries

/-- A table has one macro more than another, or another macro of that name, and tells the same of
every other name. -/
def Gains (ds : Definitions) (d : Definition) (ds' : Definitions) : Prop :=
  ∀ name, ds'.get? name = if d.name = name then some d else ds.get? name

theorem gains_define (ds : Definitions) (d : Definition) : ds.Gains d (ds.define d) :=
  get?_define ds d

/-- Whether a name is defined. -/
def contains (ds : Definitions) (name : Text) : Bool := (ds.get? name).isSome

/-- The number of names. -/
def size (ds : Definitions) : Nat := ds.entries.length

/-- The definitions in the order of their names. -/
def sorted (ds : Definitions) : List Definition :=
  ds.entries.mergeSort fun a b => a.name.precedes b.name

/-- What a name stands for after the names seen so far.  A name that is not defined,
takes parameters or was seen before stands for itself; `steps` bounds the number of
names that can still come up. -/
def follow (ds : Definitions) : (steps : Nat) → (seen : List Text) → (name : Text) → Text
  | 0, _, name => name
  | steps + 1, seen, name =>
    if seen.contains name then name
    else match ds.get? name with
      | none => name
      | some d =>
        if d.isFunctionLike then name
        else if ds.contains d.value then follow ds steps (name :: seen) d.value
        else d.value

/-- What a name stands for: among the defined names, one must come up again after as
many steps as there are names. -/
def resolve (ds : Definitions) (name : Text) : Text := ds.follow (ds.size + 1) [] name

end Definitions
end HeaderOutline
