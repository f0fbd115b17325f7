import HeaderOutline.Text.Identifier
import HeaderOutline.Text.Table.IdentifierStart
import HeaderOutline.Text.Table.IdentifierPart

/-! # The identifier characters of one version of Unicode

The tables of `XID_Start` and of what `XID_Continue` adds to it, as an alphabet.
-/
namespace HeaderOutline

/-- The alphabet of the tables. -/
instance Alphabet.tables : Alphabet where
  starts := Text.covers Text.identifierStartTable
  continues c := Text.covers Text.identifierStartTable c || Text.covers Text.identifierPartTable c
  continues_of_starts c h := by rw [h, Bool.true_or]
  continues_of_isBlank _ h := Text.eq_false_of_isBlank (p := fun c =>
    Text.covers Text.identifierStartTable c || Text.covers Text.identifierPartTable c)
    (by decide +kernel) h
  continues_mark := by decide +kernel

end HeaderOutline
