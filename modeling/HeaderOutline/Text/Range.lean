/-! # Ranges of characters

A class of characters given by the ranges of their code points, both ends
included.
-/
namespace HeaderOutline.Text

/-- The first and the last code point of a range. -/
abbrev CodeRange := Nat × Nat

/-- Whether a character lies in one of the ranges. -/
def covers (table : List CodeRange) (c : Char) : Bool :=
  table.any fun r => r.1 ≤ c.toNat && c.toNat ≤ r.2

end HeaderOutline.Text
