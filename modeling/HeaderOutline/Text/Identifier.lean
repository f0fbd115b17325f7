import HeaderOutline.Text.Blank

/-! # Identifier characters

An identifier opens with an underscore or a character of `XID_Start` and goes on
with characters of `XID_Continue`, to which the underscore belongs.  ASCII is the
same in every version of Unicode; which other characters have the two properties
is a matter of the version, so that they are a parameter of all that is cut into
tokens (`Alphabet`).
-/
namespace HeaderOutline

/-- The characters beyond ASCII that identifiers are made of, by some version of
Unicode.  Nothing is known of them but that they hold no blank and not the byte
order mark. -/
class Alphabet where
  /-- Whether a character beyond ASCII has the property `XID_Start`. -/
  starts : Char → Bool
  /-- Whether a character beyond ASCII has the property `XID_Continue`. -/
  continues : Char → Bool
  continues_of_starts : ∀ c, starts c = true → continues c = true
  continues_of_isBlank : ∀ c, Text.isBlank c = true → continues c = false
  continues_mark : continues '\uFEFF' = false

namespace Text

variable {c : Char}

/-- Whether a character may open an identifier. -/
def opensIdentifier [Alphabet] (c : Char) : Bool :=
  if c.toNat < 0x80 then c.isAlpha || c == '_' else Alphabet.starts c

/-- Whether a character may continue an identifier. -/
def continuesIdentifier [Alphabet] (c : Char) : Bool :=
  if c.toNat < 0x80 then c.isAlphanum || c == '_' else Alphabet.continues c

/-- A character that opens an identifier may also continue one. -/
theorem continuesIdentifier_of_opens [Alphabet] (h : opensIdentifier c = true) :
    continuesIdentifier c = true := by
  unfold opensIdentifier at h
  unfold continuesIdentifier
  split at h
  · next hascii =>
    rw [if_pos hascii, Char.isAlphanum]
    rcases Bool.or_eq_true_iff.mp h with h | h <;> simp [h]
  · next hascii =>
    rw [if_neg hascii]
    exact Alphabet.continues_of_starts c h

/-- A letter of ASCII opens an identifier. -/
theorem opensIdentifier_of_isAlpha [Alphabet] (h : c.isAlpha = true) :
    opensIdentifier c = true := by
  have hascii : c.toNat < 0x80 := by
    have hcases : (c.isUpper || c.isLower) = true := h
    rcases Bool.or_eq_true_iff.mp hcases with hupper | hlower
    · have hle : c.val ≤ 90 := (of_decide_eq_true hupper).2
      exact Nat.lt_of_le_of_lt (UInt32.le_iff_toNat_le.mp hle) (by decide)
    · have hle : c.val ≤ 122 := of_decide_eq_true (Bool.and_eq_true_iff.mp hlower).2
      exact Nat.lt_of_le_of_lt (UInt32.le_iff_toNat_le.mp hle) (by decide)
  rw [opensIdentifier, if_pos hascii, h, Bool.true_or]

/-- The byte order mark belongs to no identifier. -/
theorem continuesIdentifier_mark [Alphabet] : continuesIdentifier '\uFEFF' = false :=
  Alphabet.continues_mark

theorem opensIdentifier_mark [Alphabet] : opensIdentifier '\uFEFF' = false := by
  rw [← Bool.not_eq_true]
  intro h
  cases (continuesIdentifier_of_opens h).symm.trans continuesIdentifier_mark

end Text
end HeaderOutline
