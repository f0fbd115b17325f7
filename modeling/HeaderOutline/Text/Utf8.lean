import HeaderOutline.Text.Basic

/-! # Decoding

Bytes become text by UTF-8.  Bytes that belong to no character are not refused:
each longest run of them that could still have opened a character, and each
byte that could not, is read as one replacement character.
-/
namespace HeaderOutline.Utf8

/-- The character that stands for bytes that cannot be decoded. -/
def replacement : Char := '\uFFFD'

/-- Where a character may go on after its first byte: how many bytes follow, and
the least and the greatest value of the first of them. -/
structure Lead where
  count : Nat
  least : Nat
  greatest : Nat
deriving DecidableEq, Repr

/-- What a first byte outside ASCII asks for, if it can open a character. -/
def Lead.ofByte? (b : Nat) : Option Lead :=
  if b < 0xC2 then none
  else if b < 0xE0 then some ⟨1, 0x80, 0xBF⟩
  else if b = 0xE0 then some ⟨2, 0xA0, 0xBF⟩
  else if b = 0xED then some ⟨2, 0x80, 0x9F⟩
  else if b < 0xF0 then some ⟨2, 0x80, 0xBF⟩
  else if b = 0xF0 then some ⟨3, 0x90, 0xBF⟩
  else if b < 0xF4 then some ⟨3, 0x80, 0xBF⟩
  else if b = 0xF4 then some ⟨3, 0x80, 0x8F⟩
  else none

/-- The bits of the code point that a first byte holds. -/
def Lead.bits (l : Lead) (b : Nat) : Nat := b % Nat.pow 2 (6 - l.count)

/-- Reads `n` more bytes of a character, the first of them within the bounds, onto
the bits read so far.  What remains starts after the bytes that fit. -/
def following : (n least greatest bits : Nat) → List UInt8 → Char × List UInt8
  | 0, _, _, bits, bs => (Char.ofNat bits, bs)
  | _ + 1, _, _, _, [] => (replacement, [])
  | n + 1, least, greatest, bits, b :: bs =>
    if least ≤ b.toNat ∧ b.toNat ≤ greatest then
      following n 0x80 0xBF (bits * 64 + b.toNat % 64) bs
    else (replacement, b :: bs)

/-- The character that a first byte opens, and the bytes after it. -/
def decodeOne (b : UInt8) (bs : List UInt8) : Char × List UInt8 :=
  if b.toNat < 0x80 then (Char.ofNat b.toNat, bs)
  else match Lead.ofByte? b.toNat with
    | none => (replacement, bs)
    | some l => following l.count l.least l.greatest (l.bits b.toNat) bs

theorem following_length_le (n least greatest bits : Nat) (bs : List UInt8) :
    (following n least greatest bits bs).2.length ≤ bs.length := by
  induction n generalizing least greatest bits bs with
  | zero => simp [following]
  | succ n ih =>
    cases bs with
    | nil => simp [following]
    | cons b bs =>
      unfold following
      split
      · exact Nat.le_succ_of_le (ih ..)
      · exact Nat.le_refl _

theorem decodeOne_length_le (b : UInt8) (bs : List UInt8) :
    (decodeOne b bs).2.length ≤ bs.length := by
  unfold decodeOne
  split
  · exact Nat.le_refl _
  · split
    · exact Nat.le_refl _
    · exact following_length_le ..

/-- Decodes bytes after a text already decoded, which is held in reverse. -/
def decodeOnto (done : Text) : List UInt8 → Text
  | [] => done.reverse
  | b :: bs => decodeOnto ((decodeOne b bs).1 :: done) (decodeOne b bs).2
termination_by bs => bs.length
decreasing_by exact Nat.lt_succ_of_le (decodeOne_length_le b bs)

/-- The text of a sequence of bytes. -/
def decode (bs : List UInt8) : Text := decodeOnto [] bs

end HeaderOutline.Utf8
