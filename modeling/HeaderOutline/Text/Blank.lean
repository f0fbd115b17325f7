import HeaderOutline.Text.Range

/-! # Blanks

The characters of the Unicode property `White_Space`.  The byte order mark is
not among them.
-/
namespace HeaderOutline.Text

/-- The ranges of `White_Space`. -/
def blankTable : List CodeRange :=
  [(0x9, 0xD), (0x20, 0x20), (0x85, 0x85), (0xA0, 0xA0), (0x1680, 0x1680), (0x2000, 0x200A),
   (0x2028, 0x2029), (0x202F, 0x202F), (0x205F, 0x205F), (0x3000, 0x3000)]

/-- Whether a character is a blank. -/
def isBlank (c : Char) : Bool := covers blankTable c

/-- The characters that are blanks. -/
def blanks : List Char :=
  (blankTable.flatMap fun r => List.range' r.1 (r.2 + 1 - r.1)).map Char.ofNat

theorem mem_blanks {c : Char} (h : isBlank c = true) : c ∈ blanks := by
  obtain ⟨r, hr, hc⟩ := List.any_eq_true.mp h
  simp only [Bool.and_eq_true, decide_eq_true_eq] at hc
  refine List.mem_map.mpr ⟨c.toNat, List.mem_flatMap.mpr ⟨r, hr, ?_⟩, Char.ofNat_toNat c⟩
  rw [List.mem_range'_1]
  omega

/-- What holds of no character of the table holds of no blank. -/
theorem eq_false_of_isBlank {p : Char → Bool} (hp : blanks.all (!p ·) = true) {c : Char}
    (h : isBlank c = true) : p c = false := by
  simpa using List.all_eq_true.mp hp c (mem_blanks h)

end HeaderOutline.Text
