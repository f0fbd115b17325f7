import HeaderOutline.Proofs.LineIndex
import Mathlib.Data.List.DropRight
import Mathlib.Data.Prod.Lex

/-! # Places in the order of the text

A boundary is an offset at which a beginning of a text ends, so no character is cut there.  The line
index counts the line feeds in front of a boundary and the characters behind the last of them
(`LineIndex.lineColumn_size`).  A longer beginning goes on in the same line or comes to a later one,
so that lines and columns are ordered as the offsets are (`LineIndex.lineColumn_lt`), and a span,
which compares lines and columns alone, contains what lies between its ends
(`LineIndex.order_of_boundaries`).
-/
namespace HeaderOutline

/-- An offset between two characters of a text, or at one of its ends. -/
def Text.IsBoundary (t : Text) (n : Nat) : Prop := ∃ s : Text, s <+: t ∧ s.size = n

/-- The characters behind the last line feed of a text. -/
def Text.lastLine (t : Text) : Text := t.rtakeWhile (· != '\n')

/-- A line and a column come before others: in an earlier line, or in an earlier column of the same
line. -/
def Position.Earlier (p q : Nat × Nat) : Prop := Prod.Lex (· < ·) (· < ·) p q

theorem Position.earlier_iff {p q : Nat × Nat} :
    Earlier p q ↔ p.1 < q.1 ∨ p.1 = q.1 ∧ p.2 < q.2 :=
  Prod.lex_def

namespace Text

variable {s t : Text} {a b : Nat}

theorem lastLine_of_notMem (h : '\n' ∉ t) : t.lastLine = t := by
  refine List.rtakeWhile_eq_self_iff.mpr fun c hc => bne_iff_ne.mpr ?_
  rintro rfl
  exact h hc

theorem lastLine_append_newline (s : Text) (h : '\n' ∉ t) : (s ++ ['\n'] ++ t).lastLine = t := by
  have hrest : ∀ c ∈ t.reverse, (c != '\n') = true := fun c hc => bne_iff_ne.mpr fun hn =>
    h (hn ▸ List.mem_reverse.mp hc)
  have hstop : (s ++ ['\n']).reverse.takeWhile (· != '\n') = [] := by
    rw [List.reverse_append, List.reverse_singleton, List.singleton_append,
      List.takeWhile_cons_of_neg (by simp)]
  rw [lastLine, List.rtakeWhile, List.reverse_append, List.takeWhile_append_of_pos hrest, hstop,
    List.append_nil, List.reverse_reverse]

/-- Of two beginnings of a text the smaller one is a beginning of the other one. -/
theorem exists_between (ha : t.IsBoundary a) (hb : t.IsBoundary b) (h : a < b) :
    ∃ s m u : Text, t = s ++ m ++ u ∧ s.size = a ∧ (s ++ m).size = b ∧ m ≠ [] := by
  obtain ⟨s, hs, rfl⟩ := ha
  obtain ⟨s', hs', rfl⟩ := hb
  rcases List.prefix_or_prefix_of_prefix hs hs' with hp | ⟨m, rfl⟩
  · obtain ⟨m, rfl⟩ := hp
    obtain ⟨u, rfl⟩ := hs'
    refine ⟨s, m, u, rfl, rfl, rfl, ?_⟩
    rintro rfl
    rw [List.append_nil] at h
    exact Nat.lt_irrefl _ h
  · rw [size_append] at h
    omega

end Text

namespace LineIndex

open Position (Earlier)

variable {t : Text} {a b : Nat}

/-- **The line of a boundary** is one more than the line feeds in front of it, and its column one
more than the characters behind the last of them. -/
theorem lineColumn_size (s u : Text) :
    (ofText (s ++ u)).lineColumn (s ++ u) s.size = (s.count '\n' + 1, s.lastLine.length + 1) := by
  rw [lineColumn_advance, Position.advance_line, Nat.add_comm]
  refine congrArg (Prod.mk _) ?_
  obtain ⟨whole, last, rfl, hlast, rfl | ⟨before, rfl⟩⟩ := Text.exists_lastLine s
  · rw [List.nil_append, Position.advance_column _ hlast, Text.lastLine_of_notMem hlast,
      Nat.add_comm]
    rfl
  · rw [Position.advance_column_append_line _ _ hlast, Text.lastLine_append_newline _ hlast]

/-- **Lines and columns are in the order of the boundaries.** -/
theorem lineColumn_lt (ha : t.IsBoundary a) (hb : t.IsBoundary b) (h : a < b) :
    Earlier ((ofText t).lineColumn t a) ((ofText t).lineColumn t b) := by
  obtain ⟨s, m, u, rfl, rfl, rfl, hm⟩ := Text.exists_between ha hb h
  have hfront := lineColumn_size s (m ++ u)
  rw [← List.append_assoc] at hfront
  rw [hfront, lineColumn_size, Position.earlier_iff]
  by_cases hline : '\n' ∈ m
  · left
    rw [List.count_append]
    have hpos := List.count_pos_iff.mpr hline
    omega
  · right
    -- the text in between goes on in the last line
    have hlast : (s ++ m).lastLine.length = s.lastLine.length + m.length := by
      obtain ⟨whole, last, rfl, hlast, rfl | ⟨before, rfl⟩⟩ := Text.exists_lastLine s
      · rw [List.nil_append, Text.lastLine_of_notMem hlast, Text.lastLine_of_notMem (by simp [*]),
          List.length_append]
      · rw [List.append_assoc, Text.lastLine_append_newline _ hlast,
          Text.lastLine_append_newline _ (by simp [*]), List.length_append]
    have hpos := List.length_pos_iff.mpr hm
    rw [List.count_append, List.count_eq_zero_of_not_mem hline, hlast]
    exact ⟨rfl, by omega⟩

/-- Which of two boundaries comes first can be told from their lines and columns. -/
theorem lineColumn_lt_iff (ha : t.IsBoundary a) (hb : t.IsBoundary b) :
    Earlier ((ofText t).lineColumn t a) ((ofText t).lineColumn t b) ↔ a < b := by
  refine ⟨fun h => ?_, lineColumn_lt ha hb⟩
  rcases Nat.lt_trichotomy a b with hab | rfl | hba
  · exact hab
  · exact absurd h (by simp [Position.earlier_iff])
  · have hback := lineColumn_lt hb ha hba
    rw [Position.earlier_iff] at h hback
    omega

end LineIndex

/-- A span contains what is neither before its start nor behind its end. -/
theorem Span.contains_iff (s : Span) (p : Position) :
    s.contains p = true ↔ ¬Position.Earlier (p.line, p.column) (s.start.line, s.start.column) ∧
      ¬Position.Earlier (s.stop.line, s.stop.column) (p.line, p.column) := by
  simp only [contains, Position.earlier_iff, Bool.not_eq_true', Bool.or_eq_false_iff,
    Bool.and_eq_false_iff, decide_eq_false_iff_not, beq_eq_false_iff_ne]
  omega

namespace LineIndex

/-- **The order of lines and columns is that of the offsets** between characters: the line index
counts the line feeds in front of an offset, and the characters behind the last one; a later offset
has a later line, or a later column of the same line; and a span between two offsets contains the
offsets from the one to the other. -/
theorem order_of_boundaries (t : Text) :
    (∀ s u : Text, t = s ++ u →
      (ofText t).lineColumn t s.size = (s.count '\n' + 1, s.lastLine.length + 1)) ∧
    (∀ a b, t.IsBoundary a → t.IsBoundary b → a < b →
      Position.Earlier ((ofText t).lineColumn t a) ((ofText t).lineColumn t b)) ∧
    ∀ a b p, t.IsBoundary a → t.IsBoundary b → t.IsBoundary p →
      ((Span.mk ((ofText t).position t a) ((ofText t).position t b)).contains
        ((ofText t).position t p) = true ↔ a ≤ p ∧ p ≤ b) := by
  refine ⟨?_, fun a b ha hb => lineColumn_lt ha hb, fun a b p ha hb hp => ?_⟩
  · rintro s u rfl
    exact lineColumn_size s u
  · rw [Span.contains_iff]
    have hstart := not_congr (lineColumn_lt_iff hp ha)
    have hstop := not_congr (lineColumn_lt_iff hb hp)
    exact (and_congr hstart hstop).trans (by omega)

/-- Two lines with characters of several bytes, and a span from the one into the other. -/
theorem order_of_boundaries_two_lines :
    let t : Text := "é\n€x".toList
    t.IsBoundary 2 ∧ t.IsBoundary 6 ∧ t.IsBoundary 3 ∧
      Position.Earlier ((ofText t).lineColumn t 2) ((ofText t).lineColumn t 6) ∧
      (ofText t).lineColumn t 6 = (2, 2) ∧
      (Span.mk ((ofText t).position t 2) ((ofText t).position t 6)).contains
        ((ofText t).position t 3) = true := by
  intro t
  have hfront : t.IsBoundary 2 := ⟨"é".toList, ⟨"\n€x".toList, rfl⟩, rfl⟩
  have hback : t.IsBoundary 6 := ⟨"é\n€".toList, ⟨"x".toList, rfl⟩, rfl⟩
  have hline : t.IsBoundary 3 := ⟨"é\n".toList, ⟨"€x".toList, rfl⟩, rfl⟩
  obtain ⟨hcolumn, hlt, hcontains⟩ := order_of_boundaries t
  exact ⟨hfront, hback, hline, hlt 2 6 hfront hback (by decide),
    hcolumn "é\n€".toList "x".toList rfl, (hcontains 2 6 3 hfront hback hline).mpr (by decide)⟩

end LineIndex
end HeaderOutline
