import HeaderOutline.Proofs.LineIndex
import HeaderOutline.Proofs.Relocation.Run
import HeaderOutline.Proofs.Returns.Scan

/-! # Tokens behind whole lines

A text that ends with a line feed is cut into the same lexemes whatever follows it
(`Lexeme.Cuts.sequel`), and what follows it starts in the first column.  So the tokens of a text
behind such a one are those of the text alone, some lines and bytes further on
(`Token.scan_append`).  Being moved in that way is a relocation which keeps every token
(`Relocation.behind`).
-/
namespace HeaderOutline

/-! ## Places behind whole lines -/

namespace Position

/-- A place of a text that stands behind the whole lines of another one. -/
def behind (a : Text) (p : Position) : Position :=
  ⟨p.line + a.count '\n', p.column, p.offset + a.size⟩

theorem behind_after (a : Text) (p : Position) (c : Char) :
    (p.behind a).after c = (p.after c).behind a := by
  unfold after
  split
  · simp only [behind, mk.injEq, true_and]
    omega
  · simp only [behind, mk.injEq, true_and]
    omega

/-- A piece of text leads on behind whole lines as it does elsewhere. -/
theorem behind_advance (a : Text) (p : Position) (t : Text) :
    (p.behind a).advance t = (p.advance t).behind a := by
  induction t generalizing p with
  | nil => rfl
  | cons c t ih => rw [advance_cons, advance_cons, behind_after, ih]

/-- The lines of a text lead to the place behind them. -/
theorem origin_behind (front : Text) :
    origin.behind (front ++ ['\n']) = origin.advance (front ++ ['\n']) := by
  have hline := advance_line origin (front ++ ['\n'])
  have hcolumn := advance_column_append_line origin front (t := []) List.not_mem_nil
  have hoffset := advance_offset origin (front ++ ['\n'])
  rw [List.append_nil] at hcolumn
  rw [behind, ← hline, ← hoffset, show origin.column = _ from hcolumn.symm]

end Position

namespace Relocation

/-- What becomes of a text that is put behind the whole lines of another one. -/
def behind (a : Text) : Relocation where
  token t := { t with start := t.start.behind a }
  place := Position.behind a
  offset n := n + a.size
  kind_token _ := rfl
  start_token _ := rfl
  text_token _ := rfl
  isPrefixOf_text_token _ _ := rfl
  place_offset _ := rfl

theorem keeps_behind (a : Text) (t : Token) : (behind a).Keeps t :=
  ⟨rfl, Position.behind_advance a t.start t.text⟩

end Relocation

/-! ## Lexemes behind whole lines -/

namespace Lexeme

variable {a b : Text} {x : Lexeme} {xs : List Lexeme}

/-- Only a line feed ends a line. -/
theorem Cuts.newline [Alphabet] {v w : Text} (h : Cuts v [x] w) (hx : x.kind = .newline) :
    v = '\n' :: w := by
  cases h with
  | @next c cs _ _ more =>
    obtain rfl : w = (Lexeme.next c cs).2 := by simpa using more.append_eq
    rcases kind_cases c cs with rfl | hk | ⟨hk, -⟩
    · rfl
    · cases hx.symm.trans hk
    · rw [hx] at hk
      cases hk

/-- **What ends with a line feed is cut the same whatever follows.** -/
theorem Cuts.sequel [Alphabet] (h : Cuts a (xs ++ [x]) []) (hx : x.kind = .newline) (b : Text) :
    a = textOf xs ++ ['\n'] ∧ Cuts (a ++ b) (xs ++ [x]) b := by
  obtain ⟨v, hxs, hlast⟩ := h.split
  obtain rfl := hlast.newline hx
  have ha := hxs.append_eq
  refine ⟨ha.symm, ?_⟩
  have hline : Cuts ('\n' :: b) [x] b := by
    cases hlast with
    | next => exact .next (.none b)
  rw [← ha, List.append_assoc, List.singleton_append]
  exact (hxs.change apart_newline b).append hline

end Lexeme

namespace Token

variable {l : Limits} {a b : Text} {n : Token} {front : List Token}

theorem placed_behind (a : Text) (p : Position) (xs : List Lexeme) :
    placed (p.behind a) xs = (placed p xs).map (Relocation.behind a).token := by
  induction xs generalizing p with
  | nil => rfl
  | cons x xs ih =>
    rw [placed, placed, List.map_cons, Position.behind_advance, ih]
    rfl

/-- **The tokens of a text behind whole lines** are those of the text alone, at other places. -/
theorem scan_append [Alphabet] (ha : (scan l a).any isError = false)
    (hb : (scan l b).any isError = false) (hab : (scan l (a ++ b)).any isError = false)
    (hline : (scan l a).dropLast = front ++ [n]) (hn : n.kind = .newline) :
    (scan l (a ++ b)).dropLast
      = (scan l a).dropLast ++ (scan l b).dropLast.map (Relocation.behind a).token := by
  obtain ⟨xs, hxs, -, hatokens⟩ := exists_cuts_of_scan ha
  obtain ⟨ys, hys, -, hbtokens⟩ := exists_cuts_of_scan hb
  obtain ⟨zs, hzs, -, htokens⟩ := exists_cuts_of_scan hab
  -- the last lexeme is the line feed
  obtain ⟨lexemes, last, rfl, -, hlast⟩ := exists_of_placed_eq_append (hatokens.symm.trans hline)
  obtain ⟨x, rfl, hx⟩ : ∃ x, last = [x] ∧ x.kind = .newline := by
    rcases last with _ | ⟨x, _ | ⟨y, rest⟩⟩
    · simp [placed] at hlast
    · exact ⟨x, rfl, by rw [← hn, (List.cons.inj hlast).1]; rfl⟩
    · simp [placed] at hlast
  obtain ⟨htext, hsequel⟩ := hxs.sequel hx b
  obtain rfl := hzs.unique (hsequel.append hys)
  have hwhole : Lexeme.textOf (lexemes ++ [x]) = a := by simpa using hxs.append_eq
  have hplace : Position.origin.advance a = Position.origin.behind a := by
    rw [htext, Position.origin_behind]
  rw [htokens, hatokens, hbtokens, placed_append, hwhole, hplace, placed_behind]

end Token
end HeaderOutline
