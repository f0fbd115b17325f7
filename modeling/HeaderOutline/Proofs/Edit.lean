import HeaderOutline.Proofs.Lexemes
import HeaderOutline.Proofs.Relocation.Front

/-! # Edited texts

An edit replaces a stretch of a text by another one (`Edit`).  What stands in front of the stretch
stays where it is, and what stands behind it moves by the difference of the two
(`Edit.place_before`, `Edit.place_behind`).  So lexemes on either side of it are the same tokens at
places that move as one (`Relocation.placed_moves`).
-/
namespace HeaderOutline

/-- A stretch of a text, what is around it, and the text that takes its place. -/
structure Edit where
  before : Text
  old : Text
  new : Text
  behind : Text
  old_ne_nil : old ≠ []

theorem Position.origin_advance_offset (t : Text) : (origin.advance t).offset = t.size := by
  rw [advance_offset]
  exact Nat.zero_add _

namespace Edit

variable (r : Edit)

/-- The text. -/
def source : Text := r.before ++ r.old ++ r.behind

/-- The edited text. -/
def edited : Text := r.before ++ r.new ++ r.behind

/-- The offset to which one of the text moves: those behind the start of the stretch move by the
difference of the two stretches. -/
def offset (n : Nat) : Nat := if n ≤ r.before.size then n else n + r.new.size - r.old.size

/-- The place to which one of the text moves. -/
def place (p : Position) : Position :=
  if p.offset ≤ r.before.size then p
  else
    let passed := (r.behind.slice? ⟨0, p.offset - (r.before ++ r.old).size⟩).getD []
    { Position.origin.advance (r.before ++ r.new ++ passed) with offset := r.offset p.offset }

theorem place_offset (p : Position) : (r.place p).offset = r.offset p.offset := by
  unfold place offset
  split <;> rfl

@[simp] theorem place_origin : r.place .origin = .origin := if_pos (Nat.zero_le _)

/-- In front of the stretch nothing moves. -/
theorem place_before {u : Text} (h : u <+: r.before) :
    r.place (Position.origin.advance u) = Position.origin.advance u := by
  obtain ⟨w, hw⟩ := h
  refine if_pos ?_
  rw [Position.origin_advance_offset, ← hw, Text.size_append]
  omega

theorem old_size_pos : 0 < r.old.size := by
  obtain ⟨c, cs, h⟩ := List.exists_cons_of_ne_nil r.old_ne_nil
  rw [h, Text.size_cons]
  have := Char.utf8Size_pos c
  omega

/-- Behind the stretch, a place comes behind the new text. -/
theorem place_behind {u : Text} (h : u <+: r.behind) :
    r.place (Position.origin.advance (r.before ++ r.old ++ u))
      = Position.origin.advance (r.before ++ r.new ++ u) := by
  obtain ⟨w, hw⟩ := h
  have hpos := r.old_size_pos
  have hslice : r.behind.slice? ⟨0, u.size⟩ = some u := by
    have := Text.slice?_append [] u w
    rwa [List.nil_append, hw] at this
  have hpassed : (r.before ++ r.old ++ u).size - (r.before ++ r.old).size = u.size := by
    rw [Text.size_append _ u]
    omega
  unfold place
  rw [if_neg (by simp only [Position.origin_advance_offset, Text.size_append]; omega)]
  simp only [Position.origin_advance_offset, hpassed, hslice, Option.getD_some]
  have hoff : r.offset (r.before ++ r.old ++ u).size
      = (Position.origin.advance (r.before ++ r.new ++ u)).offset := by
    unfold offset
    simp only [Position.origin_advance_offset, Text.size_append]
    rw [if_neg (by omega)]
    omega
  rw [hoff]

theorem place_end : r.place (Position.origin.advance r.source)
    = Position.origin.advance r.edited :=
  r.place_behind List.prefix_rfl

theorem offset_end : r.offset r.source.size = r.edited.size := by
  have h := congrArg Position.offset r.place_end
  rwa [place_offset, Position.origin_advance_offset, Position.origin_advance_offset] at h

/-- An edit puts tokens at other places. -/
def relocation : Relocation where
  token t := { t with start := r.place t.start }
  place := r.place
  offset := r.offset
  kind_token _ := rfl
  start_token _ := rfl
  text_token _ := rfl
  isPrefixOf_text_token _ _ := rfl
  place_offset := r.place_offset

end Edit

/-- Tokens in a stretch of a text whose places move as one. -/
theorem Relocation.placed_moves {r : Relocation} {p q : Position} {w : Text}
    (hplace : ∀ u, u <+: w → r.place (p.advance u) = q.advance u) {xs : List Lexeme} {u : Text}
    (h : u ++ Lexeme.textOf xs <+: w)
    (ht : ∀ t ∈ Token.placed (p.advance u) xs, r.token t = { t with start := r.place t.start }) :
    (∀ t ∈ Token.placed (p.advance u) xs, r.Keeps t) ∧
      (Token.placed (p.advance u) xs).map r.token = Token.placed (q.advance u) xs := by
  induction xs generalizing u with
  | nil => exact ⟨by simp [Token.placed], rfl⟩
  | cons x xs ih =>
    rw [Lexeme.textOf_cons, ← List.append_assoc] at h
    rw [Token.placed, ← Position.advance_append] at ht ⊢
    obtain ⟨hkeeps, hmap⟩ := ih h fun t hm => ht t (List.mem_cons_of_mem _ hm)
    have hfirst := ht _ List.mem_cons_self
    have hfront : u ++ x.text <+: w := (List.prefix_append ..).trans h
    have hstart := hplace u ((List.prefix_append ..).trans hfront)
    have hstop := hplace (u ++ x.text) hfront
    have hkeep : r.Keeps (Token.ofLexeme x (p.advance u)) := by
      refine ⟨by rw [hfirst], ?_⟩
      show (r.place (p.advance u)).advance x.text = r.place ((p.advance u).advance x.text)
      rw [hstart, ← Position.advance_append, ← Position.advance_append, hstop]
    have htoken : r.token (Token.ofLexeme x (p.advance u)) = Token.ofLexeme x (q.advance u) := by
      rw [hfirst, show (Token.ofLexeme x (p.advance u)).start = p.advance u from rfl, hstart]
      rfl
    rw [List.map_cons, htoken, hmap, Token.placed, ← Position.advance_append]
    exact ⟨List.forall_mem_cons.mpr ⟨hkeep, hkeeps⟩, rfl⟩

namespace Edit

variable {r : Edit} {xs ys : List Lexeme}

/-- The lexemes in front of the stretch stay where they are. -/
theorem placed_before (h : Lexeme.textOf xs = r.before) :
    (∀ t ∈ Token.placed .origin xs, r.relocation.Keeps t) ∧
      (Token.placed .origin xs).map r.relocation.token = Token.placed .origin xs :=
  Relocation.placed_moves (r := r.relocation) (p := .origin) (q := .origin) (u := [])
    (fun _ hu => r.place_before hu) (h ▸ List.prefix_rfl) fun _ _ => rfl

/-- The lexemes behind the stretch move behind the new text. -/
theorem placed_behind (h : Lexeme.textOf ys = r.behind) :
    (∀ t ∈ Token.placed (Position.origin.advance (r.before ++ r.old)) ys, r.relocation.Keeps t) ∧
      (Token.placed (Position.origin.advance (r.before ++ r.old)) ys).map r.relocation.token
        = Token.placed (Position.origin.advance (r.before ++ r.new)) ys := by
  have hplace : ∀ u, u <+: r.behind →
      r.place ((Position.origin.advance (r.before ++ r.old)).advance u)
        = (Position.origin.advance (r.before ++ r.new)).advance u := by
    intro u hu
    rw [← Position.advance_append, ← Position.advance_append]
    exact r.place_behind hu
  exact Relocation.placed_moves (r := r.relocation) (u := []) hplace (h ▸ List.prefix_rfl)
    fun _ _ => rfl

end Edit
end HeaderOutline
