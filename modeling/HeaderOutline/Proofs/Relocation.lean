import HeaderOutline.Proofs.Passed
import HeaderOutline.Proofs.Scan

/-! # Tokens at other places

A relocation puts the tokens of a header at other places, and may change the text of documentation
(`Relocation`).  What is read of the tokens stays the same, at the places that those of the header
move to, as long as no token is taken whose text changes or whose end moves otherwise than its start
does: all others are kept (`Relocation.Keeps`).
-/
namespace HeaderOutline

/-- What becomes of the tokens and the places of a header. -/
structure Relocation where
  token : Token → Token
  place : Position → Position
  /-- The offset to which one of the header moves. -/
  offset : Nat → Nat
  kind_token (t : Token) : (token t).kind = t.kind
  start_token (t : Token) : (token t).start = place t.start
  /-- Only documentation changes its text. -/
  text_token {t : Token} (h : t.kind ≠ .docComment) : (token t).text = t.text
  /-- A comment stays one that runs to the end of its line, or none. -/
  isPrefixOf_text_token (mark : Text) (t : Token) :
    ('/' :: '/' :: mark).isPrefixOf (token t).text = ('/' :: '/' :: mark).isPrefixOf t.text
  place_offset (p : Position) : (place p).offset = offset p.offset

namespace Relocation

attribute [simp] kind_token start_token place_offset

variable {r : Relocation}

theorem text_token_ident (r : Relocation) {t : Token} (h : t.kind = .ident) :
    (r.token t).text = t.text := r.text_token (by simp [h])

/-- A token keeps its text, and its end moves as its start does. -/
structure Keeps (r : Relocation) (t : Token) : Prop where
  text : (r.token t).text = t.text
  moves : (r.place t.start).advance t.text = r.place t.stop

theorem Keeps.stop {t : Token} (h : r.Keeps t) : (r.token t).stop = r.place t.stop := by
  rw [Token.stop, h.text, start_token]
  exact h.moves

/-- The stretch to which one of the header moves. -/
def span (r : Relocation) (s : Span) : Span := ⟨r.place s.start, r.place s.stop⟩

theorem Keeps.between {last : Token} (h : r.Keeps last) (first : Token) :
    Span.between (r.token first) (r.token last) = r.span (.between first last) := by
  rw [Span.between, h.stop, start_token]
  rfl

/-- All tokens that are passed are kept. -/
def KeepsTo (r : Relocation) (us rest : List Token) : Prop := ∀ t, Passed us rest t → r.Keeps t

namespace KeepsTo

variable {us vs ts rest taken : List Token} {t : Token}

/-- Tokens that are passed on the way are kept. -/
theorem part (h : r.KeepsTo us rest) (hs : ts <:+ us) (hr : rest <:+ vs) : r.KeepsTo ts vs :=
  fun t ht => h t ((ht.within hs).leave hr)

theorem mem (h : r.KeepsTo us rest) (hs : taken ++ rest <:+ us) : ∀ t ∈ taken, r.Keeps t :=
  fun t ht => h t (.of_append hs ht)

theorem head (h : r.KeepsTo (t :: ts) rest) (hs : rest <:+ ts) : r.Keeps t :=
  h t (.head hs)

end KeepsTo

/-- Tokens that are kept have the same text. -/
theorem textOf_map {ts : List Token} (h : ∀ t ∈ ts, r.Keeps t) :
    Token.textOf (ts.map r.token) = Token.textOf ts := by
  induction ts with
  | nil => rfl
  | cons t ts ih =>
    rw [List.map_cons, Token.textOf_cons, Token.textOf_cons, (h t List.mem_cons_self).text,
      ih fun u hu => h u (List.mem_cons_of_mem t hu)]

theorem getLastD_map (r : Relocation) (ts : List Token) (t : Token) :
    (ts.map r.token).getLastD (r.token t) = r.token (ts.getLastD t) := by
  rw [List.getLastD_eq_getLast?, List.getLastD_eq_getLast?, List.getLast?_map, Option.getD_map]

theorem keeps_getLastD {r : Relocation} {ts : List Token} {t : Token} (h : ∀ u ∈ ts, r.Keeps u)
    (ht : r.Keeps t) : r.Keeps (ts.getLastD t) := by
  rcases List.eq_nil_or_concat ts with rfl | ⟨us, u, rfl⟩
  · exact ht
  · rw [List.concat_eq_append] at h ⊢
    rw [List.getLastD_concat]
    exact h u (by simp)

theorem headD_map (r : Relocation) (ts : List Token) (t : Token) :
    (ts.map r.token).headD (r.token t) = r.token (ts.headD t) := by
  cases ts <;> rfl

end Relocation
end HeaderOutline
