import HeaderOutline.Proofs.Alike.Front
import HeaderOutline.Proofs.Relocation

/-! # Relocated tokens at the front

Relocated tokens are alike, so that what looks at the front of a list of tokens sees the same
of them.  What takes the text of a piece of the list takes the same text as long as the
tokens of the piece are kept.
-/
namespace HeaderOutline

open Relocation

instance Relocation.alike_token (r : Relocation) : Token.Alike r.token where
  kind := r.kind_token
  text := r.text_token

namespace Tokens

variable {r : Relocation}

theorem clause_map_error {ts rest : List Token} (h : clause ts = .error rest) :
    clause (ts.map r.token) = .error (rest.map r.token) := by
  simp only [clause, skipTrivia_map, upTo_map, headKind_map, List.isEmpty_map] at h ⊢
  split at h
  · next hc => rw [if_pos hc, Except.error.inj h]
  · cases h

/-- The text of a clause is the same if its tokens are kept. -/
theorem clause_map_ok {us ts rest : List Token} {text : Text}
    (h : clause ts = .ok (text, rest)) (hk : r.KeepsTo us rest) (hs : ts <:+ us) :
    clause (ts.map r.token) = .ok (text, rest.map r.token) := by
  simp only [clause, skipTrivia_map, upTo_map, headKind_map, List.isEmpty_map] at h ⊢
  split at h
  · cases h
  · next hc =>
    obtain ⟨rfl, rfl⟩ := Prod.mk.inj (Except.ok.inj h)
    rw [if_neg hc, textOf_map (hk.mem ?_)]
    rw [upTo_append]
    exact (skipTrivia_suffix ts).trans hs

theorem substituted_map (ds : Definitions) {ts : List Token} (h : ∀ t ∈ ts, r.Keeps t) :
    substituted ds (ts.map r.token) = substituted ds ts := by
  induction ts with
  | nil => rfl
  | cons t ts ih =>
    have hrest := ih fun u hu => h u (List.mem_cons_of_mem t hu)
    have htext := (h t List.mem_cons_self).text
    simp only [substituted, List.map_cons, List.flatMap_cons, kind_token, htext] at hrest ⊢
    rw [hrest]

end Tokens
end HeaderOutline
