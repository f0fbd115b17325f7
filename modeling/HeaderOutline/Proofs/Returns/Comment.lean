import HeaderOutline.Proofs.Returns.Tokens

/-! # Comments read in lines with carriage returns

A comment that counts as an entity keeps its name, and lines of documentation that follow each
other are put together and read as before (`Construct.Comment.read_returned`).
-/
namespace HeaderOutline

open Tokens

namespace Construct.Comment

variable {ts us : List Token} {t u : Token} {mark raw raw' : Text}

theorem lineMark?_returned (h : t.Returned u) (hc : t.kind.isComment = true) :
    lineMark? u.text = lineMark? t.text := by
  have hmark : ∀ mark ∈ ["///".toList, "//!".toList],
      mark.isPrefixOf u.text = mark.isPrefixOf t.text := by
    intro mark hm
    have hplain : '\r' ∉ mark ∧ '\n' ∉ mark := by
      revert mark
      decide
    exact (h.comment hc).isPrefixOf h.plain hplain.1 hplain.2
  unfold lineMark?
  simp only [List.find?_cons, List.find?_nil, hmark _ List.mem_cons_self,
    hmark _ (List.mem_cons_of_mem _ List.mem_cons_self)]

/-- A mark of documentation is in one line. -/
theorem notMem_of_lineMark? (h : lineMark? raw = some mark) : '\r' ∉ mark ∧ '\n' ∉ mark := by
  have hm : mark ∈ ["///".toList, "//!".toList] := List.mem_of_find?_eq_some h
  clear h
  revert mark
  decide

/-- The next line of documentation is found in both lists, or in none of them. -/
theorem nextLine?_returned (hm : '\r' ∉ mark ∧ '\n' ∉ mark) (h : Returned ts us) :
    Option.Rel (fun x y => x.1.Returned y.1 ∧ x.1.kind = .docComment ∧ Returned x.2 y.2)
      (nextLine? mark ts) (nextLine? mark us) := by
  unfold nextLine?
  rcases h.line_cases with ⟨hts, hus⟩ | ⟨n, n', vs, ws, hts, hus, hn, hn', -, hmore⟩
  · rw [hts, hus]
    exact .none
  · rw [hts, hus, eat?_of_kind hn, eat?_of_kind hn']
    dsimp only
    have hline := hmore.skipSpace
    generalize skipSpace vs = xs, skipSpace ws = ys at hline ⊢
    have hother : ∀ {k : Kind} {p : Bool}, k = .whitespace ∨ k = .newline →
        (k == .docComment && p) = false := by
      rintro k p (rfl | rfl) <;> rfl
    cases hline with
    | nil => exact .none
    | @token t u xs ys _ ht more =>
      dsimp only
      rw [ht.kind]
      by_cases hk : t.kind = .docComment
      · rw [(ht.comment (hk ▸ rfl)).isPrefixOf ht.plain hm.1 hm.2]
        split
        · exact .some ⟨ht, hk, more⟩
        · exact .none
      · rw [beq_false_of_ne hk]
        exact .none
    | space ht hu =>
      dsimp only
      rw [hother (.inl ht), hother (.inl hu)]
      exact .none
    | line ht hu =>
      dsimp only
      rw [hother (.inr ht), hother (.inr hu)]
      exact .none
    | carriage ht hr =>
      dsimp only
      rw [hother (.inr ht), hother (.inl hr)]
      exact .none

theorem mergeLines_of_some {last t : Token} {after : List Token}
    (h : nextLine? mark ts = some (t, after)) :
    mergeLines mark raw last ts = mergeLines mark (raw ++ '\n' :: t.text) t after := by
  rw [mergeLines]
  split
  · next hnext =>
    rw [h] at hnext
    cases hnext
    rfl
  · next hnext =>
    rw [h] at hnext
    cases hnext

theorem mergeLines_of_none {last : Token} (h : nextLine? mark ts = none) :
    mergeLines mark raw last ts = (raw, last, ts) := by
  rw [mergeLines]
  split
  · next hnext =>
    rw [h] at hnext
    cases hnext
  · rfl

/-- Lines of documentation that are put together. -/
theorem mergeLines_returned (hm : '\r' ∉ mark ∧ '\n' ∉ mark) (h : Returned ts us)
    (hlines : Text.LinesReturned raw raw') (hraw : Text.Returned raw raw') (last last' : Token) :
    Text.LinesReturned (mergeLines mark raw last ts).1 (mergeLines mark raw' last' us).1 ∧
      Text.Returned (mergeLines mark raw last ts).1 (mergeLines mark raw' last' us).1 ∧
      Returned (mergeLines mark raw last ts).2.2 (mergeLines mark raw' last' us).2.2 := by
  fun_induction mergeLines mark raw last ts generalizing raw' last' us with
  | case1 raw last ts t after hnext ih =>
    have hrel := nextLine?_returned hm h
    rw [hnext] at hrel
    cases hline : nextLine? mark us with
    | none =>
      rw [hline] at hrel
      cases hrel
    | some line =>
      obtain ⟨u, after'⟩ := line
      rw [hline] at hrel
      cases hrel with
      | some hrel =>
        obtain ⟨ht, hk, hmore⟩ := hrel
        have hcomment := ht.comment (hk ▸ rfl)
        rw [mergeLines_of_some hline]
        exact ih hmore (hlines.append hcomment.lines)
          (hraw.append (.cons '\n' hcomment.returned)) u
  | case2 raw last ts hnext =>
    have hrel := nextLine?_returned hm h
    rw [hnext] at hrel
    cases hline : nextLine? mark us with
    | some line =>
      rw [hline] at hrel
      cases hrel
    | none =>
      rw [mergeLines_of_none hline]
      exact ⟨hlines, hraw, h⟩

/-- Documentation keeps its raw text. -/
theorem raw_of_read? {d : DocComment} (h : DocComment.read? raw = some d) : d.raw = raw := by
  have hlines : Text.LinesReturned raw raw := List.forall₂_same.mpr fun _ _ => .inl rfl
  have hread := DocComment.read?_returned hlines
  rw [h] at hread
  rw [Option.some.inj hread]
  rfl

theorem documentation_returned (hlines : Text.LinesReturned raw raw')
    (hraw : Text.Returned raw raw') (first first' last last' : Token) :
    Option.Rel (Respacing.doc .returning) (documentation raw first last)
      (documentation raw' first' last') := by
  unfold documentation
  rw [DocComment.read?_returned hlines]
  cases hd : DocComment.read? raw with
  | none => exact .none
  | some d => exact .some ⟨show Text.Returned d.raw raw' from raw_of_read? hd ▸ hraw, rfl⟩

/-- **A comment is read** in lines with carriage returns as it is without them. -/
theorem read_returned (merge : Bool) (ht : t.Returned u) (hk : t.kind.isComment = true)
    (h : Returned ts us) :
    Outcome.Respaced .returning (read merge t ts) (read merge u us) := by
  have hcomment := ht.comment hk
  unfold read
  rw [ht.kind, lineMark?_returned ht hk]
  split
  · split
    · next mark hmark =>
      have hm : '\r' ∉ mark ∧ '\n' ∉ mark := by
        cases merge with
        | true => exact notMem_of_lineMark? hmark
        | false => cases hmark
      obtain ⟨hlines, hraw, hmore⟩ := mergeLines_returned hm h hcomment.lines hcomment.returned t u
      exact .read (.documentation Respacing.isStrict_returning
        (documentation_returned hlines hraw _ _ _ _)) hmore.on
    · exact .read (.documentation Respacing.isStrict_returning
        (documentation_returned hcomment.lines hcomment.returned _ _ _ _)) h.on
  · next hd =>
    have hname := ht.name hk (by simpa using hd)
    rw [hname]
    exact .entity (Draft.respaced_simple hcomment.returned) h.on

end Construct.Comment
end HeaderOutline
