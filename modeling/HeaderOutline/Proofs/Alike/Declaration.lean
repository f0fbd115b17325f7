import HeaderOutline.Construct.Declaration
import HeaderOutline.Construct.Namespace
import HeaderOutline.Proofs.Alike.Front

/-! # Alike declarations

The probe for a function (`Construct.Declaration.isFunction`) gives one answer for alike
tokens, and the heads of functions made of alike tokens have alike extents.
-/
namespace HeaderOutline.Construct

open Token (Alike)

variable (f : Token → Token) [Alike f]

namespace Function

namespace Progress

@[simp] theorem opensGroup_map (rest : List Token) :
    opensGroup (rest.map f) = opensGroup rest := by
  simp only [opensGroup, Tokens.skipSpace_map, Tokens.headKind_map]

@[simp] theorem zeroFollows_map (rest : List Token) :
    zeroFollows (rest.map f) = zeroFollows rest := by
  unfold zeroFollows
  rw [Tokens.skipTrivia_map]
  cases Tokens.skipTrivia rest with
  | nil => rfl
  | cons t ts =>
    simp only [List.map_cons, Alike.kind (f := f)]
    by_cases hk : t.kind = .number
    · rw [Alike.text (f := f) (by simp [hk])]
    · simp [beq_false_of_ne hk]

@[simp] theorem note_token (p : Progress) (t : Token) (rest : List Token) :
    p.note (f t) (rest.map f) = p.note t rest :=
  p.note_congr (Alike.kind t) (fun h => Alike.text (by simp [h])) (fun _ => opensGroup_map f rest)
    fun _ => zeroFollows_map f rest

@[simp] theorem read_token (p : Progress) (t : Token) (rest : List Token) :
    p.read (f t) (rest.map f) = p.read t rest := by
  simp only [read, Alike.kind (f := f), note_token]

end Progress

@[simp] theorem operatorSymbol_map (ts : List Token) :
    operatorSymbol (ts.map f) = ((operatorSymbol ts).1.map f, (operatorSymbol ts).2.map f) := by
  unfold operatorSymbol
  rw [Tokens.headKind_map, ← List.map_tail, Tokens.headKind_map]
  split
  · rw [List.map_take, List.map_drop]
  · rw [Tokens.upTo_map]

@[simp] theorem operatorTokens_map (op : Token) (rest : List Token) :
    operatorTokens (f op) (rest.map f)
      = ((operatorTokens op rest).1.map f, (operatorTokens op rest).2.map f) := by
  simp [operatorTokens]

/-- The head of a function made of other tokens. -/
def Extent.map (f : Token → Token) : Extent → Extent
  | .declared p taken rest => .declared p (taken.map f) (rest.map f)
  | .defined p taken rest => .defined p (taken.map f) (rest.map f)
  | .broken rest => .broken (rest.map f)
  | .unclosed brace => .unclosed (f brace)

theorem extent_map (done : List Token) (p : Progress) (ts : List Token) :
    extent (done.map f) p (ts.map f) = (extent done p ts).map f := by
  fun_induction extent done p ts with
  | case1 => simp [extent, Extent.map]
  | case2 done p t ts h =>
    rw [List.map_cons, extent, Alike.kind (f := f), if_pos h]
    rfl
  | case3 done p t ts h hs =>
    rw [List.map_cons, extent, Alike.kind (f := f), if_neg h, if_pos hs]
    simp [Extent.map]
  | case4 done p t ts h hs hb hi hn =>
    have hmap : Tokens.block? (f t :: ts.map f) = none := by
      rw [← List.map_cons, Tokens.block?_map, hn]
      rfl
    rw [List.map_cons, extent, Alike.kind (f := f), if_neg h, if_neg hs, if_pos hb, if_pos hi]
    split
    · rfl
    · next hsome => cases hmap.symm.trans hsome
  | case5 done p t ts h hs hb hi block rest hblock ih =>
    have hmap : Tokens.block? (f t :: ts.map f) = some (block.map f, rest.map f) := by
      rw [← List.map_cons, Tokens.block?_map, hblock]
      rfl
    rw [List.map_cons, extent, Alike.kind (f := f), if_neg h, if_neg hs, if_pos hb, if_pos hi]
    split
    · next hnone => cases hmap.symm.trans hnone
    · next hsome =>
      obtain ⟨rfl, rfl⟩ := Prod.mk.inj (Option.some.inj (hmap.symm.trans hsome))
      rw [← ih]
      simp
  | case6 done p t ts h hs hb hi =>
    rw [List.map_cons, extent, Alike.kind (f := f), if_neg h, if_neg hs, if_pos hb, if_neg hi]
    simp [Extent.map]
  | case7 done p t ts h hs hb ho ih =>
    rw [List.map_cons, extent, Alike.kind (f := f), if_neg h, if_neg hs, if_neg hb, if_pos ho,
      operatorTokens_map, Tokens.join_map, ← ih]
    simp
  | case8 done p t ts h hs hb ho ih =>
    rw [List.map_cons, extent, Alike.kind (f := f), if_neg h, if_neg hs, if_neg hb, if_neg ho,
      Progress.read_token]
    exact ih

end Function

namespace Declaration

theorem skipSpecifiers_eq (afterExtern : Bool) (ts : List Token) :
    skipSpecifiers afterExtern ts =
      match Tokens.afterAttribute? (Tokens.skipTrivia ts) with
      | some rest => skipSpecifiers afterExtern rest
      | none =>
        match Tokens.skipTrivia ts with
        | [] => []
        | t :: rest =>
          if specifiers.contains t.kind || typeOpeners.contains t.kind
            || afterExtern && t.kind == .string
          then skipSpecifiers (t.kind == .keyword .externKw) rest
          else t :: rest := by
  rw [skipSpecifiers]
  split
  · next rest h => rw [h]
  · next h =>
    rw [h]
    split
    · next hs => rw [hs]
    · next hs => rw [hs]

@[simp] theorem skipSpecifiers_map (afterExtern : Bool) (ts : List Token) :
    skipSpecifiers afterExtern (ts.map f) = (skipSpecifiers afterExtern ts).map f := by
  have hmap : ∀ ts, Tokens.afterAttribute? (Tokens.skipTrivia (ts.map f))
      = (Tokens.afterAttribute? (Tokens.skipTrivia ts)).map (·.map f) := fun ts => by simp
  fun_induction skipSpecifiers afterExtern ts with
  | case1 afterExtern ts rest h ih =>
    rw [skipSpecifiers_eq, hmap, h]
    exact ih
  | case2 afterExtern ts h hs =>
    rw [skipSpecifiers_eq, hmap, h, Tokens.skipTrivia_map, hs]
    rfl
  | case3 afterExtern ts h t rest hs hk ih =>
    rw [skipSpecifiers_eq, hmap, h, Tokens.skipTrivia_map, hs]
    simp only [Option.map_none, List.map_cons, Alike.kind (f := f)]
    exact (if_pos hk).trans ih
  | case4 afterExtern ts h t rest hs hk =>
    rw [skipSpecifiers_eq, hmap, h, Tokens.skipTrivia_map, hs]
    simp only [Option.map_none, List.map_cons, Alike.kind (f := f)]
    exact if_neg hk

@[simp] theorem paramsFollowSymbol_map (n : Nat) (ts : List Token) :
    paramsFollowSymbol n (ts.map f) = paramsFollowSymbol n ts := by
  induction n generalizing ts with
  | zero => rfl
  | succ n ih =>
    rw [paramsFollowSymbol, paramsFollowSymbol, Tokens.skipSpace_map]
    cases Tokens.skipSpace ts with
    | nil => rfl
    | cons t rest => simp only [List.map_cons, Alike.kind (f := f), ih]

@[simp] theorem operatorTakesParams_map (rest : List Token) :
    operatorTakesParams (rest.map f) = operatorTakesParams rest := by
  simp only [operatorTakesParams, Tokens.skipSpace_map, Tokens.headKind_map, ← List.map_tail,
    ← List.map_drop]
  split <;> exact paramsFollowSymbol_map ..

theorem paramsFollow_succ (seen : Bool) (n : Nat) (ts : List Token) :
    paramsFollow seen (n + 1) ts =
      match Tokens.skipTrivia ts with
      | [] => false
      | t :: rest =>
        if t.kind == .ident || t.kind.isBuiltinType then paramsFollow true n rest
        else match t.kind with
          | .punct .lParen => seen
          | .punct .colonColon | .punct .star | .punct .amp | .punct .ampAmp | .punct .tilde
          | .keyword .constKw | .keyword .volatileKw => paramsFollow seen (n + 1) rest
          | .punct .lt =>
            match Tokens.angles? (t :: rest) with
            | some (_, after) => paramsFollow seen (n + 1) after
            | none => false
          | .keyword .operatorKw => operatorTakesParams rest
          | _ => false := by
  rw [paramsFollow]
  split
  · next hs => rw [hs]
  · next t rest hs =>
    rw [hs]
    dsimp only
    split
    · rfl
    · by_cases hk : t.kind = .punct .lt
      · simp only [hk]
        split
        · next h => rw [h]
        · next h => rw [h]
      · split <;> simp_all

@[simp] theorem paramsFollow_map (seen : Bool) (words : Nat) (ts : List Token) :
    paramsFollow seen words (ts.map f) = paramsFollow seen words ts := by
  induction hn : ts.length using Nat.strongRecOn generalizing seen words ts with
  | ind k ih =>
    subst hn
    cases words with
    | zero => simp [paramsFollow]
    | succ n =>
      have hlen := Tokens.skipTrivia_length_le ts
      rw [paramsFollow_succ, paramsFollow_succ, Tokens.skipTrivia_map]
      cases hs : Tokens.skipTrivia ts with
      | nil => rfl
      | cons t rest =>
        rw [hs] at hlen
        have hrest : ∀ seen words,
            paramsFollow seen words (rest.map f) = paramsFollow seen words rest :=
          fun seen words => ih _ hlen seen words rest rfl
        simp only [List.map_cons, Alike.kind (f := f), hrest, operatorTakesParams_map]
        rw [← List.map_cons, Tokens.angles?_map]
        split
        · rfl
        · split
          all_goals try rfl
          cases ha : Tokens.angles? (t :: rest) with
          | none => rfl
          | some m =>
            exact ih _ (Nat.lt_of_lt_of_le (Tokens.angles?_length_lt ha) hlen) _ _ _ rfl

/-- The probe does not look at places. -/
@[simp] theorem isFunction_map (ts : List Token) : isFunction (ts.map f) = isFunction ts := by
  rw [isFunction, skipSpecifiers_map, paramsFollow_map, isFunction]

end Declaration

@[simp] theorem Namespace.afterLinkage?_map (rest : List Token) :
    Namespace.afterLinkage? (rest.map f) = (Namespace.afterLinkage? rest).map (·.map f) := by
  unfold Namespace.afterLinkage?
  rw [Tokens.skipTrivia_map, Tokens.eat?_map]
  cases Tokens.eat? .string (Tokens.skipTrivia rest) with
  | none => rfl
  | some behind =>
    show Tokens.eat? _ (Tokens.skipTrivia (behind.map f)) = _
    rw [Tokens.skipTrivia_map, Tokens.eat?_map]
    rfl

end HeaderOutline.Construct
