import HeaderOutline.Proofs.Front

/-! # Alike tokens at the front

Tokens are alike that have the same kind and, unless they are documentation, the same text;
where they stand does not matter (`Token.Alike`).  What looks at the front of a list of tokens
sees the same of alike tokens, since it looks at kinds, and at texts only of words and
numbers.  What takes a piece of the list takes the piece that is alike.
-/
namespace HeaderOutline

/-- A map that takes tokens to alike ones. -/
class Token.Alike (f : Token → Token) : Prop where
  kind (t : Token) : (f t).kind = t.kind
  text {t : Token} (h : t.kind ≠ .docComment) : (f t).text = t.text

namespace Tokens

open Token (Alike)

variable (f : Token → Token) [Alike f]

@[simp] theorem headKind_map (ts : List Token) : headKind (ts.map f) = headKind ts := by
  cases ts with
  | nil => rfl
  | cons t ts => exact Alike.kind t

@[simp] theorem eat?_map (kind : Kind) (ts : List Token) :
    eat? kind (ts.map f) = (eat? kind ts).map (·.map f) := by
  cases ts with
  | nil => rfl
  | cons t ts => by_cases h : t.kind = kind <;> simp [eat?, Alike.kind (f := f), h]

theorem dropWhile_kind_map (p : Kind → Bool) (ts : List Token) :
    (ts.map f).dropWhile (p ·.kind) = (ts.dropWhile (p ·.kind)).map f := by
  have hp : (p ·.kind) ∘ f = (p ·.kind) := funext fun t => congrArg p (Alike.kind t)
  rw [List.dropWhile_map, hp]

theorem takeWhile_kind_map (p : Kind → Bool) (ts : List Token) :
    (ts.map f).takeWhile (p ·.kind) = (ts.takeWhile (p ·.kind)).map f := by
  have hp : (p ·.kind) ∘ f = (p ·.kind) := funext fun t => congrArg p (Alike.kind t)
  rw [List.takeWhile_map, hp]

@[simp] theorem skipSpace_map (ts : List Token) :
    skipSpace (ts.map f) = (skipSpace ts).map f :=
  dropWhile_kind_map f (· == .whitespace) ts

@[simp] theorem takeSpace_map (ts : List Token) :
    (ts.map f).takeWhile (·.kind == .whitespace)
      = (ts.takeWhile (·.kind == .whitespace)).map f :=
  takeWhile_kind_map f (· == .whitespace) ts

@[simp] theorem skipTrivia_map (ts : List Token) :
    skipTrivia (ts.map f) = (skipTrivia ts).map f :=
  dropWhile_kind_map f (·.isTrivia) ts

@[simp] theorem takeTrivia_map (ts : List Token) :
    (ts.map f).takeWhile (·.kind.isTrivia) = (ts.takeWhile (·.kind.isTrivia)).map f :=
  takeWhile_kind_map f (·.isTrivia) ts

@[simp] theorem skipGap_map (ts : List Token) : skipGap (ts.map f) = (skipGap ts).map f :=
  dropWhile_kind_map f (fun k => k.isTrivia || k.isComment) ts

@[simp] theorem nextKind_map (ts : List Token) : nextKind (ts.map f) = nextKind ts := by
  rw [nextKind, skipTrivia_map, headKind_map, nextKind]

@[simp] theorem upTo_map (kinds : List Kind) (ts : List Token) :
    upTo kinds (ts.map f) = ((upTo kinds ts).1.map f, (upTo kinds ts).2.map f) :=
  Prod.ext (takeWhile_kind_map f (!kinds.contains ·) ts)
    (dropWhile_kind_map f (!kinds.contains ·) ts)

@[simp] theorem joinFrom_map (afterWord : Bool) (ts : List Token) :
    joinFrom afterWord (ts.map f) = joinFrom afterWord ts := by
  induction ts generalizing afterWord with
  | nil => rfl
  | cons t ts ih =>
    simp only [List.map_cons, joinFrom, Alike.kind (f := f), ih]
    split
    · rfl
    · next h =>
      -- a token that is joined is no comment
      rw [Alike.text (f := f) (by rintro hk; simp [hk, Kind.isComment] at h)]

@[simp] theorem join_map (ts : List Token) : join (ts.map f) = join ts :=
  joinFrom_map f false ts

/-! ## Brackets -/

@[simp] theorem closeBraces_map (done : List Token) (depth : Nat) (ts : List Token) :
    closeBraces (done.map f) depth (ts.map f)
      = (closeBraces done depth ts).map (Prod.map (·.map f) (·.map f)) := by
  fun_induction closeBraces done depth ts with
  | case1 => rfl
  | case2 done depth t ts hk ih =>
    rw [List.map_cons, closeBraces, Alike.kind (f := f), if_pos hk]
    exact ih
  | case3 done depth t ts ho hk hd =>
    rw [List.map_cons, closeBraces, Alike.kind (f := f), if_neg ho, if_pos hk, if_pos hd]
    simp
  | case4 done depth t ts ho hk hd ih =>
    rw [List.map_cons, closeBraces, Alike.kind (f := f), if_neg ho, if_pos hk, if_neg hd]
    exact ih
  | case5 done depth t ts ho hk ih =>
    rw [List.map_cons, closeBraces, Alike.kind (f := f), if_neg ho, if_neg hk]
    exact ih

@[simp] theorem block?_map (ts : List Token) :
    block? (ts.map f) = (block? ts).map (Prod.map (·.map f) (·.map f)) :=
  closeBraces_map f [] 0 ts

@[simp] theorem closeAngles_map (done : List Token) (depth parens : Nat) (ts : List Token) :
    closeAngles (done.map f) depth parens (ts.map f)
      = (closeAngles done depth parens ts).map (Prod.map (·.map f) (·.map f)) := by
  induction ts generalizing done depth parens with
  | nil => rfl
  | cons t ts ih =>
    have hdone : ∀ done : List Token, f t :: done.map f = (t :: done).map f := fun _ => rfl
    rw [List.map_cons, closeAngles, closeAngles, Alike.kind (f := f)]
    simp only [hdone, ih]
    split <;> try rfl
    · split
      · split
        · simp
        · rfl
      · rfl
    · split
      · split
        · simp
        · rfl
      · rfl

@[simp] theorem angles?_map (ts : List Token) :
    angles? (ts.map f) = (angles? ts).map (Prod.map (·.map f) (·.map f)) :=
  closeAngles_map f [] 0 0 ts

@[simp] theorem afterSquares_map (depth : Nat) (ts : List Token) :
    afterSquares depth (ts.map f) = (afterSquares depth ts).map f := by
  induction ts generalizing depth with
  | nil => rfl
  | cons t ts ih =>
    simp only [List.map_cons, afterSquares, Alike.kind (f := f), ih]
    split
    · rfl
    · split
      · split <;> rfl
      · rfl

@[simp] theorem afterAttribute?_map (ts : List Token) :
    afterAttribute? (ts.map f) = (afterAttribute? ts).map (·.map f) := by
  unfold afterAttribute?
  rw [headKind_map, ← List.map_tail, headKind_map, afterSquares_map]
  split <;> rfl

@[simp] theorem skipAttributes_map (ts : List Token) :
    skipAttributes (ts.map f) = (skipAttributes ts).map f := by
  fun_induction skipAttributes ts with
  | case1 ts rest h ih =>
    have hmap : afterAttribute? (ts.map f) = some (rest.map f) := by
      rw [afterAttribute?_map, h]
      rfl
    rw [skipAttributes_of_some hmap, skipTrivia_map, ih]
  | case2 ts h =>
    exact skipAttributes_of_none (by rw [afterAttribute?_map, h]; rfl)

end Tokens
end HeaderOutline
