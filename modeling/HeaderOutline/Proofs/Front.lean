import HeaderOutline.Construct.Brackets

/-! # The first token

What looks at the front of a list of tokens often depends on the kind of the first token
alone.
-/
namespace HeaderOutline

namespace Tokens

variable {t u : Token} {ts : List Token}

theorem skipTrivia_of_trivia (h : t.kind.isTrivia = true) :
    skipTrivia (t :: ts) = skipTrivia ts :=
  List.dropWhile_cons_of_pos h

theorem skipTrivia_of_whitespace (h : t.kind = .whitespace) :
    skipTrivia (t :: ts) = skipTrivia ts :=
  skipTrivia_of_trivia (by rw [h]; rfl)

theorem skipTrivia_of_not (h : t.kind.isTrivia = false) : skipTrivia (t :: ts) = t :: ts :=
  List.dropWhile_cons_of_neg (by rw [h]; exact nofun)

theorem skipTrivia_skipTrivia (ts : List Token) : skipTrivia (skipTrivia ts) = skipTrivia ts := by
  induction ts with
  | nil => rfl
  | cons t ts ih =>
    cases ht : t.kind.isTrivia with
    | true => rwa [skipTrivia_of_trivia ht]
    | false => rw [skipTrivia_of_not ht, skipTrivia_of_not ht]

/-- White space is trivia. -/
theorem skipTrivia_skipSpace (ts : List Token) : skipTrivia (skipSpace ts) = skipTrivia ts := by
  induction ts with
  | nil => rfl
  | cons t ts ih =>
    by_cases ht : t.kind = .whitespace
    · have hskip : skipSpace (t :: ts) = skipSpace ts :=
        List.dropWhile_cons_of_pos (beq_iff_eq.mpr ht)
      rw [hskip, ih, skipTrivia_of_whitespace ht]
    · have hskip : skipSpace (t :: ts) = t :: ts :=
        List.dropWhile_cons_of_neg fun h => ht (eq_of_beq h)
      rw [hskip]

theorem eat?_of_kind {kind : Kind} (h : t.kind = kind) : eat? kind (t :: ts) = some ts :=
  if_pos (beq_iff_eq.mpr h)

theorem eat?_of_ne {kind : Kind} (h : t.kind ≠ kind) : eat? kind (t :: ts) = none :=
  if_neg fun he => h (eq_of_beq he)

/-- An attribute starts with a square bracket. -/
theorem afterAttribute?_of_kind (h : t.kind ≠ .punct .lBracket) :
    afterAttribute? (t :: ts) = none := by
  simp [afterAttribute?, headKind, h]

theorem skipAttributes_of_some {ts rest : List Token} (h : afterAttribute? ts = some rest) :
    skipAttributes ts = skipAttributes (skipTrivia rest) := by
  rw [skipAttributes]
  split
  · next us hu =>
    obtain rfl := Option.some.inj (h.symm.trans hu)
    rfl
  · next hn => cases h.symm.trans hn

theorem skipAttributes_of_none {ts : List Token} (h : afterAttribute? ts = none) :
    skipAttributes ts = ts := by
  rw [skipAttributes]
  split
  · next us hu => cases h.symm.trans hu
  · rfl

theorem skipAttributes_of_kind (h : t.kind ≠ .punct .lBracket) :
    skipAttributes (t :: ts) = t :: ts :=
  skipAttributes_of_none (afterAttribute?_of_kind h)

end Tokens

end HeaderOutline
