import HeaderOutline.Construct.Basic

/-! # Brackets

Groups of tokens between brackets.  Each function takes a group from the front of
the tokens; where the closing bracket is missing there is no group.
-/
namespace HeaderOutline.Tokens

/-- Takes tokens up to the brace that closes `depth` open ones, putting them after
`done`, which is in reverse. -/
def closeBraces (done : List Token) (depth : Nat) :
    List Token → Option (List Token × List Token)
  | [] => none
  | t :: ts =>
    if t.kind == .punct .lBrace then closeBraces (t :: done) (depth + 1) ts
    else if t.kind == .punct .rBrace then
      if depth ≤ 1 then some ((t :: done).reverse, ts)
      else closeBraces (t :: done) (depth - 1) ts
    else closeBraces (t :: done) depth ts

/-- The block in braces that the tokens start with, and the rest. -/
def block? (ts : List Token) : Option (List Token × List Token) := closeBraces [] 0 ts

/-- Takes tokens up to the angle bracket that closes `depth` open ones, putting them
after `done`, which is in reverse.  What stands in `parens` open parentheses does not
count, `>>` closes two brackets, and neither a semicolon nor a brace may come in
between. -/
def closeAngles (done : List Token) (depth parens : Nat) :
    List Token → Option (List Token × List Token)
  | [] => none
  | t :: ts =>
    match t.kind with
    | .punct .semicolon | .punct .lBrace | .punct .rBrace => none
    | .punct .lParen => closeAngles (t :: done) depth (parens + 1) ts
    | .punct .rParen => closeAngles (t :: done) depth (parens - 1) ts
    | .punct .lt =>
      closeAngles (t :: done) (if parens = 0 then depth + 1 else depth) parens ts
    | .punct .gt =>
      if parens = 0 then
        if depth ≤ 1 then some ((t :: done).reverse, ts)
        else closeAngles (t :: done) (depth - 1) parens ts
      else closeAngles (t :: done) depth parens ts
    | .punct .gtGt =>
      if parens = 0 then
        if depth ≤ 2 then some ((t :: done).reverse, ts)
        else closeAngles (t :: done) (depth - 2) parens ts
      else closeAngles (t :: done) depth parens ts
    | _ => closeAngles (t :: done) depth parens ts

/-- The list in angle brackets that the tokens start with, and the rest. -/
def angles? (ts : List Token) : Option (List Token × List Token) := closeAngles [] 0 0 ts

/-- The tokens after the square bracket that closes `depth` open ones; none if it is
missing. -/
def afterSquares (depth : Nat) : List Token → List Token
  | [] => []
  | t :: ts =>
    if t.kind == .punct .lBracket then afterSquares (depth + 1) ts
    else if t.kind == .punct .rBracket then
      if depth ≤ 1 then ts else afterSquares (depth - 1) ts
    else afterSquares depth ts

/-- The tokens after an attribute, if they start with one: two opening square brackets
next to each other, and what is up to the one that closes the first. -/
def afterAttribute? (ts : List Token) : Option (List Token) :=
  if headKind ts == .punct .lBracket && headKind ts.tail == .punct .lBracket then
    some (afterSquares 0 ts)
  else none

theorem afterSquares_length_lt {ts : List Token} (h : ts ≠ []) (depth : Nat) :
    (afterSquares depth ts).length < ts.length := by
  fun_induction afterSquares depth ts with
  | case1 => exact absurd rfl h
  | case2 depth t ts _ ih | case4 depth t ts _ _ _ ih | case5 depth t ts _ _ ih =>
    cases ts with
    | nil => simp [afterSquares]
    | cons u us => exact Nat.lt_succ_of_lt (ih (by simp))
  | case3 => simp

theorem afterSquares_suffix (depth : Nat) (ts : List Token) : afterSquares depth ts <:+ ts := by
  fun_induction afterSquares depth ts with
  | case1 => exact List.suffix_rfl
  | case2 _ t ts _ ih | case4 _ t ts _ _ _ ih | case5 _ t ts _ _ ih =>
    exact ih.trans (List.suffix_cons t ts)
  | case3 _ t ts => exact List.suffix_cons t ts

theorem afterAttribute?_suffix {ts rest : List Token} (h : afterAttribute? ts = some rest) :
    rest <:+ ts := by
  unfold afterAttribute? at h
  split at h
  · obtain rfl := by simpa using h
    exact afterSquares_suffix 0 ts
  · simp at h

theorem afterAttribute?_length_lt {ts rest : List Token} (h : afterAttribute? ts = some rest) :
    rest.length < ts.length := by
  unfold afterAttribute? at h
  split at h
  · next hk =>
    obtain rfl := by simpa using h
    refine afterSquares_length_lt ?_ 0
    rintro rfl
    simp [headKind] at hk
  · simp at h

/-- The tokens after all attributes in front, and after the trivia that follows each. -/
def skipAttributes (ts : List Token) : List Token :=
  match _h : afterAttribute? ts with
  | some rest => skipAttributes (skipTrivia rest)
  | none => ts
termination_by ts.length
decreasing_by
  exact Nat.lt_of_le_of_lt (skipTrivia_length_le rest) (afterAttribute?_length_lt _h)

theorem skipAttributes_suffix (ts : List Token) : skipAttributes ts <:+ ts := by
  fun_induction skipAttributes ts with
  | case1 _ rest h ih =>
    exact (ih.trans (skipTrivia_suffix rest)).trans (afterAttribute?_suffix h)
  | case2 => exact List.suffix_rfl

theorem closeBraces_append {done taken ts rest : List Token} {depth : Nat}
    (h : closeBraces done depth ts = some (taken, rest)) :
    taken ++ rest = done.reverse ++ ts := by
  fun_induction closeBraces done depth ts with
  | case1 => simp at h
  | case2 _ _ _ _ _ ih | case4 _ _ _ _ _ _ _ ih | case5 _ _ _ _ _ _ ih => simpa using ih h
  | case3 =>
    obtain ⟨rfl, rfl⟩ := by simpa using h
    simp

/-- A block and the rest make up the tokens. -/
theorem block?_append {ts taken rest : List Token} (h : block? ts = some (taken, rest)) :
    taken ++ rest = ts := by
  simpa using closeBraces_append h

theorem closeBraces_length_lt {done taken ts rest : List Token} {depth : Nat}
    (h : closeBraces done depth ts = some (taken, rest)) : rest.length < ts.length := by
  fun_induction closeBraces done depth ts with
  | case1 => simp at h
  | case2 _ _ _ _ _ ih | case4 _ _ _ _ _ _ _ ih | case5 _ _ _ _ _ _ ih =>
    exact Nat.lt_succ_of_lt (ih h)
  | case3 =>
    obtain ⟨_, rfl⟩ := by simpa using h
    exact Nat.lt_succ_self _

theorem block?_length_lt {ts taken rest : List Token} (h : block? ts = some (taken, rest)) :
    rest.length < ts.length :=
  closeBraces_length_lt h

theorem block?_suffix {ts taken rest : List Token} (h : block? ts = some (taken, rest)) :
    rest <:+ ts :=
  ⟨taken, block?_append h⟩

theorem closeAngles_append {done taken ts rest : List Token} {depth parens : Nat}
    (h : closeAngles done depth parens ts = some (taken, rest)) :
    taken ++ rest = done.reverse ++ ts := by
  fun_induction closeAngles done depth parens ts <;> simp_all
  all_goals
    obtain ⟨rfl, _⟩ := h
    simp

/-- A list in angle brackets and the rest make up the tokens. -/
theorem angles?_append {ts taken rest : List Token} (h : angles? ts = some (taken, rest)) :
    taken ++ rest = ts := by
  simpa using closeAngles_append h

theorem closeAngles_length_lt {done taken ts rest : List Token} {depth parens : Nat}
    (h : closeAngles done depth parens ts = some (taken, rest)) : rest.length < ts.length := by
  fun_induction closeAngles done depth parens ts <;> simp_all <;> omega

theorem angles?_length_lt {ts taken rest : List Token} (h : angles? ts = some (taken, rest)) :
    rest.length < ts.length :=
  closeAngles_length_lt h

theorem angles?_suffix {ts taken rest : List Token} (h : angles? ts = some (taken, rest)) :
    rest <:+ ts :=
  ⟨taken, angles?_append h⟩

end HeaderOutline.Tokens
