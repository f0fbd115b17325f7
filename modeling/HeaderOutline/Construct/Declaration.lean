import HeaderOutline.Construct.Function

/-! # Declarations

A declaration is a function or a variable.  Which of them it is shows in the tokens
in front: a function has a parameter list after a few words of type and name.
-/
namespace HeaderOutline.Construct.Declaration

/-- The number of words that may come before a parameter list, and the number of
tokens that the symbol of an operator may have. -/
def maxWords : Nat := 6

/-- The keywords, apart from the specifiers, that may open a type. -/
def typeOpeners : List Kind :=
  [.keyword .typenameKw, .keyword .structKw, .keyword .classKw, .keyword .unionKw,
   .keyword .enumKw]

/-- The tokens after specifiers, attributes and type openers in front.  Behind `extern`
the name of a language is a specifier, too. -/
def skipSpecifiers (afterExtern : Bool) (ts : List Token) : List Token :=
  match _ha : Tokens.afterAttribute? (Tokens.skipTrivia ts) with
  | some rest => skipSpecifiers afterExtern rest
  | none =>
    match _hs : Tokens.skipTrivia ts with
    | [] => []
    | t :: rest =>
      if specifiers.contains t.kind || typeOpeners.contains t.kind
        || afterExtern && t.kind == .string
      then skipSpecifiers (t.kind == .keyword .externKw) rest
      else t :: rest
termination_by ts.length
decreasing_by
  · exact Nat.lt_of_lt_of_le (Tokens.afterAttribute?_length_lt _ha)
      (Tokens.skipTrivia_length_le ts)
  · have h := Tokens.skipTrivia_length_le ts
    rw [_hs] at h
    exact h

/-- Whether a parameter list comes after at most `n` tokens of the symbol of an
operator. -/
def paramsFollowSymbol : (n : Nat) → List Token → Bool
  | 0, _ => false
  | n + 1, ts =>
    match Tokens.skipSpace ts with
    | [] => false
    | t :: rest =>
      match t.kind with
      | .punct .lParen => true
      | .punct .semicolon | .punct .lBrace | .punct .rBrace => false
      | _ => paramsFollowSymbol n rest

/-- Whether a parameter list comes after the keyword of an operator. -/
def operatorTakesParams (rest : List Token) : Bool :=
  let ts := Tokens.skipSpace rest
  paramsFollowSymbol maxWords
    (if Tokens.headKind ts == .punct .lParen && Tokens.headKind ts.tail == .punct .rParen
     then ts.drop 2 else ts)

/-- Whether a parameter list comes after words of type and name, of which `words` may
still come; `seen` says whether there was one. -/
def paramsFollow (seen : Bool) (words : Nat) (ts : List Token) : Bool :=
  match words with
  | 0 => false
  | n + 1 =>
    match _hs : Tokens.skipTrivia ts with
    | [] => false
    | t :: rest =>
      if t.kind == .ident || t.kind.isBuiltinType then paramsFollow true n rest
      else match t.kind with
        | .punct .lParen => seen
        | .punct .colonColon | .punct .star | .punct .amp | .punct .ampAmp | .punct .tilde
        | .keyword .constKw | .keyword .volatileKw => paramsFollow seen (n + 1) rest
        | .punct .lt =>
          match _ha : Tokens.angles? (t :: rest) with
          | some (_, after) => paramsFollow seen (n + 1) after
          | none => false
        | .keyword .operatorKw => operatorTakesParams rest
        | _ => false
termination_by ts.length
decreasing_by
  all_goals
    have h := Tokens.skipTrivia_length_le ts
    rw [_hs] at h
  · exact h
  · exact h
  · exact Nat.lt_of_lt_of_le (Tokens.angles?_length_lt _ha) h

/-- Whether the tokens start with a function. -/
def isFunction (ts : List Token) : Bool := paramsFollow false maxWords (skipSpecifiers false ts)

/-- Reads a function or a variable. -/
def read (ds : Definitions) (lead : Lead) (ts : List Token) : Outcome :=
  if isFunction ts then Function.read ds lead ts else Variable.read ds lead ts

theorem skipTrivia_brace {t : Token} (ts : List Token) (h : t.kind = .punct .lBrace) :
    Tokens.skipTrivia (t :: ts) = t :: ts :=
  List.dropWhile_cons_of_neg (by rw [h]; decide)

/-- No function starts with a brace. -/
theorem isFunction_brace {t : Token} (ts : List Token) (h : t.kind = .punct .lBrace) :
    isFunction (t :: ts) = false := by
  have hk := skipTrivia_brace ts h
  have ha : Tokens.afterAttribute? (t :: ts) = none := by
    simp [Tokens.afterAttribute?, Tokens.headKind, h]
  have hs : skipSpecifiers false (t :: ts) = t :: ts := by
    unfold skipSpecifiers
    rw [hk]
    split
    · next hn =>
      rw [ha] at hn
      contradiction
    · simp [h, specifiers, typeOpeners]
  unfold isFunction
  rw [hs, maxWords]
  unfold paramsFollow
  split
  · rfl
  · next u us hu =>
    obtain ⟨rfl, rfl⟩ := by simpa [hk] using hu
    rw [if_neg (by simp [h, Kind.isBuiltinType])]
    split <;> simp_all

/-- A declaration takes its first token, unless that is a hash sign or a closing brace. -/
theorem read_rest_suffix (ds : Definitions) (lead : Lead) {t : Token} (ts : List Token)
    (hh : t.kind ≠ .punct .hash) (hc : t.kind ≠ .punct .rBrace) :
    (read ds lead (t :: ts)).rest <:+ ts := by
  unfold read
  split
  · next hf =>
    refine Function.read_rest_suffix ds lead ts (fun ho => ?_) hc
    simp [isFunction_brace ts ho] at hf
  · exact Variable.read_rest_suffix ds lead ts (by
      simp [Variable.Progress.refuses, Variable.Progress.start, hh, hc])

/-- The tokens after the parts of a qualified name behind its first identifier; none if
a double colon lacks its identifier. -/
def afterQualifiers? : List Token → Option (List Token)
  | c :: i :: rest =>
    if c.kind == .punct .colonColon then
      if i.kind == .ident then afterQualifiers? rest else none
    else some (c :: i :: rest)
  | [c] => if c.kind == .punct .colonColon then none else some [c]
  | [] => some []

/-- Whether the tokens behind `struct`, `class` or `enum` declare something of that
type, and not the type itself: a name is followed by a star or an ampersand, or by
another name that something declares. -/
def isElaborated (ts : List Token) : Bool :=
  match Tokens.skipTrivia ts with
  | [] => false
  | t :: rest =>
    if t.kind != .ident then false
    else match afterQualifiers? rest with
      | none => false
      | some after =>
        match Tokens.skipTrivia after with
        | [] => false
        | u :: behind =>
          match u.kind with
          | .punct .star | .punct .amp | .punct .ampAmp => true
          | .ident =>
            [.punct .semicolon, .punct .eq, .punct .lBracket, .punct .comma,
              .punct .lParen].contains (Tokens.nextKind behind)
          | _ => false

end HeaderOutline.Construct.Declaration
