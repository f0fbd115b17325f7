import HeaderOutline.Construct.Brackets

/-! # Aliases

`typedef` and `using` give a name to something that has one already, or make names
of another scope known in this one.
-/
namespace HeaderOutline.Construct

namespace Typedef

/-- A type definition as far as it has been read. -/
structure Progress where
  braces : Nat
  parens : Nat
  /-- The last identifier outside of all brackets. -/
  plainName : Option Text
  /-- The last identifier in the parentheses of a declarator. -/
  declaratorName : Option Text
  /-- Whether the open parentheses hold a declarator. -/
  inDeclarator : Bool
  /-- Whether there were parentheses already. -/
  seenGroup : Bool
deriving DecidableEq, Repr

/-- A type definition of which nothing has been read. -/
def Progress.start : Progress := ⟨0, 0, none, none, false, false⟩

/-- Whether a group in parentheses holds a declarator, from behind `depth` open ones: an
opening parenthesis or square bracket follows it, and it is free of semicolons and
braces. -/
def holdsDeclarator (depth : Nat) : List Token → Bool
  | [] => false
  | t :: ts =>
    match t.kind with
    | .punct .lParen => holdsDeclarator (depth + 1) ts
    | .punct .rParen =>
      if depth ≤ 1 then
        Tokens.nextKind ts == .punct .lParen || Tokens.nextKind ts == .punct .lBracket
      else holdsDeclarator (depth - 1) ts
    | .punct .semicolon | .punct .lBrace | .punct .rBrace => false
    | _ => holdsDeclarator depth ts

/-- Reads one token that does not end the definition. -/
def Progress.read (p : Progress) (t : Token) (rest : List Token) : Progress :=
  match t.kind with
  | .punct .lBrace => { p with braces := p.braces + 1 }
  | .punct .rBrace => { p with braces := p.braces - 1 }
  | .punct .lParen =>
    if p.braces != 0 then p
    else if p.parens == 0 && !p.seenGroup then
      { p with seenGroup := true, inDeclarator := holdsDeclarator 1 rest, parens := p.parens + 1 }
    else { p with parens := p.parens + 1 }
  | .punct .rParen =>
    if p.braces != 0 then p
    else
      { p with parens := p.parens - 1, inDeclarator := p.inDeclarator && 1 < p.parens }
  | .ident =>
    if p.braces != 0 then p
    else if p.parens == 0 then { p with plainName := some t.text }
    else if p.inDeclarator then { p with declaratorName := some t.text }
    else p
  | _ => p

/-- A token is known by its kind, and an identifier by its text besides; behind a parenthesis it
counts whether a declarator follows. -/
theorem Progress.read_congr (p : Progress) {t u : Token} {ts us : List Token}
    (hk : u.kind = t.kind) (ht : t.kind = .ident → u.text = t.text)
    (hd : holdsDeclarator 1 us = holdsDeclarator 1 ts) : p.read u us = p.read t ts := by
  unfold read
  rw [hk, hd]
  split <;> first | rfl | next h => rw [ht h]

/-- How the tokens of a definition end: with a semicolon, the last of them, or before a
token that cannot belong to it. -/
inductive Extent
  | closed (progress : Progress) (taken : List Token) (last : Token) (rest : List Token)
  | broken (rest : List Token)

/-- The tokens of a definition, put after `done`, which is in reverse. -/
def extent (done : List Token) (p : Progress) : List Token → Extent
  | [] => .broken []
  | t :: ts =>
    if t.kind == .punct .semicolon && p.braces == 0 && p.parens == 0 then
      .closed p (t :: done).reverse t ts
    else if t.kind == .punct .rBrace && p.braces == 0 then .broken (t :: ts)
    else extent (t :: done) (p.read t ts) ts

/-- The tokens that a definition leaves. -/
def Extent.rest : Extent → List Token
  | .closed _ _ _ rest => rest
  | .broken rest => rest

theorem extent_rest_suffix (done : List Token) (p : Progress) (ts : List Token) :
    (extent done p ts).rest <:+ ts := by
  fun_induction extent done p ts with
  | case1 => exact List.suffix_rfl
  | case2 => exact List.suffix_cons ..
  | case3 => exact List.suffix_rfl
  | case4 _ _ t ts _ _ ih => exact ih.trans (List.suffix_cons t ts)

/-- Reads a type definition behind its keyword. -/
def read (keyword : Token) (rest : List Token) : Outcome :=
  match extent [keyword] .start rest with
  | .broken after => .unexpected .typedefDecl .missingSemicolon after
  | .closed p taken last after =>
    match p.declaratorName.or p.plainName with
    | none => .failed ⟨.namelessTypedef, some keyword⟩ true after
    | some name =>
      .read (.entity (.simple (.plain .typedefDecl) name (Token.textOf taken)
        (.between keyword last))) after

theorem read_rest_suffix (keyword : Token) (rest : List Token) :
    (read keyword rest).rest <:+ rest := by
  have hs := extent_rest_suffix [keyword] .start rest
  unfold read
  split
  · next he =>
    rw [he] at hs
    exact hs
  · next he =>
    rw [he] at hs
    split <;> exact hs

end Typedef

namespace Using

/-- How a declaration ends: with a semicolon, after which its name is known, or before a
token that cannot belong to it. -/
inductive Extent
  | closed (name : Text) (taken : List Token) (last : Token) (rest : List Token)
  | broken (rest : List Token)

/-- The tokens of a declaration that names a whole namespace, put after `done`, which is
in reverse.  Everything but trivia and comments makes up the name. -/
def directive (done : List Token) (name : Text) : List Token → Extent
  | [] => .broken []
  | t :: ts =>
    match t.kind with
    | .punct .semicolon => .closed name (t :: done).reverse t ts
    | .punct .lBrace | .punct .rBrace => .broken (t :: ts)
    | k =>
      directive (t :: done) (if k.isTrivia || k.isComment then name else name ++ t.text) ts

/-- An alias or a name made known, as far as it has been read. -/
structure Progress where
  /-- The name in front of the equals sign, once that is reached. -/
  aliasName : Option Text
  lastIdent : Option Text
  seenEq : Bool
  /-- The number of open brackets of any form. -/
  depth : Nat
deriving DecidableEq, Repr

/-- A declaration of which nothing has been read. -/
def Progress.start : Progress := ⟨none, none, false, 0⟩

/-- Reads one token that does not end the declaration. -/
def Progress.read (p : Progress) (t : Token) : Progress :=
  match t.kind with
  | .punct .lParen | .punct .lBrace | .punct .lBracket => { p with depth := p.depth + 1 }
  | .punct .rParen | .punct .rBrace | .punct .rBracket => { p with depth := p.depth - 1 }
  | .punct .eq =>
    if p.depth == 0 && !p.seenEq then { p with seenEq := true, aliasName := p.lastIdent } else p
  | .ident => if p.seenEq then p else { p with lastIdent := some t.text }
  | _ => p

/-- A token is known by its kind, and an identifier by its text besides. -/
theorem Progress.read_congr (p : Progress) {t u : Token} (hk : u.kind = t.kind)
    (ht : t.kind = .ident → u.text = t.text) : p.read u = p.read t := by
  unfold read
  rw [hk]
  split <;> first | rfl | next h => rw [ht h]

/-- The tokens of an alias, or of a declaration that makes one name known, put after
`done`, which is in reverse. -/
def declaration (done : List Token) (p : Progress) : List Token → Extent
  | [] => .broken []
  | t :: ts =>
    if t.kind == .punct .semicolon && p.depth == 0 then
      .closed ((p.aliasName.or p.lastIdent).getD []) (t :: done).reverse t ts
    else if t.kind == .punct .rBrace && p.depth == 0 then .broken (t :: ts)
    else declaration (t :: done) (p.read t) ts

/-- The tokens of a using declaration behind its keyword. -/
def extent (keyword : Token) (rest : List Token) : Extent :=
  let done := (keyword :: rest.takeWhile (·.kind.isTrivia)).reverse
  match Tokens.skipTrivia rest with
  | t :: ts =>
    if t.kind == .keyword .namespaceKw then directive (t :: done) [] ts
    else declaration done .start (t :: ts)
  | [] => .broken []

/-- The tokens that a declaration leaves. -/
def Extent.rest : Extent → List Token
  | .closed _ _ _ rest => rest
  | .broken rest => rest

theorem directive_rest_suffix (done : List Token) (name : Text) (ts : List Token) :
    (directive done name ts).rest <:+ ts := by
  fun_induction directive done name ts with
  | case1 => exact List.suffix_rfl
  | case2 => exact List.suffix_cons ..
  | case3 => exact List.suffix_rfl
  | case4 => exact List.suffix_rfl
  | case5 _ _ t ts _ _ _ ih => exact ih.trans (List.suffix_cons t ts)

theorem declaration_rest_suffix (done : List Token) (p : Progress) (ts : List Token) :
    (declaration done p ts).rest <:+ ts := by
  fun_induction declaration done p ts with
  | case1 => exact List.suffix_rfl
  | case2 => exact List.suffix_cons ..
  | case3 => exact List.suffix_rfl
  | case4 _ _ t ts _ _ ih => exact ih.trans (List.suffix_cons t ts)

theorem extent_rest_suffix (keyword : Token) (rest : List Token) :
    (extent keyword rest).rest <:+ rest := by
  unfold extent
  dsimp only
  split
  · next t ts ht =>
    split
    · exact (directive_rest_suffix ..).trans (Tokens.tail_suffix_of_skipTrivia ht)
    · exact (declaration_rest_suffix ..).trans (ht ▸ Tokens.skipTrivia_suffix rest)
  · exact List.nil_suffix

/-- Reads a using declaration behind its keyword. -/
def read (lead : Lead) (keyword : Token) (rest : List Token) : Outcome :=
  match extent keyword rest with
  | .broken after => .unexpected .usingDecl .missingSemicolon after
  | .closed name taken last after =>
    if name.isEmpty then .failed ⟨.namelessUsing, some keyword⟩ true after
    else
      .read (.entity
        { Draft.simple (.plain .usingDecl) name (lead.onto (Token.textOf taken))
            (.between lead.first last) with
          template := lead.template }) after

theorem read_rest_suffix (lead : Lead) (keyword : Token) (rest : List Token) :
    (read lead keyword rest).rest <:+ rest := by
  have hs := extent_rest_suffix keyword rest
  unfold read
  split
  · next he =>
    rw [he] at hs
    exact hs
  · next he =>
    rw [he] at hs
    split <;> exact hs

end Using
end HeaderOutline.Construct
