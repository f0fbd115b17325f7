import HeaderOutline.Construct.Brackets

/-! # Variables

A declaration that is no function is a variable: its name is the last identifier
before the initializer, and it ends with a semicolon or with a block that nothing
follows.
-/
namespace HeaderOutline.Construct

/-- The keywords that may open a declaration without naming a type. -/
def specifiers : List Kind :=
  [.keyword .staticKw, .keyword .externKw, .keyword .inlineKw, .keyword .virtualKw,
   .keyword .constKw, .keyword .constexprKw, .keyword .mutableKw, .keyword .volatileKw,
   .keyword .explicitKw, .keyword .friendKw]

namespace Variable

/-- A variable as far as it has been read. -/
structure Progress where
  name : Option Text
  /-- Whether the initializer has been reached. -/
  initializer : Bool
  /-- The number of open brackets of any form. -/
  depth : Nat
  flags : Flags
deriving DecidableEq, Repr

/-- A variable of which nothing has been read. -/
def Progress.start : Progress := ⟨none, false, 0, .none⟩

/-- Whether a block is part of an initializer: a semicolon, a comma or an equals sign
follows it. -/
def continuesAfterBlock (rest : List Token) : Bool :=
  let next := Tokens.nextKind rest
  next == .punct .semicolon || next == .punct .comma || next == .punct .eq

/-- Reads one token that does not end the declaration. -/
def Progress.read (p : Progress) (t : Token) : Progress :=
  match t.kind with
  | .punct .lBrace | .punct .lBracket =>
    { p with initializer := p.initializer || p.depth == 0, depth := p.depth + 1 }
  | .punct .lParen => { p with depth := p.depth + 1 }
  | .punct .rParen | .punct .rBracket | .punct .rBrace => { p with depth := p.depth - 1 }
  | .punct .eq | .punct .colon =>
    if p.depth == 0 then { p with initializer := true } else p
  | .ident =>
    if p.depth == 0 && !p.initializer then { p with name := some t.text } else p
  | .keyword .staticKw =>
    if p.depth == 0 then { p with flags := { p.flags with isStatic := true } } else p
  | .keyword .inlineKw =>
    if p.depth == 0 then { p with flags := { p.flags with isInline := true } } else p
  | .keyword .constKw | .keyword .constexprKw =>
    if p.depth == 0 && !p.initializer then { p with flags := { p.flags with isConst := true } }
    else p
  | _ => p

/-- A token is known by its kind, and an identifier by its text besides. -/
theorem Progress.read_congr (p : Progress) {t u : Token} (hk : u.kind = t.kind)
    (ht : t.kind = .ident → u.text = t.text) : p.read u = p.read t := by
  unfold read
  rw [hk]
  split <;> first | rfl | next h => rw [ht h]

/-- Whether a token cannot belong to the declaration. -/
def Progress.refuses (p : Progress) (k : Kind) : Bool :=
  p.depth == 0 &&
    (k == .punct .hash || k == .punct .rBrace
      || p.name.isSome && Context.variableDecl.stops.contains k)

/-- Whether a token ends the declaration. -/
def Progress.endsWith (p : Progress) (k : Kind) (rest : List Token) : Bool :=
  p.depth == 0 && k == .punct .semicolon
    || p.depth == 1 && k == .punct .rBrace && !continuesAfterBlock rest

/-- How the tokens of a declaration end: with the last of them, or before one that
cannot belong to it. -/
inductive Extent
  | closed (progress : Progress) (taken rest : List Token)
  | broken (rest : List Token)

/-- The tokens of a declaration, put after `done`, which is in reverse. -/
def extent (done : List Token) (p : Progress) : List Token → Extent
  | [] => .broken []
  | t :: ts =>
    if p.refuses t.kind then .broken (t :: ts)
    else if p.endsWith t.kind ts then .closed p (t :: done).reverse ts
    else extent (t :: done) (p.read t) ts

/-- The tokens that a declaration leaves. -/
def Extent.rest : Extent → List Token
  | .closed _ _ rest => rest
  | .broken rest => rest

theorem extent_rest_suffix (done : List Token) (p : Progress) (ts : List Token) :
    (extent done p ts).rest <:+ ts := by
  fun_induction extent done p ts with
  | case1 => exact List.suffix_rfl
  | case2 => exact List.suffix_rfl
  | case3 => exact List.suffix_cons ..
  | case4 _ _ t ts _ _ ih => exact ih.trans (List.suffix_cons t ts)

/-- Reads a variable. -/
def read (ds : Definitions) (lead : Lead) (ts : List Token) : Outcome :=
  match extent [] .start ts with
  | .broken rest => .unexpected .variableDecl .missingSemicolon rest
  | .closed p taken rest =>
    let last := taken.getLastD lead.first
    match p.name with
    | none =>
      .failed ⟨.namelessDeclaration, ts.head?⟩ (last.kind == .punct .semicolon) rest
    | some name =>
      let signature := lead.onto (Tokens.substituted ds taken).trimEnd
      .read (.entity
        { Draft.simple .variableDecl name signature (.between lead.first last) with
          flags := p.flags
          template := lead.template }) rest

theorem read_rest_eq (ds : Definitions) (lead : Lead) (ts : List Token) :
    (read ds lead ts).rest = (extent [] .start ts).rest := by
  unfold read
  split
  · next he =>
    rw [he]
    rfl
  · next he =>
    rw [he]
    dsimp only
    split <;> rfl

/-- A variable takes its first token, unless it refuses that one. -/
theorem read_rest_suffix (ds : Definitions) (lead : Lead) {t : Token} (ts : List Token)
    (h : Progress.start.refuses t.kind = false) : (read ds lead (t :: ts)).rest <:+ ts := by
  rw [read_rest_eq, extent, if_neg (by simp [h])]
  split
  · exact List.suffix_rfl
  · exact extent_rest_suffix ..

end Variable
end HeaderOutline.Construct
