import HeaderOutline.Construct.Brackets

/-! # Namespaces

A namespace opens a scope, stands for another namespace, or is only named.  A block
of declarations with the linkage of another language opens a scope that is none for
its members.
-/
namespace HeaderOutline.Construct.Namespace

/-- The name of a namespace as far as it has been read, the last token that counts, and
the tokens that follow. -/
structure Head where
  name : Text
  last : Token
  rest : List Token
deriving DecidableEq, Repr

/-- The tokens after `inline` and white space, if they start with it. -/
def afterInline (ts : List Token) : List Token :=
  match Tokens.eat? (.keyword .inlineKw) ts with
  | some rest => Tokens.skipSpace rest
  | none => ts

theorem afterInline_suffix (ts : List Token) : afterInline ts <:+ ts := by
  unfold afterInline
  split
  · next rest h => exact (Tokens.skipSpace_suffix rest).trans (Tokens.eat?_suffix h)
  · exact List.suffix_rfl

/-- Reads the parts of a name, put after those read already: identifiers with double
colons between them, any of them after the first behind `inline`.  A double colon at
the end belongs to the name. -/
def readName (name : Text) (last : Token) : List Token → Head
  | [] => ⟨name, last, []⟩
  | t :: ts =>
    if t.kind == .ident then
      match _h : Tokens.eat? (.punct .colonColon) ts with
      | some rest => readName (name ++ t.text ++ Text.colons) t (afterInline rest)
      | none => ⟨name ++ t.text, t, ts⟩
    else ⟨name, last, t :: ts⟩
termination_by ts => ts.length
decreasing_by
  exact Nat.lt_succ_of_le
    ((afterInline_suffix rest).trans (Tokens.eat?_suffix _h)).length_le

theorem readName_rest_suffix (name : Text) (last : Token) (ts : List Token) :
    (readName name last ts).rest <:+ ts := by
  fun_induction readName name last ts with
  | case1 => exact List.suffix_rfl
  | case2 _ _ t ts _ rest h ih =>
    exact ih.trans (((afterInline_suffix rest).trans (Tokens.eat?_suffix h)).trans
      (List.suffix_cons t ts))
  | case3 _ _ t ts => exact List.suffix_cons t ts
  | case4 => exact List.suffix_rfl

/-- The entity of a namespace. -/
def draft (name signature : Text) (first last : Token) : Draft :=
  .simple (.plain .namespaceDecl) name signature (.between first last)

/-- The tokens at which an alias ends. -/
def aliasStops : List Kind := [.punct .semicolon, .punct .lBrace, .punct .rBrace]

/-- Reads an alias of a name from its first token: it ends with a semicolon. -/
def readAlias (name : Text) (first : Token) (rest : List Token) : Outcome :=
  let (taken, after) := Tokens.upTo aliasStops (first :: rest)
  match after with
  | t :: behind =>
    if t.kind == .punct .semicolon then
      .read (.entity (draft name (Token.textOf (taken ++ [t])) first t)) behind
    else .unexpected .namespaceHead .missingSemicolon (t :: behind)
  | [] => .unexpected .namespaceHead .missingSemicolon []

/-- The signature of a namespace without its brace. -/
def signature (isInline : Bool) (name : Text) : Text :=
  (if isInline then "inline namespace".toList else "namespace".toList)
    ++ if name.isEmpty then [] else ' ' :: name

/-- Reads what follows the name: an equals sign makes an alias, a brace a scope. -/
def readEnd (isInline : Bool) (first : Token) (rest : List Token) (h : Head) : Outcome :=
  let next := Tokens.skipTrivia h.rest
  if Tokens.headKind next == .punct .eq && !h.name.isEmpty then readAlias h.name first rest
  else match Tokens.eat? (.punct .lBrace) next with
    | some members =>
      let last := next.headD h.last
      .read (.scope (draft h.name (signature isInline h.name ++ " \x7b".toList) first last) .pub)
        members
    | none =>
      if h.name.isEmpty then .unexpected .namespaceHead .invalidNamespace h.rest
      else .read (.entity (draft h.name (signature isInline h.name) first h.last)) h.rest

/-- Reads a namespace behind its first token, the keyword or `inline`. -/
def read (first : Token) (rest : List Token) : Outcome :=
  if first.kind == .keyword .inlineKw then
    match Tokens.skipTrivia rest with
    | keyword :: behind =>
      readEnd true first rest (readName [] keyword (Tokens.skipTrivia behind))
    | [] => .unexpected .namespaceHead .invalidNamespace []
  else readEnd false first rest (readName [] first (Tokens.skipTrivia rest))

/-- The tokens after the opening brace of a linkage block, if one stands behind
`extern`. -/
def afterLinkage? (rest : List Token) : Option (List Token) := do
  let behind ← Tokens.eat? .string (Tokens.skipTrivia rest)
  Tokens.eat? (.punct .lBrace) (Tokens.skipTrivia behind)

/-- An alias takes its first token, unless that one ends it. -/
theorem readAlias_rest_suffix (name : Text) {first : Token} (rest : List Token)
    (hf : aliasStops.contains first.kind = false) :
    (readAlias name first rest).rest <:+ rest := by
  have hs := Tokens.upTo_suffix aliasStops rest
  unfold readAlias
  dsimp only
  rw [Tokens.upTo_cons_snd rest hf]
  split
  · next t behind he =>
    rw [he] at hs
    split
    · exact (List.suffix_cons t behind).trans hs
    · exact hs
  · exact List.nil_suffix

theorem readEnd_rest_suffix (isInline : Bool) {first : Token} {rest : List Token} {h : Head}
    (hf : aliasStops.contains first.kind = false)
    (hr : h.rest <:+ rest) : (readEnd isInline first rest h).rest <:+ rest := by
  unfold readEnd
  dsimp only
  split
  · exact readAlias_rest_suffix _ rest hf
  · split
    · next hm => exact ((Tokens.eat?_suffix hm).trans (Tokens.skipTrivia_suffix _)).trans hr
    · split <;> exact hr

theorem read_rest_suffix {first : Token} (rest : List Token)
    (hf : aliasStops.contains first.kind = false) :
    (read first rest).rest <:+ rest := by
  unfold read
  split
  · split
    · next keyword behind hk =>
      exact readEnd_rest_suffix _ hf ((readName_rest_suffix ..).trans
        ((Tokens.skipTrivia_suffix _).trans (Tokens.tail_suffix_of_skipTrivia hk)))
    · exact List.nil_suffix
  · exact readEnd_rest_suffix _ hf ((readName_rest_suffix ..).trans (Tokens.skipTrivia_suffix _))

theorem afterLinkage?_suffix {rest members : List Token} (h : afterLinkage? rest = some members) :
    members <:+ rest := by
  unfold afterLinkage? at h
  obtain ⟨behind, hs, hb⟩ := Option.bind_eq_some_iff.mp h
  exact ((Tokens.eat?_suffix hb).trans (Tokens.skipTrivia_suffix behind)).trans
    ((Tokens.eat?_suffix hs).trans (Tokens.skipTrivia_suffix rest))

end HeaderOutline.Construct.Namespace
