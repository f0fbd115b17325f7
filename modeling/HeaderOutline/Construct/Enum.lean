import HeaderOutline.Construct.Declaration
import HeaderOutline.Construct.Name

/-! # Enums

An enum is one entity: its enumerators belong to its signature.
-/
namespace HeaderOutline.Construct.Enum

/-- Reads `class` or `struct` behind the keyword. -/
def readScoped (h : Head) : Head :=
  match h.rest with
  | t :: rest =>
    if t.kind == .keyword .classKw || t.kind == .keyword .structKw then
      ⟨h.signature ++ ' ' :: t.text, h.name, t, Tokens.skipTrivia rest⟩
    else h
  | [] => h

/-- Reads the name, if there is one. -/
def readName (h : Head) : Head :=
  match h.rest with
  | t :: rest =>
    if t.kind == .ident then
      let n := qualifiedName t.text t rest
      ⟨h.signature ++ ' ' :: n.name, n.name, n.last, Tokens.skipTrivia n.rest⟩
    else h
  | [] => h

/-- The head up to the name, behind the keyword. -/
def head (keyword : Token) (rest : List Token) : Head :=
  let h := readScoped ⟨"enum".toList, [], keyword, Tokens.skipTrivia rest⟩
  readName { h with rest := Tokens.skipAttributes h.rest }

/-- The entity of an enum whose last token is known. -/
def item (lead : Lead) (signature name : Text) (last : Token) : Item :=
  .entity (.simple (.plain .enumDecl) name (lead.onto signature) (.between lead.first last))

/-- Reads what follows the head: a body, a semicolon, both, or nothing. -/
def readEnd (lead : Lead) (h : Head) : Outcome :=
  match h.rest with
  | [] =>
    if h.name.isEmpty then .unexpected .enumHead .missingName []
    else .read (item lead h.signature h.name h.last) []
  | t :: rest =>
    if t.kind == .punct .lBrace then
      match Tokens.block? (t :: rest) with
      | none => .failed ⟨.unclosedEnumBody, some t⟩ false []
      | some (block, after) =>
        let signature := h.signature ++ ' ' :: Token.textOf block
        match after with
        | s :: behind =>
          if s.kind == .punct .semicolon then
            .read (item lead (signature ++ [';']) h.name s) behind
          else .read (item lead signature h.name (block.getLastD t)) after
        | [] => .read (item lead signature h.name (block.getLastD t)) []
    else if t.kind == .punct .semicolon then
      .read (item lead (h.signature ++ [';']) h.name t) rest
    else if h.name.isEmpty then .unexpected .enumHead .missingName (t :: rest)
    else .read (item lead h.signature h.name h.last) (t :: rest)

/-- Reads an enum behind its keyword, or a declaration that uses one. -/
def read (ds : Definitions) (lead : Lead) (keyword : Token) (rest : List Token) : Outcome :=
  if lead.text.isEmpty && Declaration.isElaborated rest then
    Declaration.read ds lead (keyword :: rest)
  else match (head keyword rest).readClause .enumHead with
    | .error outcome => outcome
    | .ok h => readEnd lead h

theorem readScoped_rest_suffix (h : Head) : (readScoped h).rest <:+ h.rest := by
  unfold readScoped
  split
  · next t rest ht =>
    split
    · exact (Tokens.skipTrivia_suffix rest).trans (ht ▸ List.suffix_cons t rest)
    · exact List.suffix_rfl
  · exact List.suffix_rfl

theorem readName_rest_suffix (h : Head) : (readName h).rest <:+ h.rest := by
  unfold readName
  split
  · next t rest ht =>
    split
    · exact ((Tokens.skipTrivia_suffix _).trans (qualifiedName_suffix ..)).trans
        (ht ▸ List.suffix_cons t rest)
    · exact List.suffix_rfl
  · exact List.suffix_rfl

theorem head_rest_suffix (keyword : Token) (rest : List Token) :
    (head keyword rest).rest <:+ rest :=
  (readName_rest_suffix _).trans ((Tokens.skipAttributes_suffix _).trans
    ((readScoped_rest_suffix _).trans (Tokens.skipTrivia_suffix rest)))

theorem readEnd_rest_suffix (lead : Lead) (h : Head) : (readEnd lead h).rest <:+ h.rest := by
  unfold readEnd
  split
  · split <;> exact List.nil_suffix
  · next t rest ht =>
    rw [ht]
    split
    · split
      · exact List.nil_suffix
      · next block after hb =>
        have hs := Tokens.block?_suffix hb
        dsimp only
        split
        · next s behind =>
          split
          · exact (List.suffix_cons s behind).trans hs
          · exact hs
        · exact List.nil_suffix
    · split
      · exact List.suffix_cons t rest
      · split <;> exact List.suffix_rfl

theorem read_rest_suffix (ds : Definitions) (lead : Lead) {keyword : Token} (rest : List Token)
    (hh : keyword.kind ≠ .punct .hash) (hc : keyword.kind ≠ .punct .rBrace) :
    (read ds lead keyword rest).rest <:+ rest := by
  unfold read
  split
  · exact Declaration.read_rest_suffix ds lead rest hh hc
  · have hs := ((head keyword rest).readClause_suffix .enumHead).trans
      (head_rest_suffix keyword rest)
    split
    · next he =>
      rw [he] at hs
      exact hs
    · next he =>
      rw [he] at hs
      exact (readEnd_rest_suffix ..).trans hs

end HeaderOutline.Construct.Enum
