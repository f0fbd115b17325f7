import HeaderOutline.Construct.Declaration
import HeaderOutline.Construct.Name

/-! # Classes

The head of a class, a struct or a union is one entity; what stands between its
braces is read as constructs of their own in the scope that the head opens.
-/
namespace HeaderOutline.Construct.Class

/-- Whether what follows the second identifier behind the keyword shows that this one is
the name of the class: a brace, a base clause or `final`. -/
def namesClass (rest : List Token) : Bool :=
  let next := Tokens.nextKind rest
  next == .punct .lBrace || next == .punct .colon || next == .keyword .finalKw

/-- The identifier that is the name of the class: the second one if the first is an
export macro, which joins the signature. -/
def exported? (ds : Definitions) (first : Token) (rest : List Token) :
    Option (Token × List Token) :=
  match Tokens.skipTrivia rest with
  | second :: behind =>
    if second.kind == .ident && (ds.contains first.text || namesClass behind) then
      some (second, behind)
    else none
  | [] => none

/-- Reads the name, if there is one. -/
def readName (ds : Definitions) (h : Head) : Head :=
  match h.rest with
  | first :: rest =>
    if first.kind == .ident then
      let (signature, n) := match exported? ds first rest with
        | some (second, behind) =>
          (h.signature ++ ' ' :: first.text, qualifiedName second.text second behind)
        | none => (h.signature, qualifiedName first.text first rest)
      ⟨signature ++ ' ' :: n.name, n.name, n.last, n.rest⟩
    else h
  | [] => h

/-- Reads the template arguments behind a name, if there are any. -/
def readArguments (h : Head) : Except Outcome Head :=
  match Tokens.skipTrivia h.rest with
  | t :: rest =>
    if !h.name.isEmpty && t.kind == .punct .lt then
      match Tokens.angles? (t :: rest) with
      | none => .error (.failed ⟨.unclosedClassArguments, some t⟩ false h.rest)
      | some (list, after) =>
        .ok ⟨h.signature ++ Token.textOf list, h.name, list.getLastD t, after⟩
    else .ok h
  | [] => .ok h

/-- Reads `final`, if it is there. -/
def readFinal (h : Head) : Head :=
  match Tokens.skipTrivia h.rest with
  | t :: rest =>
    if t.kind == .keyword .finalKw then
      ⟨h.signature ++ " final".toList, h.name, t, Tokens.skipTrivia rest⟩
    else { h with rest := t :: rest }
  | [] => { h with rest := [] }

/-- The head up to a brace, a semicolon or whatever follows, behind the keyword. -/
def head (ds : Definitions) (keyword : Token) (rest : List Token) : Except Outcome Head := do
  let start : Head :=
    ⟨keyword.text, [], keyword, Tokens.skipAttributes (Tokens.skipTrivia rest)⟩
  let h ← readArguments (readName ds start)
  (readFinal h).readClause .classHead

/-- The entity of a class whose last token is known. -/
def draft (lead : Lead) (kind : EntityKind) (signature name : Text) (last : Token) : Draft :=
  { Draft.simple (.plain kind) name (lead.onto signature) (.between lead.first last) with
    template := lead.template }

/-- Reads what follows the head: a brace that opens the scope, a semicolon or nothing. -/
def readEnd (lead : Lead) (kind : EntityKind) (access : Access) (h : Head) : Outcome :=
  match h.rest with
  | [] =>
    if h.name.isEmpty then .unexpected .classHead .missingName []
    else .read (.entity (draft lead kind h.signature h.name h.last)) []
  | t :: rest =>
    if t.kind == .punct .lBrace then
      .read (.scope (draft lead kind (h.signature ++ " \x7b".toList) h.name t) access) rest
    else if t.kind == .punct .semicolon then
      .read (.entity (draft lead kind h.signature h.name t)) rest
    else if h.name.isEmpty then .unexpected .classHead .missingName (t :: rest)
    else .read (.entity (draft lead kind h.signature h.name h.last)) (t :: rest)

/-- Whether a known macro comes first. -/
def startsWithMacro (ds : Definitions) (rest : List Token) : Bool :=
  match Tokens.skipTrivia rest with
  | t :: _ => t.kind == .ident && ds.contains t.text
  | [] => false

/-- Reads a class behind its keyword, or a declaration that uses one.  Members of a class
are private at first, those of a struct or a union public. -/
def read (ds : Definitions) (lead : Lead) (keyword : Token) (rest : List Token) : Outcome :=
  if lead.text.isEmpty && !startsWithMacro ds rest && Declaration.isElaborated rest then
    Declaration.read ds lead (keyword :: rest)
  else match head ds keyword rest with
    | .error outcome => outcome
    | .ok h =>
      if keyword.kind == .keyword .classKw then readEnd lead .classDecl .priv h
      else readEnd lead .structDecl .pub h

theorem exported?_suffix {ds : Definitions} {first second : Token} {rest behind : List Token}
    (h : exported? ds first rest = some (second, behind)) : behind <:+ rest := by
  unfold exported? at h
  split at h
  · next ht =>
    split at h
    · obtain ⟨rfl, rfl⟩ := by simpa using h
      exact Tokens.tail_suffix_of_skipTrivia ht
    · simp at h
  · simp at h

theorem readName_rest_suffix (ds : Definitions) (h : Head) :
    (readName ds h).rest <:+ h.rest := by
  unfold readName
  split
  · next first rest ht =>
    have hr : rest <:+ h.rest := ht ▸ List.suffix_cons first rest
    split
    · dsimp only
      split
      · next he =>
        exact (qualifiedName_suffix ..).trans ((exported?_suffix he).trans hr)
      · exact (qualifiedName_suffix ..).trans hr
    · exact List.suffix_rfl
  · exact List.suffix_rfl

theorem readArguments_suffix (h : Head) :
    Outcome.leftBy (·.rest) (readArguments h) <:+ h.rest := by
  unfold readArguments
  split
  · next t rest ht =>
    split
    · split
      · exact List.suffix_rfl
      · next ha =>
        exact (Tokens.angles?_suffix ha).trans (ht ▸ Tokens.skipTrivia_suffix h.rest)
    · exact List.suffix_rfl
  · exact List.suffix_rfl

theorem readFinal_rest_suffix (h : Head) : (readFinal h).rest <:+ h.rest := by
  unfold readFinal
  split
  · next t rest ht =>
    split
    · exact (Tokens.skipTrivia_suffix rest).trans (Tokens.tail_suffix_of_skipTrivia ht)
    · exact ht ▸ Tokens.skipTrivia_suffix h.rest
  · exact List.nil_suffix

theorem head_suffix (ds : Definitions) (keyword : Token) (rest : List Token) :
    Outcome.leftBy (·.rest) (head ds keyword rest) <:+ rest := by
  unfold head
  dsimp only
  generalize hn : readName ds _ = named
  have hs : named.rest <:+ rest := by
    rw [← hn]
    exact (readName_rest_suffix ds _).trans
      ((Tokens.skipAttributes_suffix _).trans (Tokens.skipTrivia_suffix rest))
  have ha := (readArguments_suffix named).trans hs
  cases he : readArguments named with
  | error outcome =>
    rw [he] at ha
    exact ha
  | ok h =>
    rw [he] at ha
    exact ((readFinal h).readClause_suffix _).trans ((readFinal_rest_suffix h).trans ha)

theorem readEnd_rest_suffix (lead : Lead) (kind : EntityKind) (access : Access) (h : Head) :
    (readEnd lead kind access h).rest <:+ h.rest := by
  unfold readEnd
  split
  · split <;> exact List.nil_suffix
  · next t rest ht =>
    rw [ht]
    split
    · exact List.suffix_cons t rest
    · split
      · exact List.suffix_cons t rest
      · split <;> exact List.suffix_rfl

theorem read_rest_suffix (ds : Definitions) (lead : Lead) {keyword : Token} (rest : List Token)
    (hh : keyword.kind ≠ .punct .hash) (hc : keyword.kind ≠ .punct .rBrace) :
    (read ds lead keyword rest).rest <:+ rest := by
  unfold read
  split
  · exact Declaration.read_rest_suffix ds lead rest hh hc
  · have hs := head_suffix ds keyword rest
    split
    · next he =>
      rw [he] at hs
      exact hs
    · next he =>
      rw [he] at hs
      split <;> exact (readEnd_rest_suffix ..).trans hs

end HeaderOutline.Construct.Class
