import HeaderOutline.Construct.Comment
import HeaderOutline.Construct.Directive
import HeaderOutline.Construct.Enum
import HeaderOutline.Construct.Namespace
import HeaderOutline.Construct.Template

/-! # Reading one construct

The first token, and at times the one after it, tells which construct comes next.
What begins like no other construct is a function or a variable.

Every construct takes its first token, and what it leaves is a suffix of the tokens
behind that one (`read_rest_suffix`).  So the reading of a header comes to an end.
-/
namespace HeaderOutline.Construct

/-- Reads an access specifier behind its keyword. -/
def readAccess (keyword : Token) (level : Access) (rest : List Token) : Outcome :=
  let after := Tokens.skipSpace rest
  match Tokens.eat? (.punct .colon) after with
  | some behind =>
    let word := level.label.toList
    .read (.access level (.simple (.plain .accessSpecifier) word (word ++ [':'])
      (.between keyword (after.headD keyword)))) behind
  | none => .unexpected .accessSpecifier .missingColon after

/-- Reads the end of a scope; a semicolon directly behind the brace belongs to it. -/
def readClose (brace : Token) (rest : List Token) : Outcome :=
  .read (.close brace) ((Tokens.eat? (.punct .semicolon) rest).getD rest)

/-- The token that starts a class or an enum behind a macro on the same line, and the
tokens after it. -/
def exportedHead? (rest : List Token) : Option (Token × List Token) :=
  match Tokens.skipSpace rest with
  | t :: behind =>
    if t.kind == .keyword .classKw || t.kind == .keyword .structKw || t.kind == .keyword .unionKw
      || t.kind == .keyword .enumKw
    then some (t, behind) else none
  | [] => none

/-- Reads a class or an enum behind a macro, what the macro stands for being put in front
of the signature; any other declaration is read with the name of the macro. -/
def readWord (ds : Definitions) (word : Token) (rest : List Token) : Outcome :=
  match if ds.contains word.text then exportedHead? rest else none with
  | some (t, behind) =>
    let lead : Lead := ⟨word, (ds.resolve word.text).trim, none⟩
    if t.kind == .keyword .enumKw then Enum.read ds lead t behind
    else Class.read ds lead t behind
  | none => Declaration.read ds (.none word) (word :: rest)

/-- Reads the construct that starts with a token. -/
def read (ds : Definitions) (merge : Bool) (t : Token) (rest : List Token) : Outcome :=
  match t.kind with
  | .punct .hash => Directive.read t rest
  | .lineComment | .blockComment | .docComment => Comment.read merge t rest
  | .keyword .templateKw => Template.read ds t rest
  | .keyword .namespaceKw => Namespace.read t rest
  | .keyword .inlineKw =>
    if Tokens.nextKind rest == .keyword .namespaceKw then Namespace.read t rest
    else Declaration.read ds (.none t) (t :: rest)
  | .keyword .classKw | .keyword .structKw | .keyword .unionKw => Class.read ds (.none t) t rest
  | .keyword .enumKw => Enum.read ds (.none t) t rest
  | .keyword .typedefKw => Typedef.read t rest
  | .keyword .usingKw => Using.read (.none t) t rest
  | .keyword .publicKw => readAccess t .pub rest
  | .keyword .protectedKw => readAccess t .prot rest
  | .keyword .privateKw => readAccess t .priv rest
  | .punct .rBrace => readClose t rest
  | .punct .semicolon => .read .nothing rest
  | .keyword .externKw =>
    match Namespace.afterLinkage? rest with
    | some members => .read .linkage members
    | none => Declaration.read ds (.none t) (t :: rest)
  | .ident => readWord ds t rest
  | _ => Declaration.read ds (.none t) (t :: rest)

theorem readAccess_rest_suffix (keyword : Token) (level : Access) (rest : List Token) :
    (readAccess keyword level rest).rest <:+ rest := by
  unfold readAccess
  dsimp only
  split
  · next h => exact (Tokens.eat?_suffix h).trans (Tokens.skipSpace_suffix rest)
  · exact Tokens.skipSpace_suffix rest

theorem readClose_rest_suffix (brace : Token) (rest : List Token) :
    (readClose brace rest).rest <:+ rest := by
  rw [readClose, Outcome.rest_read]
  cases h : Tokens.eat? (.punct .semicolon) rest with
  | none => exact List.suffix_rfl
  | some behind => exact Tokens.eat?_suffix h

theorem exportedHead?_suffix {rest behind : List Token} {t : Token}
    (h : exportedHead? rest = some (t, behind)) : behind <:+ rest := by
  unfold exportedHead? at h
  split at h
  · next hs =>
    split at h
    · obtain ⟨rfl, rfl⟩ := by simpa using h
      exact Tokens.tail_suffix_of_skipSpace hs
    · simp at h
  · simp at h

/-- What starts behind a macro does so with a keyword. -/
theorem exportedHead?_kind {rest behind : List Token} {t : Token}
    (h : exportedHead? rest = some (t, behind)) :
    t.kind ≠ .punct .hash ∧ t.kind ≠ .punct .rBrace := by
  unfold exportedHead? at h
  split at h
  · split at h
    · next hk =>
      obtain ⟨rfl, rfl⟩ := by simpa using h
      constructor <;>
        · intro hp
          simp [hp] at hk
    · simp at h
  · simp at h

theorem readWord_rest_suffix (ds : Definitions) {word : Token} (rest : List Token)
    (hh : word.kind ≠ .punct .hash) (hc : word.kind ≠ .punct .rBrace) :
    (readWord ds word rest).rest <:+ rest := by
  unfold readWord
  split
  · next t behind he =>
    have he : exportedHead? rest = some (t, behind) := by
      split at he
      · exact he
      · cases he
    obtain ⟨hth, htc⟩ := exportedHead?_kind he
    have hs := exportedHead?_suffix he
    dsimp only
    split
    · exact (Enum.read_rest_suffix ds _ behind hth htc).trans hs
    · exact (Class.read_rest_suffix ds _ behind hth htc).trans hs
  · exact Declaration.read_rest_suffix ds _ rest hh hc

/-- A construct takes its first token, and leaves what it does not take as it is. -/
theorem read_rest_suffix (ds : Definitions) (merge : Bool) (t : Token) (rest : List Token) :
    (read ds merge t rest).rest <:+ rest := by
  unfold read
  split
  · exact Directive.read_rest_suffix t rest
  · exact Comment.read_rest_suffix merge t rest
  · exact Comment.read_rest_suffix merge t rest
  · exact Comment.read_rest_suffix merge t rest
  · next h => exact Template.read_rest_suffix ds rest h
  · next h => exact Namespace.read_rest_suffix rest (by rw [h]; decide)
  · next h =>
    split
    · exact Namespace.read_rest_suffix rest (by rw [h]; decide)
    · exact Declaration.read_rest_suffix ds _ rest (by simp [h]) (by simp [h])
  · next h => exact Class.read_rest_suffix ds _ rest (by simp [h]) (by simp [h])
  · next h => exact Class.read_rest_suffix ds _ rest (by simp [h]) (by simp [h])
  · next h => exact Class.read_rest_suffix ds _ rest (by simp [h]) (by simp [h])
  · next h => exact Enum.read_rest_suffix ds _ rest (by simp [h]) (by simp [h])
  · exact Typedef.read_rest_suffix t rest
  · exact Using.read_rest_suffix _ t rest
  · exact readAccess_rest_suffix t _ rest
  · exact readAccess_rest_suffix t _ rest
  · exact readAccess_rest_suffix t _ rest
  · exact readClose_rest_suffix t rest
  · exact List.suffix_rfl
  · next h =>
    split
    · next hm => exact Namespace.afterLinkage?_suffix hm
    · exact Declaration.read_rest_suffix ds _ rest (by simp [h]) (by simp [h])
  · next h => exact readWord_rest_suffix ds rest (by simp [h]) (by simp [h])
  · next hh _ _ _ _ _ _ _ _ _ _ _ _ _ _ _ hc _ _ _ =>
    exact Declaration.read_rest_suffix ds _ rest hh hc

end HeaderOutline.Construct
