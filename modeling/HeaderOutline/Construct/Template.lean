import HeaderOutline.Construct.Alias
import HeaderOutline.Construct.Class

/-! # Templates

A template is a declaration of another kind behind one or more parameter lists.  The
lists are kept as they are written in front of the signature, and cut into
parameters.
-/
namespace HeaderOutline.Construct.Template

/-- The pieces of a parameter list between commas outside of all brackets, with the
piece read so far in reverse and the number of brackets open there. -/
def splitCommas (depth : Int) (piece : Text) : Text → List Text
  | [] => [piece.reverse]
  | c :: t =>
    if c == ',' && depth == 0 then piece.reverse :: splitCommas depth [] t
    else if c == '<' || c == '(' || c == '[' || c == '{' then
      splitCommas (depth + 1) (c :: piece) t
    else if c == '>' || c == ')' || c == ']' || c == '}' then
      splitCommas (depth - 1) (c :: piece) t
    else splitCommas depth (c :: piece) t

/-- The parameters of a list in angle brackets, each on one line. -/
def params (list : Text) : List Text :=
  let inner := (list.trim.dropLead ['<']).dropTail ['>']
  ((splitCommas 0 [] inner).map Text.collapse).filter (!·.isEmpty)

/-- The parameter lists of a template: how they are written, the parameters of all of
them, and the tokens of the declaration. -/
structure Clauses where
  texts : List Text
  params : List Text
  rest : List Token
deriving DecidableEq, Repr

/-- Reads parameter lists, as long as there are any, after those read already. -/
def clauses (texts parameters : List Text) : List Token → Except Outcome Clauses
  | [] => .ok ⟨texts, parameters, []⟩
  | t :: ts =>
    if t.kind == .keyword .templateKw then
      let list := Tokens.skipTrivia ts
      if Tokens.headKind list != .punct .lt then
        .error (.failed ⟨.templateWithoutList t, list.head?⟩ false list)
      else match _h : Tokens.angles? (Tokens.skipTrivia ts) with
        | none => .error (.failed ⟨.unclosedTemplateList, list.head?⟩ false list)
        | some (taken, after) =>
          let text := Token.textOf taken
          clauses (texts ++ ["template ".toList ++ text]) (parameters ++ params text)
            (Tokens.skipGap after)
    else .ok ⟨texts, parameters, t :: ts⟩
termination_by ts => ts.length
decreasing_by
  exact Nat.lt_succ_of_le (((Tokens.skipGap_suffix after).trans
    (Tokens.angles?_suffix _h)).trans (Tokens.skipTrivia_suffix ts)).length_le

/-- Whether a token may open a variable. -/
def opensVariable (k : Kind) : Bool :=
  k == .ident || k == .keyword .typenameKw || k.isBuiltinType || specifiers.contains k

/-- Reads the declaration behind the parameter lists. -/
def readDeclaration (ds : Definitions) (lead : Lead) (ts : List Token) : Outcome :=
  match ts with
  | [] => .unexpected .template .unsupportedTemplate []
  | t :: rest =>
    if t.kind == .keyword .classKw || t.kind == .keyword .structKw || t.kind == .keyword .unionKw
    then Class.read ds lead t rest
    else if t.kind == .keyword .usingKw then Using.read lead t rest
    else if Declaration.isFunction (t :: rest) then Function.read ds lead (t :: rest)
    else if opensVariable t.kind then Variable.read ds lead (t :: rest)
    else .unexpected .template .unsupportedTemplate (t :: rest)

/-- Reads a template from its first keyword. -/
def read (ds : Definitions) (keyword : Token) (rest : List Token) : Outcome :=
  match clauses [] [] (keyword :: rest) with
  | .error outcome => outcome
  | .ok c => readDeclaration ds ⟨keyword, Text.joinWith [' '] c.texts, some c.params⟩ c.rest

theorem clauses_suffix (texts parameters : List Text) (ts : List Token) :
    Outcome.leftBy (·.rest) (clauses texts parameters ts) <:+ ts := by
  fun_induction clauses texts parameters ts with
  | case1 => exact List.suffix_rfl
  | case2 _ _ t ts => exact (Tokens.skipTrivia_suffix ts).trans (List.suffix_cons t ts)
  | case3 _ _ t ts => exact (Tokens.skipTrivia_suffix ts).trans (List.suffix_cons t ts)
  | case4 _ _ t ts _ _ _ _ after h _ ih =>
    exact ih.trans (((Tokens.skipGap_suffix after).trans (Tokens.angles?_suffix h)).trans
      ((Tokens.skipTrivia_suffix ts).trans (List.suffix_cons t ts)))
  | case5 => exact List.suffix_rfl

/-- Parameter lists take the keyword that they start with. -/
theorem clauses_keyword_suffix (texts parameters : List Text) {keyword : Token}
    (rest : List Token) (hk : keyword.kind = .keyword .templateKw) :
    Outcome.leftBy (·.rest) (clauses texts parameters (keyword :: rest)) <:+ rest := by
  unfold clauses
  rw [if_pos (by simp [hk])]
  dsimp only
  split
  · exact Tokens.skipTrivia_suffix rest
  · split
    · exact Tokens.skipTrivia_suffix rest
    · next after h =>
      exact (clauses_suffix ..).trans (((Tokens.skipGap_suffix after).trans
        (Tokens.angles?_suffix h)).trans (Tokens.skipTrivia_suffix rest))

theorem readDeclaration_rest_suffix (ds : Definitions) (lead : Lead) (ts : List Token) :
    (readDeclaration ds lead ts).rest <:+ ts := by
  unfold readDeclaration
  split
  · exact List.suffix_rfl
  · next t rest =>
    have hs := List.suffix_cons t rest
    split
    · next hk =>
      refine (Class.read_rest_suffix ds lead rest ?_ ?_).trans hs
      · rintro h
        simp [h] at hk
      · rintro h
        simp [h] at hk
    · split
      · exact (Using.read_rest_suffix lead t rest).trans hs
      · split
        · exact (Function.read_suffix_extent ..).trans (Function.extent_rest_suffix ..)
        · split
          · rw [Variable.read_rest_eq]
            exact Variable.extent_rest_suffix ..
          · exact List.suffix_rfl

theorem read_rest_suffix (ds : Definitions) {keyword : Token} (rest : List Token)
    (hk : keyword.kind = .keyword .templateKw) : (read ds keyword rest).rest <:+ rest := by
  have hs := clauses_keyword_suffix [] [] rest hk
  unfold read
  split
  · next he =>
    rw [he] at hs
    exact hs
  · next he =>
    rw [he] at hs
    exact (readDeclaration_rest_suffix ..).trans hs

end HeaderOutline.Construct.Template
