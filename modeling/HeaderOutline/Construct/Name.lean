import HeaderOutline.Construct.Brackets

/-! # Names and heads

A qualified name is an identifier and, behind double colons without space, further ones.  It stands
in the head of a class or an enum, behind which a colon leads in the bases of the class or the type
of the enum.
-/
namespace HeaderOutline.Construct

/-- A name, the last of its tokens, and the tokens after it. -/
structure NameReading where
  name : Text
  last : Token
  rest : List Token
deriving DecidableEq, Repr

/-- The name that starts with an identifier already read: more parts follow as long as
a double colon and an identifier do. -/
def qualifiedName (name : Text) (last : Token) : List Token → NameReading
  | c :: i :: rest =>
    if c.kind == .punct .colonColon && i.kind == .ident then
      qualifiedName (name ++ c.text ++ i.text) i rest
    else ⟨name, last, c :: i :: rest⟩
  | rest => ⟨name, last, rest⟩

theorem qualifiedName_suffix (name : Text) (last : Token) (ts : List Token) :
    (qualifiedName name last ts).rest <:+ ts := by
  fun_induction qualifiedName name last ts with
  | case1 _ _ c i rest _ ih =>
    exact ih.trans ((List.suffix_cons i rest).trans (List.suffix_cons c _))
  | case2 => exact List.suffix_rfl
  | case3 => exact List.suffix_rfl

/-- The head of a class or an enum: its signature and name so far, the last token that counts, and
the tokens that follow. -/
structure Head where
  signature : Text
  name : Text
  last : Token
  rest : List Token
deriving DecidableEq, Repr

namespace Head

/-- Reads the clause that a colon leads in, if there is one. -/
def readClause (context : Context) (h : Head) : Except Outcome Head :=
  match h.rest with
  | t :: rest =>
    if t.kind == .punct .colon then
      match Tokens.clause rest with
      | .error after => .error (.unexpected context .misplacedToken after)
      | .ok (clause, after) =>
        .ok ⟨h.signature ++ " : ".toList ++ clause, h.name, h.last, after⟩
    else .ok h
  | [] => .ok h

theorem readClause_suffix (context : Context) (h : Head) :
    Outcome.leftBy (·.rest) (h.readClause context) <:+ h.rest := by
  unfold readClause
  split
  · next t rest ht =>
    have hr : rest <:+ h.rest := ht ▸ List.suffix_cons t rest
    split
    · split
      · next he => exact (Tokens.clause_error_suffix he).trans hr
      · next he => exact (Tokens.clause_ok_suffix he).trans hr
    · exact List.suffix_rfl
  · exact List.suffix_rfl

end Head
end HeaderOutline.Construct
