import HeaderOutline.Construct.Brackets

/-! # Directives

A directive takes its line and the lines that a backslash joins to it.  Directives
are recorded and not obeyed, but the macros that they define are remembered.
-/
namespace HeaderOutline.Construct.Directive

/-- The tokens after a line end that the backslash in front of the given tokens takes
away; white space may stand between the two. -/
def afterContinuation? (rest : List Token) : Option (List Token) :=
  Tokens.eat? .newline (Tokens.skipSpace rest)

/-- The white space and the line end that a backslash takes away. -/
def continuation (rest : List Token) : List Token :=
  rest.takeWhile (·.kind == .whitespace) ++ (Tokens.skipSpace rest).take 1

theorem afterContinuation?_length_lt {ts rest : List Token}
    (h : afterContinuation? ts = some rest) : rest.length < ts.length :=
  Nat.lt_of_lt_of_le (Tokens.eat?_length_lt h) (Tokens.skipSpace_suffix ts).length_le

theorem afterContinuation?_suffix {ts rest : List Token}
    (h : afterContinuation? ts = some rest) : rest <:+ ts :=
  (Tokens.eat?_suffix h).trans (Tokens.skipSpace_suffix ts)

/-! ## Directives of any name -/

/-- Whether a directive ends before a token: at the end of the line or at a comment that
runs up to it. -/
def endsBefore (t : Token) : Bool :=
  t.kind == .newline || t.kind == .lineComment
    || t.kind == .docComment && "//".toList.isPrefixOf t.text

/-- A directive as far as it has been read: the tokens up to the last one that counts
and those behind it, both in reverse. -/
structure Extent where
  kept : List Token
  loose : List Token
deriving DecidableEq, Repr

/-- One more token, which does not count. -/
def Extent.pass (e : Extent) (t : Token) : Extent := ⟨e.kept, t :: e.loose⟩

/-- One more token, which counts. -/
def Extent.keep (e : Extent) (t : Token) : Extent := ⟨t :: (e.loose ++ e.kept), []⟩

/-- One more token of a directive: trivia does not count. -/
def Extent.add (e : Extent) (t : Token) : Extent :=
  if t.kind.isTrivia then e.pass t else e.keep t

/-- The tokens of a directive and those after it. -/
def extent (e : Extent) : List Token → Extent × List Token
  | [] => (e, [])
  | t :: ts =>
    if endsBefore t then (e, t :: ts)
    else if t.kind == .punct .backslash then
      match _h : afterContinuation? ts with
      | some rest => extent ((t :: continuation ts).foldl .pass e) rest
      | none => extent (e.keep t) ts
    else extent (e.add t) ts
termination_by ts => ts.length
decreasing_by
  · exact Nat.lt_succ_of_lt (afterContinuation?_length_lt _h)
  · exact Nat.lt_succ_self _
  · exact Nat.lt_succ_self _

theorem extent_suffix (e : Extent) (ts : List Token) : (extent e ts).2 <:+ ts := by
  fun_induction extent e ts with
  | case1 => exact List.suffix_rfl
  | case2 => exact List.suffix_rfl
  | case3 _ t _ _ _ _ h ih =>
    exact ih.trans ((afterContinuation?_suffix h).trans (List.suffix_cons t _))
  | case4 _ t ts _ _ _ ih | case5 _ t ts _ _ ih => exact ih.trans (List.suffix_cons t ts)

/-- The entity of a directive whose tokens are known in reverse. -/
def draft (hash : Token) (kept : List Token) : Draft :=
  let text := (Token.textOf kept.reverse).trim
  .simple (.plain .directive) text text (.between hash (kept.headD hash))

/-! ## Macro definitions -/

/-- The names of the parameters of a macro, the tokens that they take up to their closing
parenthesis, put after `done`, which is in reverse, and the tokens after them.  The list
ends at the end of the line, too. -/
def params (names : List Text) (done : List Token) :
    List Token → List Text × List Token × List Token
  | [] => (names, done.reverse, [])
  | t :: ts =>
    match t.kind with
    | .punct .rParen => (names, (t :: done).reverse, ts)
    | .newline => (names, done.reverse, t :: ts)
    | .ident => params (names ++ [t.text]) (t :: done) ts
    | .punct .dot =>
      match ts with
      | u :: v :: rest =>
        if u.kind == .punct .dot && v.kind == .punct .dot then
          params (names ++ ["...".toList]) (v :: u :: t :: done) rest
        else params names (t :: done) (u :: v :: rest)
      | ts => params names (t :: done) ts
    | _ => params names (t :: done) ts

theorem params_suffix (names : List Text) (done ts : List Token) :
    (params names done ts).2.2 <:+ ts := by
  fun_induction params names done ts with
  | case1 => exact List.suffix_rfl
  | case2 _ _ t ts => exact List.suffix_cons t ts
  | case3 => exact List.suffix_rfl
  | case4 _ _ t ts _ ih => exact ih.trans (List.suffix_cons t ts)
  | case5 _ _ t _ u v rest _ ih =>
    exact ih.trans ((List.suffix_cons v rest).trans
      ((List.suffix_cons u _).trans (List.suffix_cons t _)))
  | case6 _ _ t _ u v rest _ ih => exact ih.trans (List.suffix_cons t _)
  | case7 _ _ t _ ts _ ih => exact ih.trans (List.suffix_cons t ts)
  | case8 _ _ t ts _ _ _ _ ih => exact ih.trans (List.suffix_cons t ts)

/-- The value of a macro as far as it has been read. -/
structure Value where
  text : Text
  /-- The last token that counts. -/
  last : Option Token
  /-- The number of open parentheses and braces. -/
  depth : Nat
  /-- Whether a gap comes before the next token that counts. -/
  gap : Bool
deriving DecidableEq, Repr

/-- A value of which nothing has been read. -/
def Value.start : Value := ⟨[], none, 0, false⟩

/-- A gap, which is one space wide between tokens that count. -/
def Value.space (v : Value) : Value := { v with gap := true }

/-- One more token that counts. -/
def Value.push (v : Value) (t : Token) : Value :=
  { v with
    text := if v.gap && !v.text.isEmpty then v.text ++ ' ' :: t.text else v.text ++ t.text
    last := some t
    gap := false }

/-- One more token of a value. -/
def Value.add (v : Value) (t : Token) : Value :=
  match t.kind with
  | .whitespace | .newline | .lineComment | .blockComment | .docComment => v.space
  | .punct .lParen | .punct .lBrace => { v with depth := v.depth + 1 }.push t
  | .punct .rParen | .punct .rBrace => { v with depth := v.depth - 1 }.push t
  | _ => v.push t

/-- The value of a macro up to the end of the directive, and the tokens after it.  A line
end behind a backslash, or between brackets, does not end it. -/
def value (v : Value) : List Token → Value × List Token
  | [] => (v, [])
  | t :: ts =>
    if t.kind == .newline && v.depth == 0 then (v, t :: ts)
    else if t.kind == .punct .backslash then
      match _h : afterContinuation? ts with
      | some rest => value v.space rest
      | none => value (v.push t) ts
    else value (v.add t) ts
termination_by ts => ts.length
decreasing_by
  · exact Nat.lt_succ_of_lt (afterContinuation?_length_lt _h)
  · exact Nat.lt_succ_self _
  · exact Nat.lt_succ_self _

theorem value_suffix (v : Value) (ts : List Token) : (value v ts).2 <:+ ts := by
  fun_induction value v ts with
  | case1 => exact List.suffix_rfl
  | case2 => exact List.suffix_rfl
  | case3 _ t _ _ _ _ h ih =>
    exact ih.trans ((afterContinuation?_suffix h).trans (List.suffix_cons t _))
  | case4 _ t ts _ _ _ ih | case5 _ t ts _ _ ih => exact ih.trans (List.suffix_cons t ts)

/-- The names of the parameters, if an opening parenthesis follows the name of a macro
without space, the tokens of the list, and those after it. -/
def paramList (rest : List Token) : Option (List Text) × List Token × List Token :=
  if Tokens.headKind rest == .punct .lParen then
    let (names, list, behind) := params [] [] rest
    (some names, list, behind)
  else (none, [], rest)

/-- Reads the definition of a macro behind its name. -/
def readDefinition (hash name : Token) (rest : List Token) : Outcome :=
  let (names, list, behind) := paramList rest
  let (v, after) := value .start behind
  let signature : Text :=
    "#define ".toList ++ name.text ++ Token.textOf list ++ ' ' :: v.text
  .read (.definition ⟨name.text, v.text, names⟩
    (.simple (.plain .macroDecl) name.text signature.trimEnd
      (.between hash (v.last.getD (list.getLastD name))))) after

/-- Reads a directive behind its hash sign. -/
def read (hash : Token) (rest : List Token) : Outcome :=
  let start : Extent := ((rest.takeWhile (·.kind == .whitespace)).foldl .pass ⟨[hash], []⟩)
  match Tokens.skipSpace rest with
  | [] => .read (.entity (draft hash [hash])) []
  | t :: ts =>
    if t.kind == .ident && t.text == "define".toList then
      let gap := ts.takeWhile (·.kind == .whitespace)
      match Tokens.skipSpace ts with
      | name :: behind =>
        if name.kind == .ident || name.kind.isKeyword then readDefinition hash name behind
        else
          let (e, after) := extent (gap.foldl .pass (start.keep t)) (name :: behind)
          .read (.suspect (.namelessMacro (some name)) (draft hash e.kept)) after
      | [] =>
        .read (.suspect (.namelessMacro none) (draft hash (start.keep t).kept)) []
    else
      let (e, after) := extent start (t :: ts)
      .read (.entity (draft hash e.kept)) after

theorem paramList_suffix (rest : List Token) : (paramList rest).2.2 <:+ rest := by
  unfold paramList
  split
  · exact params_suffix ..
  · exact List.suffix_rfl

theorem readDefinition_rest_suffix (hash name : Token) (rest : List Token) :
    (readDefinition hash name rest).rest <:+ rest :=
  (value_suffix ..).trans (paramList_suffix rest)

theorem read_rest_suffix (hash : Token) (rest : List Token) : (read hash rest).rest <:+ rest := by
  unfold read
  dsimp only
  split
  · exact List.nil_suffix
  · next t ts ht =>
    have hts := Tokens.tail_suffix_of_skipSpace ht
    split
    · split
      · next name behind hn =>
        have hb := (Tokens.tail_suffix_of_skipSpace hn).trans hts
        split
        · exact (readDefinition_rest_suffix ..).trans hb
        · exact (extent_suffix ..).trans ((hn ▸ Tokens.skipSpace_suffix ts).trans hts)
      · exact List.nil_suffix
    · exact (extent_suffix ..).trans (ht ▸ Tokens.skipSpace_suffix rest)

end HeaderOutline.Construct.Directive
