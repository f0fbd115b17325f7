import HeaderOutline.Construct.Variable

/-! # Functions

A function is a name followed by a parameter list, with specifiers around them,
and ends with a semicolon or with a body.  A name in parentheses behind a star is
a pointer to a function, which is a variable.
-/
namespace HeaderOutline.Construct.Function

/-- A function as far as it has been read. -/
structure Progress where
  name : Option Text
  /-- Whether a tilde stood in front of the name. -/
  destructor : Bool
  /-- Whether the name stood in parentheses of its own. -/
  pointer : Bool
  flags : Flags
  /-- Whether those parentheses are open. -/
  inGroup : Bool
  /-- Whether the parameter list has been opened. -/
  paramsOpen : Bool
  /-- Whether the parameter list has been closed. -/
  paramsClosed : Bool
  /-- Whether the last token that is neither trivia nor a comment closed it. -/
  atParamsEnd : Bool
  /-- Whether member initializers follow. -/
  inInitializers : Bool
  /-- The number of open parentheses. -/
  depth : Nat
  /-- The kind of the last token that is neither trivia nor a comment. -/
  lastKind : Kind
deriving DecidableEq, Repr

namespace Progress

/-- A function of which nothing has been read. -/
def start : Progress :=
  ⟨none, false, false, .none, false, false, false, false, false, 0, .eof⟩

/-- Whether parentheses hold a declarator: a star or an ampersand comes first. -/
def opensGroup (rest : List Token) : Bool :=
  let first := Tokens.headKind (Tokens.skipSpace rest)
  first == .punct .star || first == .punct .amp || first == .punct .ampAmp

/-- Whether a zero comes next. -/
def zeroFollows (rest : List Token) : Bool :=
  match Tokens.skipTrivia rest with
  | t :: _ => t.kind == .number && t.text == ['0']
  | [] => false

/-- Reads an opening parenthesis. -/
def openParen (p : Progress) (rest : List Token) : Progress :=
  if p.depth == 0 && !p.paramsOpen then
    if p.name.isNone || opensGroup rest then { p with inGroup := true, depth := p.depth + 1 }
    else { p with paramsOpen := true, depth := p.depth + 1 }
  else { p with depth := p.depth + 1 }

/-- Reads a closing parenthesis. -/
def closeParen (p : Progress) : Progress :=
  let p := { p with depth := p.depth - 1 }
  if p.depth != 0 then p
  else if p.inGroup then { p with inGroup := false, pointer := p.name.isSome }
  else { p with paramsClosed := p.paramsClosed || p.paramsOpen }

/-- Whether a closing parenthesis closes the parameter list. -/
def closesParams (p : Progress) : Bool :=
  p.depth ≤ 1 && !p.inGroup && p.paramsOpen && !p.paramsClosed

/-- What one token says about the function, apart from being the last one. -/
def note (p : Progress) (t : Token) (rest : List Token) : Progress :=
  let outside := p.depth == 0
  match t.kind with
  | .punct .lParen => p.openParen rest
  | .punct .rParen => p.closeParen
  | .ident =>
    if !p.paramsOpen && (outside || p.inGroup) then
      { p with name := some t.text, destructor := p.lastKind == .punct .tilde }
    else p
  | .keyword .staticKw =>
    if outside && !p.paramsOpen then { p with flags := { p.flags with isStatic := true } } else p
  | .keyword .inlineKw =>
    if outside && !p.paramsOpen then { p with flags := { p.flags with isInline := true } } else p
  | .keyword .virtualKw =>
    if outside && !p.paramsOpen then { p with flags := { p.flags with isVirtual := true } }
    else p
  | .keyword .constKw =>
    if outside && p.atParamsEnd then { p with flags := { p.flags with isConst := true } } else p
  | .punct .eq =>
    if outside && p.paramsClosed && zeroFollows rest then
      { p with flags := { p.flags with isPure := true } }
    else p
  | .punct .colon =>
    if outside && p.paramsClosed then { p with inInitializers := true } else p
  | _ => p

/-- A token is known by its kind, and an identifier by its text besides; what is behind counts for
a parenthesis and an equals sign. -/
theorem note_congr (p : Progress) {t u : Token} {ts us : List Token} (hk : u.kind = t.kind)
    (ht : t.kind = .ident → u.text = t.text)
    (hparen : t.kind = .punct .lParen → opensGroup us = opensGroup ts)
    (heq : t.kind = .punct .eq → zeroFollows us = zeroFollows ts) : p.note u us = p.note t ts := by
  unfold note openParen
  rw [hk]
  split <;> try rfl
  · next h => rw [hparen h]
  · next h => rw [ht h]
  · next h => rw [heq h]

/-- Remembers a token as the last one. -/
def remember (p : Progress) (kind : Kind) (atParamsEnd : Bool) : Progress :=
  { p with lastKind := kind, atParamsEnd := atParamsEnd }

/-- Reads the name of an operator. -/
def nameOperator (p : Progress) (name : Text) : Progress :=
  { p with name := some name, destructor := false }.remember (.keyword .operatorKw) false

/-- Reads one token. -/
def read (p : Progress) (t : Token) (rest : List Token) : Progress :=
  if t.kind.isTrivia || t.kind.isComment then p.note t rest
  else (p.note t rest).remember t.kind (t.kind == .punct .rParen && p.closesParams)

/-- Whether a token cannot belong to the function. -/
def refuses (p : Progress) (k : Kind) : Bool :=
  p.depth == 0 &&
    (k == .punct .rBrace || p.paramsClosed && Context.function.stops.contains k)

/-- Whether a brace belongs to a member initializer: the name of the member, or its
template arguments, stand directly in front of it. -/
def bracesInitialize (p : Progress) : Bool :=
  p.inInitializers &&
    (p.lastKind == .ident || p.lastKind == .punct .gt || p.lastKind == .punct .gtGt)

/-- The form of the declaration. -/
def form (p : Progress) : Form :=
  if p.pointer then .variableDecl
  else if p.destructor then .destructor
  else .function

end Progress

/-- The symbol of an operator and the rest.  The call operator has its parentheses for
a symbol; any other runs up to a parenthesis, a semicolon or a brace. -/
def operatorSymbol (ts : List Token) : List Token × List Token :=
  if Tokens.headKind ts == .punct .lParen && Tokens.headKind ts.tail == .punct .rParen then
    (ts.take 2, ts.drop 2)
  else Tokens.upTo [.punct .lParen, .punct .semicolon, .punct .lBrace] ts

/-- The keyword, the white space and the symbol that name an operator, and the rest. -/
def operatorTokens (op : Token) (rest : List Token) : List Token × List Token :=
  let symbol := operatorSymbol (Tokens.skipSpace rest)
  (op :: rest.takeWhile (·.kind == .whitespace) ++ symbol.1, symbol.2)

/-- How the head of a function ends. -/
inductive Extent
  /-- With a semicolon, the last of the tokens. -/
  | declared (progress : Progress) (taken rest : List Token)
  /-- Before the brace of a body. -/
  | defined (progress : Progress) (taken rest : List Token)
  /-- Before a token that cannot belong to it. -/
  | broken (rest : List Token)
  /-- At a brace that is not closed. -/
  | unclosed (brace : Token)

theorem operatorSymbol_suffix (ts : List Token) : (operatorSymbol ts).2 <:+ ts := by
  unfold operatorSymbol
  split
  · exact List.drop_suffix ..
  · exact Tokens.upTo_suffix ..

theorem operatorTokens_suffix (op : Token) (rest : List Token) :
    (operatorTokens op rest).2 <:+ rest :=
  (operatorSymbol_suffix _).trans (Tokens.skipSpace_suffix rest)

/-- The head of a function, its tokens put after `done`, which is in reverse. -/
def extent (done : List Token) (p : Progress) : List Token → Extent
  | [] => .broken []
  | t :: ts =>
    if p.refuses t.kind then .broken (t :: ts)
    else if p.depth == 0 && t.kind == .punct .semicolon then
      .declared p (t :: done).reverse ts
    else if p.depth == 0 && t.kind == .punct .lBrace then
      if p.bracesInitialize then
        match _h : Tokens.block? (t :: ts) with
        | none => .unclosed t
        | some (block, rest) =>
          extent (block.reverse ++ done) (p.remember (.punct .rBrace) false) rest
      else .defined p done.reverse (t :: ts)
    else if p.depth == 0 && !p.paramsOpen && t.kind == .keyword .operatorKw then
      extent ((operatorTokens t ts).1.reverse ++ done)
        (p.nameOperator (Tokens.join (operatorTokens t ts).1)) (operatorTokens t ts).2
    else extent (t :: done) (p.read t ts) ts
termination_by ts => ts.length
decreasing_by
  · exact Tokens.block?_length_lt _h
  · exact Nat.lt_succ_of_le (operatorTokens_suffix t ts).length_le
  · exact Nat.lt_succ_self _

/-- The tokens that the head of a function leaves; nothing is left behind a brace that is
not closed. -/
def Extent.rest : Extent → List Token
  | .declared _ _ rest => rest
  | .defined _ _ rest => rest
  | .broken rest => rest
  | .unclosed _ => []

theorem extent_rest_suffix (done : List Token) (p : Progress) (ts : List Token) :
    (extent done p ts).rest <:+ ts := by
  fun_induction extent done p ts with
  | case1 => exact List.suffix_rfl
  | case2 => exact List.suffix_rfl
  | case3 => exact List.suffix_cons ..
  | case4 => exact List.nil_suffix
  | case5 _ _ _ _ _ _ _ _ _ _ h ih => exact ih.trans (Tokens.block?_suffix h)
  | case6 => exact List.suffix_rfl
  | case7 _ _ t ts _ _ _ _ ih =>
    exact (ih.trans (operatorTokens_suffix t ts)).trans (List.suffix_cons t ts)
  | case8 _ _ t ts _ _ _ _ ih => exact ih.trans (List.suffix_cons t ts)

/-- The entity of a function whose head and body are known. -/
def draft (ds : Definitions) (lead : Lead) (p : Progress) (name : Text) (head : List Token)
    (last : Token) (body : Option Body) : Draft where
  form := p.form
  name := name
  signature := lead.onto (Tokens.substituted ds head).trimEnd
  flags := p.flags
  template := lead.template
  sourceRange := .between lead.first last
  headerRange := .between lead.first (head.getLastD lead.first)
  body := body

/-- Some tokens without the trivia at their end. -/
def withoutTrailingTrivia (ts : List Token) : List Token :=
  (ts.reverse.dropWhile (·.kind.isTrivia)).reverse

/-- Reads a function. -/
def read (ds : Definitions) (lead : Lead) (ts : List Token) : Outcome :=
  match extent [] .start ts with
  | .broken rest => .unexpected .function .missingSemicolon rest
  | .unclosed brace => .failed ⟨.unclosedFunctionBody, some brace⟩ false []
  | .declared p taken rest =>
    match p.name with
    | none => .failed ⟨.namelessFunction, ts.head?⟩ true rest
    | some name =>
      .read (.entity (draft ds lead p name taken (taken.getLastD lead.first) none)) rest
  | .defined p taken rest =>
    match p.name with
    | none => .failed ⟨.namelessFunction, ts.head?⟩ false rest
    | some name =>
      match Tokens.block? rest with
      | none => .failed ⟨.unclosedFunctionBody, rest.head?⟩ false []
      | some (block, after) =>
        let brace := block.headD lead.first
        let last := block.getLastD lead.first
        .read (.entity (draft ds lead p name (withoutTrailingTrivia taken) last
          (some ⟨.between brace last, Token.textOf block⟩))) after

/-- A function takes its first token, unless that is a brace. -/
theorem extent_start_rest_suffix {t : Token} (ts : List Token)
    (ho : t.kind ≠ .punct .lBrace) (hc : t.kind ≠ .punct .rBrace) :
    (extent [] .start (t :: ts)).rest <:+ ts := by
  rw [extent, if_neg (by simp [Progress.refuses, Progress.start, hc])]
  split
  · exact List.suffix_rfl
  · rw [if_neg (by simp [ho])]
    split
    · exact (extent_rest_suffix ..).trans (operatorTokens_suffix t ts)
    · exact extent_rest_suffix ..

/-- What a function leaves is among what its head leaves. -/
theorem read_suffix_extent (ds : Definitions) (lead : Lead) (ts : List Token) :
    (read ds lead ts).rest <:+ (extent [] .start ts).rest := by
  unfold read
  split
  · next he =>
    rw [he]
    exact List.suffix_rfl
  · exact List.nil_suffix
  · next he =>
    rw [he]
    split <;> exact List.suffix_rfl
  · next he =>
    rw [he]
    split
    · exact List.suffix_rfl
    · split
      · exact List.nil_suffix
      · next hb => exact Tokens.block?_suffix hb

theorem read_rest_suffix (ds : Definitions) (lead : Lead) {t : Token} (ts : List Token)
    (ho : t.kind ≠ .punct .lBrace) (hc : t.kind ≠ .punct .rBrace) :
    (read ds lead (t :: ts)).rest <:+ ts :=
  (read_suffix_extent ..).trans (extent_start_rest_suffix ts ho hc)

end HeaderOutline.Construct.Function
