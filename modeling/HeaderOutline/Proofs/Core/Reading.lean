import HeaderOutline.Parse
import HeaderOutline.Proofs.Core.Grammar
import HeaderOutline.Proofs.Probe

/-! # Reading core constructs

What the declarations of a core header amount to, each read from its own tokens: the item,
and the tokens that are left.
-/
namespace HeaderOutline

namespace Construct

variable {ds : Definitions} {merge : Bool} {first blank name gap brace : Token}
  {ts rest : List Token}

/-! ## Namespaces -/

theorem Namespace.readName_single (h : name.kind = .ident)
    (hn : ts.head?.map (·.kind) ≠ some (.punct .colonColon)) (last : Token) :
    readName [] last (name :: ts) = ⟨name.text, name, ts⟩ := by
  have he : Tokens.eat? (.punct .colonColon) ts = none := by
    cases ts with
    | nil => rfl
    | cons t ts => exact Tokens.eat?_of_ne fun hk => hn (by simp [hk])
  rw [readName, if_pos (beq_iff_eq.mpr h)]
  split
  · next rest hs =>
    rw [he] at hs
    cases hs
  · rfl

/-- The head of a namespace opens its scope. -/
theorem read_namespace (ds : Definitions) (merge : Bool)
    (hf : first.kind = .keyword .namespaceKw) (hb : blank.kind = .whitespace)
    (hn : name.kind = .ident) (hg : gap.kind = .whitespace) (ho : brace.kind = .punct .lBrace) :
    ∃ d, read ds merge first (blank :: name :: gap :: brace :: rest) = .read (.scope d .pub) rest ∧
      d.form = .plain .namespaceDecl ∧ d.name = name.text := by
  have hname : Namespace.readName [] first
      (Tokens.skipTrivia (blank :: name :: gap :: brace :: rest))
        = ⟨name.text, name, gap :: brace :: rest⟩ := by
    rw [Tokens.skipTrivia_of_whitespace hb, Tokens.skipTrivia_of_not (by rw [hn]; rfl)]
    exact Namespace.readName_single hn (by simp [hg]) first
  have hskip : Tokens.skipTrivia (gap :: brace :: rest) = brace :: rest := by
    rw [Tokens.skipTrivia_of_whitespace hg, Tokens.skipTrivia_of_not (by rw [ho]; rfl)]
  simp only [read, hf, Namespace.read, hname, Namespace.readEnd, hskip, Tokens.eat?_of_kind ho]
  rw [if_neg (by decide), if_neg (by simp [Tokens.headKind, ho])]
  exact ⟨_, rfl, rfl, rfl⟩

/-! ## Classes -/

/-- The head of a class or a struct without bases opens its scope. -/
theorem Class.read_plain {key : Core.RecordKey} (hf : first.kind = .keyword key.keyword)
    (hb : blank.kind = .whitespace) (hn : name.kind = .ident) (hg : gap.kind = .whitespace)
    (ho : brace.kind = .punct .lBrace) (lead : Lead) :
    ∃ d, Class.read ds lead first (blank :: name :: gap :: brace :: rest)
        = .read (.scope d key.access) rest ∧ d.form = .plain key.kind ∧ d.name = name.text := by
  have hfront : Tokens.skipTrivia (blank :: name :: gap :: brace :: rest)
      = name :: gap :: brace :: rest := by
    rw [Tokens.skipTrivia_of_whitespace hb, Tokens.skipTrivia_of_not (by rw [hn]; rfl)]
  have hskip : Tokens.skipTrivia (gap :: brace :: rest) = brace :: rest := by
    rw [Tokens.skipTrivia_of_whitespace hg, Tokens.skipTrivia_of_not (by rw [ho]; rfl)]
  have hbrace : Tokens.skipTrivia (brace :: rest) = brace :: rest :=
    Tokens.skipTrivia_of_not (by rw [ho]; rfl)
  have helaborated : Declaration.isElaborated (blank :: name :: gap :: brace :: rest) = false := by
    simp [Declaration.isElaborated, hfront, hn, Declaration.afterQualifiers?, hg, hskip, ho]
  have hattributes : Tokens.skipAttributes (name :: gap :: brace :: rest)
      = name :: gap :: brace :: rest := by
    exact Tokens.skipAttributes_of_kind (by rw [hn]; exact nofun)
  have hname : readName ds ⟨first.text, [], first, name :: gap :: brace :: rest⟩
      = ⟨first.text ++ ' ' :: name.text, name.text, name, gap :: brace :: rest⟩ := by
    simp [readName, exported?, hn, hskip, ho, qualifiedName, hg]
  have harguments : ∀ s n, readArguments ⟨s, n, name, gap :: brace :: rest⟩
      = .ok ⟨s, n, name, gap :: brace :: rest⟩ := by
    simp [readArguments, hskip, ho]
  have hfinal : ∀ s n, readFinal ⟨s, n, name, gap :: brace :: rest⟩
      = ⟨s, n, name, brace :: rest⟩ := by
    simp [readFinal, hskip, ho]
  have hbases : ∀ s n, (⟨s, n, name, brace :: rest⟩ : Head).readClause .classHead
      = .ok ⟨s, n, name, brace :: rest⟩ := by
    simp [Head.readClause, ho]
  have hhead : head ds first (blank :: name :: gap :: brace :: rest) =
      .ok ⟨first.text ++ ' ' :: name.text, name.text, name, brace :: rest⟩ := by
    simp only [head, hfront, hattributes, hname, harguments]
    show (readFinal _).readClause .classHead = _
    rw [hfinal, hbases]
  rw [Class.read, helaborated, Bool.and_false, if_neg Bool.false_ne_true, hhead]
  dsimp only
  cases key with
  | classKey =>
    rw [if_pos (by simp [hf, Core.RecordKey.keyword]), readEnd]
    simp only [ho, beq_self_eq_true, if_true]
    exact ⟨_, rfl, rfl, rfl⟩
  | structKey =>
    rw [if_neg (by simp [hf, Core.RecordKey.keyword]), readEnd]
    simp only [ho, beq_self_eq_true, if_true]
    exact ⟨_, rfl, rfl, rfl⟩

theorem read_record (ds : Definitions) (merge : Bool) {key : Core.RecordKey}
    (hf : first.kind = .keyword key.keyword) (hb : blank.kind = .whitespace)
    (hn : name.kind = .ident) (hg : gap.kind = .whitespace) (ho : brace.kind = .punct .lBrace) :
    ∃ d, read ds merge first (blank :: name :: gap :: brace :: rest)
        = .read (.scope d key.access) rest ∧ d.form = .plain key.kind ∧ d.name = name.text := by
  have hclass : read ds merge first (blank :: name :: gap :: brace :: rest)
      = Class.read ds (.none first) first (blank :: name :: gap :: brace :: rest) := by
    cases key <;> simp only [read, hf, Core.RecordKey.keyword]
  rw [hclass]
  exact Class.read_plain hf hb hn hg ho _

/-! ## Functions and variables -/

namespace Declaration

/-- Behind a type and a name, what comes next shows whether there are parameters. -/
theorem isFunction_of_type (hf : first.kind = .keyword .voidKw ∨ first.kind = .keyword .intKw)
    (hb : blank.kind = .whitespace) (hn : name.kind = .ident) :
    isFunction (first :: blank :: name :: ts) = paramsFollow true 4 ts := by
  have hskip : skipSpecifiers false (first :: blank :: name :: ts)
      = first :: blank :: name :: ts := by
    rcases hf with hf | hf <;>
      exact skipSpecifiers_of_kind (by rw [hf]; rfl) (by rw [hf]; exact nofun)
        (by rw [hf]; decide) (by rw [hf]; decide) (by rw [hf]; exact nofun)
  have htype : first.kind.isBuiltinType = true := by
    rcases hf with hf | hf <;> rw [hf] <;> rfl
  rw [isFunction, hskip, maxWords, paramsFollow_word (.inr htype), paramsFollow_blank hb,
    paramsFollow_word (.inl hn)]

end Declaration

/-- A function without parameters and body. -/
theorem Function.read_plain {lp rp semicolon : Token} (hf : first.kind = .keyword .voidKw)
    (hb : blank.kind = .whitespace) (hn : name.kind = .ident) (hl : lp.kind = .punct .lParen)
    (hr : rp.kind = .punct .rParen) (hs : semicolon.kind = .punct .semicolon) (lead : Lead) :
    ∃ d, Function.read ds lead (first :: blank :: name :: lp :: rp :: semicolon :: rest)
        = .read (.entity d) rest ∧ d.form = .function ∧ d.name = name.text := by
  have hextent : ∃ p taken,
      extent [] .start (first :: blank :: name :: lp :: rp :: semicolon :: rest)
        = .declared p taken rest ∧ p.name = some name.text ∧ p.form = .function := by
    simp [extent, Progress.refuses, Progress.start, Progress.read, Progress.note,
      Progress.remember, Progress.openParen, Progress.closeParen, Progress.opensGroup,
      Progress.form, Tokens.skipSpace, Tokens.headKind, Kind.isTrivia, Kind.isComment,
      Context.stops, Context.constructStarts, hf, hb, hn, hl, hr, hs]
  obtain ⟨p, taken, he, hname, hform⟩ := hextent
  rw [Function.read, he]
  simp only [hname]
  exact ⟨_, rfl, hform, rfl⟩

/-- A variable without initializer. -/
theorem Variable.read_plain {semicolon : Token} (hf : first.kind = .keyword .intKw)
    (hb : blank.kind = .whitespace) (hn : name.kind = .ident)
    (hs : semicolon.kind = .punct .semicolon) (lead : Lead) :
    ∃ d, Variable.read ds lead (first :: blank :: name :: semicolon :: rest)
        = .read (.entity d) rest ∧ d.form = .variableDecl ∧ d.name = name.text := by
  have hextent : ∃ p taken, extent [] .start (first :: blank :: name :: semicolon :: rest)
      = .closed p taken rest ∧ p.name = some name.text := by
    simp [extent, Progress.refuses, Progress.start, Progress.read, Progress.endsWith,
      Context.stops, Context.constructStarts, hf, hb, hn, hs]
  obtain ⟨p, taken, he, hname⟩ := hextent
  rw [Variable.read, he]
  simp only [hname]
  exact ⟨_, rfl, rfl, rfl⟩

/-- A declaration of a function is one. -/
theorem read_function (ds : Definitions) (merge : Bool) {lp rp semicolon : Token}
    (hf : first.kind = .keyword .voidKw) (hb : blank.kind = .whitespace)
    (hn : name.kind = .ident) (hl : lp.kind = .punct .lParen) (hr : rp.kind = .punct .rParen)
    (hs : semicolon.kind = .punct .semicolon) :
    ∃ d, read ds merge first (blank :: name :: lp :: rp :: semicolon :: rest)
        = .read (.entity d) rest ∧ d.form = .function ∧ d.name = name.text := by
  have hfunction : Declaration.isFunction
      (first :: blank :: name :: lp :: rp :: semicolon :: rest) = true := by
    rw [Declaration.isFunction_of_type (.inl hf) hb hn, Declaration.paramsFollow_lParen hl]
  simp only [read, hf, Declaration.read, hfunction, if_true]
  exact Function.read_plain hf hb hn hl hr hs _

/-- A declaration of a variable is one. -/
theorem read_variableDecl (ds : Definitions) (merge : Bool) {semicolon : Token}
    (hf : first.kind = .keyword .intKw) (hb : blank.kind = .whitespace) (hn : name.kind = .ident)
    (hs : semicolon.kind = .punct .semicolon) :
    ∃ d, read ds merge first (blank :: name :: semicolon :: rest)
        = .read (.entity d) rest ∧ d.form = .variableDecl ∧ d.name = name.text := by
  have hfunction : Declaration.isFunction (first :: blank :: name :: semicolon :: rest)
      = false := by
    rw [Declaration.isFunction_of_type (.inr hf) hb hn, Declaration.paramsFollow_semicolon hs]
  simp only [read, hf, Declaration.read, hfunction]
  exact Variable.read_plain hf hb hn hs _

/-! ## Access specifiers and closing braces -/

/-- An access specifier sets the level of its keyword. -/
theorem read_specifier (ds : Definitions) (merge : Bool) {colon : Token} {level : Access}
    (hf : first.kind = .keyword level.keyword) (hc : colon.kind = .punct .colon) :
    ∃ d, read ds merge first (colon :: rest) = .read (.access level d) rest ∧
      d.form = .plain .accessSpecifier ∧ d.name = level.label.toList := by
  have hskip : Tokens.skipSpace (colon :: rest) = colon :: rest :=
    List.dropWhile_cons_of_neg (by rw [hc]; decide)
  have haccess : read ds merge first (colon :: rest) = readAccess first level (colon :: rest) := by
    cases level <;> simp only [read, hf, Access.keyword]
  rw [haccess, readAccess, hskip, Tokens.eat?_of_kind hc]
  exact ⟨_, rfl, rfl, rfl⟩

/-- A closing brace closes a scope, and takes a semicolon directly behind it along. -/
theorem read_close (ds : Definitions) (merge : Bool) (hf : first.kind = .punct .rBrace) :
    read ds merge first rest =
      .read (.close first) ((Tokens.eat? (.punct .semicolon) rest).getD rest) := by
  simp only [read, hf, readClose]

end Construct
end HeaderOutline
