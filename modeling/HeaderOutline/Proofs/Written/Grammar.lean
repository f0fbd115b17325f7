import HeaderOutline.Construct.Variable
import HeaderOutline.Proofs.Attribute.Scan
import HeaderOutline.Proofs.Core.Spelling

/-! # Functions as they are written

A function written in one way: specifiers, a type of one word, a name, parameters between
parentheses, and what may stand behind them (`Written.Function`).  A constructor with member
initializers is written within its class (`Written.Constructor`).  What stands between brackets is
any text that is cut into tokens without mistakes and comments, as long as its own brackets are
properly nested (`Written.Inner`); so neither a semicolon nor a keyword is left out.
-/
namespace HeaderOutline

/-- Brackets of some forms are properly nested among the kinds of some tokens. -/
inductive Kind.NestedBy (pairs : List (Kind × Kind)) : List Kind → Prop
  | nil : NestedBy pairs []
  | plain {k : Kind} {ks : List Kind} (hk : ∀ p ∈ pairs, k ≠ p.1 ∧ k ≠ p.2)
    (more : NestedBy pairs ks) : NestedBy pairs (k :: ks)
  | group {o c : Kind} {inside behind : List Kind} (pair : (o, c) ∈ pairs)
    (inner : NestedBy pairs inside) (more : NestedBy pairs behind) :
    NestedBy pairs (o :: (inside ++ c :: behind))

/-- Where there is no bracket, brackets are nested. -/
theorem Kind.NestedBy.of_plain {pairs : List (Kind × Kind)} {ks : List Kind}
    (h : ∀ k ∈ ks, ∀ p ∈ pairs, k ≠ p.1 ∧ k ≠ p.2) : NestedBy pairs ks := by
  induction ks with
  | nil => exact .nil
  | cons k ks ih =>
    exact .plain (h k List.mem_cons_self) (ih fun u hu => h u (List.mem_cons_of_mem k hu))

namespace Written

/-- Parentheses. -/
def parens : Kind × Kind := (.punct .lParen, .punct .rParen)

/-- Braces. -/
def braces : Kind × Kind := (.punct .lBrace, .punct .rBrace)

/-- Brackets of all forms. -/
def brackets : List (Kind × Kind) := [parens, braces, (.punct .lBracket, .punct .rBracket)]

/-- A text between brackets: it is cut into tokens without mistakes and comments, and their kinds
fit. -/
structure Inner [Alphabet] (Fits : List Kind → Prop) where
  text : Text
  limits : Limits
  sound : ∀ t ∈ Token.scan limits text, t.kind ≠ .error ∧ t.kind.isComment = false
  fits : Fits ((Token.scan limits text).dropLast.map (·.kind))

/-- The text within braces. -/
def Inner.braced [Alphabet] {Fits : List Kind → Prop} (i : Inner Fits) : Text :=
  "\x7b".toList ++ i.text ++ "\x7d".toList

/-- The kinds of its tokens tell that a text may stand between brackets. -/
def Inner.ofKinds [Alphabet] {Fits : List Kind → Prop} (text : Text) (limits : Limits)
    (ks : List Kind) (hks : (Token.scan limits text).map (·.kind) = ks ++ [.eof])
    (sound : ∀ k ∈ ks, k ≠ .error ∧ k.isComment = false) (fits : Fits ks) : Inner Fits where
  text := text
  limits := limits
  sound t ht := by
    have hk : t.kind ∈ ks ++ [.eof] := hks ▸ List.mem_map_of_mem ht
    rcases List.mem_append.mp hk with hk | hk
    · exact sound t.kind hk
    · rw [List.mem_singleton.mp hk]
      exact ⟨by decide, rfl⟩
  fits := by
    rw [List.map_dropLast, hks, List.dropLast_concat]
    exact fits

/-- Parameters have their parentheses nested, and open no declarator: no star or ampersand comes
first behind white space. -/
def IsParams (ks : List Kind) : Prop :=
  Kind.NestedBy [parens] ks ∧
    (ks.dropWhile (· == .whitespace)).head? ∉
      [some (.punct .star), some (.punct .amp), some (.punct .ampAmp)]

/-- A type of one word. -/
inductive TypeWord [Alphabet]
  | named (name : Core.Name)
  | builtin (k : Keyword) (isType : k.isBuiltinType = true)

/-- The word. -/
def TypeWord.text [Alphabet] : TypeWord → Text
  | .named name => name.text
  | .builtin k _ => k.spelling

/-- A function. -/
structure Function [Alphabet] where
  specifiers : List Keyword
  isSpecifier : ∀ k ∈ specifiers, .keyword k ∈ Construct.specifiers
  returns : TypeWord
  name : Core.Name
  params : Inner IsParams
  isConst : Bool
  isPure : Bool
  body : Option (Inner (Kind.NestedBy [braces]))

namespace Function

variable [Alphabet] (f : Function)

/-- The head of a function, up to what ends it. -/
def head : Text :=
  f.specifiers.flatMap (fun k => k.spelling ++ " ".toList) ++ f.returns.text ++ " ".toList
    ++ f.name.text ++ "(".toList ++ f.params.text ++ ")".toList
    ++ (if f.isConst then " const".toList else []) ++ (if f.isPure then " = 0".toList else [])

/-- The body with its braces, if there is one. -/
def bodyText : Text :=
  match f.body with
  | none => []
  | some b => b.braced

/-- The signature: the head, and the semicolon where that ends the function. -/
def signature : Text := f.head ++ (if f.body.isNone then ";".toList else [])

/-- The text of a function. -/
def text : Text :=
  f.signature ++ (if f.body.isNone then [] else " ".toList ++ f.bodyText)

/-- The specifiers that are noted, and what stands behind the parameters. -/
def flags : Flags where
  isStatic := f.specifiers.contains .staticKw
  isConst := f.isConst
  isVirtual := f.specifiers.contains .virtualKw
  isPure := f.isPure
  isInline := f.specifiers.contains .inlineKw

end Function

/-- What the arguments of a member initializer stand between. -/
inductive Bracing
  | round
  | curly
deriving DecidableEq, Repr

/-- What opens the arguments. -/
def Bracing.opener : Bracing → Punct
  | .round => .lParen
  | .curly => .lBrace

/-- What closes the arguments. -/
def Bracing.closer : Bracing → Punct
  | .round => .rParen
  | .curly => .rBrace

/-- A member initializer. -/
structure Initializer [Alphabet] where
  member : Core.Name
  bracing : Bracing
  args : Inner (Kind.NestedBy brackets)

/-- The text of a member initializer. -/
def Initializer.text [Alphabet] (i : Initializer) : Text :=
  i.member.text ++ i.bracing.opener.spelling ++ i.args.text ++ i.bracing.closer.spelling

/-- A constructor with one or more member initializers, and its class. -/
structure Constructor [Alphabet] where
  name : Core.Name
  params : Inner IsParams
  first : Initializer
  others : List Initializer
  body : Inner (Kind.NestedBy [braces])

namespace Constructor

variable [Alphabet] (c : Constructor)

/-- The head of the constructor, member initializers included. -/
def signature : Text :=
  c.name.text ++ "(".toList ++ c.params.text ++ ") : ".toList ++ c.first.text
    ++ c.others.flatMap fun i => ", ".toList ++ i.text

/-- The body of the constructor. -/
def bodyText : Text := c.body.braced

/-- The class that holds nothing else. -/
def text : Text :=
  "class ".toList ++ c.name.text ++ " \x7b ".toList ++ c.signature ++ " ".toList ++ c.bodyText
    ++ " \x7d;".toList

end Constructor

/-! ## The lexemes between brackets -/

namespace Inner

variable [Alphabet] {Fits : List Kind → Prop} (i : Inner Fits)

/-- The lexemes of the text. -/
def lexemes : List Lexeme :=
  (Token.scan i.limits i.text).dropLast.map fun t => ⟨t.kind, t.text, t.flaw⟩

omit [Alphabet] in
theorem map_placed (p : Position) (xs : List Lexeme) :
    (Token.placed p xs).map (fun t => (⟨t.kind, t.text, t.flaw⟩ : Lexeme)) = xs := by
  induction xs generalizing p with
  | nil => rfl
  | cons x xs ih => exact congrArg (x :: ·) (ih _)

theorem cuts_lexemes : Lexeme.Cuts i.text i.lexemes [] := by
  obtain ⟨xs, hcuts, -, htokens⟩ := Token.exists_cuts_inner i.sound
  rwa [lexemes, htokens, map_placed]

theorem sound_lexemes : ∀ x ∈ i.lexemes, x.kind ≠ .error ∧ x.kind.isComment = false := by
  obtain ⟨xs, -, hsound, htokens⟩ := Token.exists_cuts_inner i.sound
  rwa [lexemes, htokens, map_placed]

theorem textOf_lexemes : Lexeme.textOf i.lexemes = i.text := by
  simpa using i.cuts_lexemes.append_eq

theorem faithful : Lexeme.Faithful i.lexemes := by
  unfold Lexeme.Faithful
  rw [i.textOf_lexemes]
  exact i.cuts_lexemes

theorem fits_lexemes : Fits (i.lexemes.map (·.kind)) := by
  have hfits := i.fits
  rwa [lexemes, List.map_map]

theorem all_sound : i.lexemes.all (·.kind != .error) = true :=
  List.all_eq_true.mpr fun x hx => bne_iff_ne.mpr (i.sound_lexemes x hx).1

end Inner

end Written
end HeaderOutline
