import HeaderOutline.Building
import HeaderOutline.Construct.Reading
import HeaderOutline.Recovery
import HeaderOutline.Text.Utf8
import HeaderOutline.Token.Stream

/-! # Parsing a header

A header is cut into tokens, and its constructs are read one after the other into
an outline.  A mistake among the tokens is an error; a construct that cannot be read
is one only if the policy is strict, and otherwise a diagnostic of the outline.
Each construct shortens the list of tokens, which bounds the reading.
-/
namespace HeaderOutline

/-- How a header is to be parsed. -/
structure Options where
  limits : Limits
  recovery : Recovery.Policy
  /-- Names and values of macros that are known from the start. -/
  predefined : List (Text × Text)
  /-- Whether lines of documentation that follow each other are one comment. -/
  mergeLineComments : Bool
deriving DecidableEq, Repr

namespace Options

/-- The options that hold unless others are asked for. -/
def standard : Options := ⟨.standard, .resync, [], true⟩

instance : Inhabited Options := ⟨standard⟩

/-- The macros that are known from the start; of two with one name the later one is. -/
def definitions (options : Options) : Definitions :=
  options.predefined.foldl (fun ds d => ds.define (.object d.1 d.2)) .empty

end Options

/-- Why there is no outline. -/
inductive ParseError
  /-- There are mistakes among the tokens: the flaw of the first one, the place that it
  tells, and the number of all. -/
  | lexical (flaw : Flaw) (line column offset : UInt32) (count : Nat)
  /-- A construct could not be read. -/
  | construct (file : String) (diagnostic : Diagnostic)
deriving DecidableEq, Repr

namespace ParseError

/-- An error in words. -/
def message : ParseError → String
  | .lexical flaw line column _ count =>
    "tokenizer error at " ++ toString line ++ ":" ++ toString column ++ ": " ++ flaw.message
      ++ " (" ++ toString count ++ " lexical error(s))"
  | .construct file diagnostic => file ++ ": " ++ diagnostic.summary

/-- The code of an error. -/
def code : ParseError → Code
  | .lexical flaw .. => flaw.code
  | .construct _ diagnostic => diagnostic.code

/-- The error that mistakes among the tokens amount to. -/
def ofTokens? (ts : List CountedToken) : Option ParseError :=
  match ts.filter (·.isError) with
  | [] => none
  | t :: others =>
    some (.lexical (t.flaw.getD .unexpectedCharacter) t.line t.column t.offset
      (others.length + 1))

end ParseError

/-- The tokens to go on with after a construct.  After a fault the rest of the construct
is passed over, unless it had come to its end. -/
def Outcome.next : Outcome → List Token
  | .read _ rest => rest
  | .failed _ true rest => rest
  | .failed _ false rest => Recovery.resume 0 rest

theorem Outcome.next_suffix (o : Outcome) : o.next <:+ o.rest := by
  unfold next
  split
  · exact List.suffix_rfl
  · exact List.suffix_rfl
  · exact Recovery.resume_suffix 0 _

namespace Building

/-- Reads constructs up to the end of the tokens.  Under the strict policy the first
fault ends the reading. -/
def run (policy : Recovery.Policy) (merge : Bool) (size : Nat) (b : Building) :
    (ts : List Token) → Except Fault Building
  | ts =>
    match _h : Tokens.skipTrivia ts with
    | [] => .ok b
    | t :: behind =>
      let outcome := Construct.read b.definitions merge t behind
      match outcome with
      | .read item _ => run policy merge size (b.add size item) (outcome.next)
      | .failed fault _ _ =>
        match policy with
        | .strict => .error fault
        | .resync =>
          run policy merge size (b.report (fault.diagnostic size)) (outcome.next)
termination_by ts => ts.length
decreasing_by
  all_goals
    have hs := Tokens.skipTrivia_length_le ts
    rw [_h] at hs
    exact Nat.lt_of_le_of_lt ((Outcome.next_suffix _).trans
      (Construct.read_rest_suffix b.definitions merge t behind)).length_le hs

end Building

/-- The outline of tokens without mistakes, the end of the input left out. -/
def outlineOf (options : Options) (file : String) (source : Text) (ts : List Token) :
    Except ParseError Outline :=
  match (Building.start file source options.definitions).run options.recovery
      options.mergeLineComments source.size ts with
  | .ok b => .ok b.finish
  | .error fault => .error (.construct file (fault.diagnostic source.size))

/-- The outline of a header. -/
def parse [Alphabet] (options : Options) (file : String) (source : Text) :
    Except ParseError Outline :=
  let ts := Token.tokenize options.limits source
  match ParseError.ofTokens? ts with
  | some e => .error e
  | none => outlineOf options file source (ts.map (·.toToken)).dropLast

/-- The outline of a header given in bytes. -/
def parseBytes [Alphabet] (options : Options) (file : String) (bytes : List UInt8) :
    Except ParseError Outline :=
  parse options file (Utf8.decode bytes)

/-- The outlines of several headers, each parsed by itself. -/
def parseMany [Alphabet] (options : Options) (files : List (String × Text)) :
    List (Except ParseError Outline) :=
  files.map fun f => parse options f.1 f.2

end HeaderOutline
