import HeaderOutline.Token.Kind

/-! # Contexts

The construct that was being read when something was amiss.  A context says
where the trouble is, what was expected there, and at which tokens a construct
left unfinished is taken to end.
-/
namespace HeaderOutline

/-- The construct being read. -/
inductive Context
  | topLevel
  | namespaceHead
  | classHead
  | enumHead
  | typedefDecl
  | usingDecl
  | function
  | variableDecl
  | template
  | accessSpecifier
  | directive
deriving DecidableEq, Repr

namespace Context

/-- Every context. -/
def all : List Context :=
  [.topLevel, .namespaceHead, .classHead, .enumHead, .typedefDecl, .usingDecl, .function,
   .variableDecl, .template, .accessSpecifier, .directive]

/-- Where the trouble is. -/
def description : Context → String
  | .topLevel => "at top level"
  | .namespaceHead => "in namespace declaration"
  | .classHead => "in class declaration"
  | .enumHead => "in enum declaration"
  | .typedefDecl => "in typedef"
  | .usingDecl => "in using declaration"
  | .function => "in function declaration"
  | .variableDecl => "in variable declaration"
  | .template => "in template declaration"
  | .accessSpecifier => "in access specifier"
  | .directive => "in preprocessor directive"

/-- What was expected. -/
def expectation : Context → String
  | .topLevel => "a declaration"
  | .namespaceHead => "a namespace name or '\x7b'"
  | .classHead => "a class name, base clause, '\x7b' or ';'"
  | .enumHead => "an enum name, underlying type or '\x7b'"
  | .typedefDecl => "a type followed by a name and ';'"
  | .usingDecl => "'namespace', an alias or a qualified name"
  | .function => "a parameter list and ';' or a body"
  | .variableDecl => "a declarator followed by ';'"
  | .template => "'<' followed by template parameters"
  | .accessSpecifier => "':'"
  | .directive => "a macro name after #define"

/-- The kinds of token that can only start a construct. -/
def constructStarts : List Kind :=
  [.punct .hash, .keyword .namespaceKw, .keyword .classKw, .keyword .structKw, .keyword .unionKw,
   .keyword .enumKw, .keyword .typedefKw, .keyword .usingKw, .keyword .templateKw,
   .keyword .publicKw, .keyword .privateKw, .keyword .protectedKw]

/-- The kinds of token at which an unfinished construct ends.  Functions and
variables may hold closing braces of their own, so these end only at the start of
another construct. -/
def stops : Context → List Kind
  | .function | .variableDecl => constructStarts
  | _ => constructStarts ++ [.punct .rBrace]

end Context
end HeaderOutline
