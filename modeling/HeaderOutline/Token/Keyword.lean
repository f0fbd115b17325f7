import HeaderOutline.Text.Basic

/-! # Keywords

The reserved words.  A word is a keyword exactly when it is spelled like one.
-/
namespace HeaderOutline

/-- A reserved word. -/
inductive Keyword
  | namespaceKw | classKw | structKw | enumKw | unionKw | typedefKw | usingKw | templateKw
  | typenameKw | publicKw | privateKw | protectedKw | staticKw | virtualKw | inlineKw | constKw
  | constexprKw | mutableKw | externKw | volatileKw | friendKw | operatorKw | explicitKw
  | overrideKw | finalKw | noexceptKw | throwKw | tryKw | catchKw | ifKw | elseKw | switchKw
  | caseKw | defaultKw | forKw | whileKw | doKw | breakKw | continueKw | returnKw | gotoKw
  | sizeofKw | alignofKw | decltypeKw | autoKw | voidKw | boolKw | charKw | shortKw | intKw
  | longKw | floatKw | doubleKw | signedKw | unsignedKw | trueKw | falseKw | nullptrKw | thisKw
  | newKw | deleteKw
deriving DecidableEq, Repr

namespace Keyword

/-- Every keyword, in the order of declaration. -/
def all : List Keyword :=
  [.namespaceKw, .classKw, .structKw, .enumKw, .unionKw, .typedefKw, .usingKw, .templateKw,
   .typenameKw, .publicKw, .privateKw, .protectedKw, .staticKw, .virtualKw, .inlineKw,
   .constKw, .constexprKw, .mutableKw, .externKw, .volatileKw, .friendKw, .operatorKw,
   .explicitKw, .overrideKw, .finalKw, .noexceptKw, .throwKw, .tryKw, .catchKw, .ifKw, .elseKw,
   .switchKw, .caseKw, .defaultKw, .forKw, .whileKw, .doKw, .breakKw, .continueKw, .returnKw,
   .gotoKw, .sizeofKw, .alignofKw, .decltypeKw, .autoKw, .voidKw, .boolKw, .charKw, .shortKw,
   .intKw, .longKw, .floatKw, .doubleKw, .signedKw, .unsignedKw, .trueKw, .falseKw, .nullptrKw,
   .thisKw, .newKw, .deleteKw]

/-- The word itself. -/
def spelling : Keyword → Text
  | .namespaceKw => "namespace".toList
  | .classKw => "class".toList
  | .structKw => "struct".toList
  | .enumKw => "enum".toList
  | .unionKw => "union".toList
  | .typedefKw => "typedef".toList
  | .usingKw => "using".toList
  | .templateKw => "template".toList
  | .typenameKw => "typename".toList
  | .publicKw => "public".toList
  | .privateKw => "private".toList
  | .protectedKw => "protected".toList
  | .staticKw => "static".toList
  | .virtualKw => "virtual".toList
  | .inlineKw => "inline".toList
  | .constKw => "const".toList
  | .constexprKw => "constexpr".toList
  | .mutableKw => "mutable".toList
  | .externKw => "extern".toList
  | .volatileKw => "volatile".toList
  | .friendKw => "friend".toList
  | .operatorKw => "operator".toList
  | .explicitKw => "explicit".toList
  | .overrideKw => "override".toList
  | .finalKw => "final".toList
  | .noexceptKw => "noexcept".toList
  | .throwKw => "throw".toList
  | .tryKw => "try".toList
  | .catchKw => "catch".toList
  | .ifKw => "if".toList
  | .elseKw => "else".toList
  | .switchKw => "switch".toList
  | .caseKw => "case".toList
  | .defaultKw => "default".toList
  | .forKw => "for".toList
  | .whileKw => "while".toList
  | .doKw => "do".toList
  | .breakKw => "break".toList
  | .continueKw => "continue".toList
  | .returnKw => "return".toList
  | .gotoKw => "goto".toList
  | .sizeofKw => "sizeof".toList
  | .alignofKw => "alignof".toList
  | .decltypeKw => "decltype".toList
  | .autoKw => "auto".toList
  | .voidKw => "void".toList
  | .boolKw => "bool".toList
  | .charKw => "char".toList
  | .shortKw => "short".toList
  | .intKw => "int".toList
  | .longKw => "long".toList
  | .floatKw => "float".toList
  | .doubleKw => "double".toList
  | .signedKw => "signed".toList
  | .unsignedKw => "unsigned".toList
  | .trueKw => "true".toList
  | .falseKw => "false".toList
  | .nullptrKw => "nullptr".toList
  | .thisKw => "this".toList
  | .newKw => "new".toList
  | .deleteKw => "delete".toList

/-- The keyword that a word spells, if it is reserved. -/
def ofText? (t : Text) : Option Keyword := all.find? (·.spelling == t)

/-- The keywords that name a type on their own, alone or with others of them. -/
def isBuiltinType : Keyword → Bool
  | .voidKw | .boolKw | .charKw | .shortKw | .intKw | .longKw | .floatKw | .doubleKw | .signedKw
  | .unsignedKw | .autoKw => true
  | _ => false

/-- Every keyword is listed. -/
theorem mem_all (k : Keyword) : k ∈ all := by
  cases k <;> decide

end Keyword
end HeaderOutline
