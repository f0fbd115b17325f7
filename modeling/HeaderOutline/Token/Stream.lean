import HeaderOutline.Token.Lexer

/-! # The tokens of a text

A lexer that is asked until it gives nothing any more gives the tokens of a text, the end
of the input last.  Where a limit on the whole input is met, a mistake of no width and
the end of the input take the place of what is left.
-/
namespace HeaderOutline.Token

/-- The tokens that a lexer gives for a text, the end of the input among them. -/
def tokenize [Alphabet] (l : Limits) (source : Text) : List CountedToken :=
  (Lexer.ofText l source).collectOnto []

/-- The first results of asking for one token after another. -/
def tokenizeFirst [Alphabet] (l : Limits) (source : Text) (count : Nat) :
    List (Option CountedToken) :=
  (Lexer.ofText l source).answers count

/-- The tokens of a text without what a lexer counts. -/
def scan [Alphabet] (l : Limits) (source : Text) : List Token :=
  (tokenize l source).map (·.toToken)

end HeaderOutline.Token
