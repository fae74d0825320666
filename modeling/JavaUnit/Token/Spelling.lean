/-
Module: JavaUnit.Token.Spelling
Purpose: Canonical spellings of pieces of source text that a node keeps as text: types, whose
  tokens are joined with the least space that reads well, and annotation values, whose white space
  shrinks to single spaces.
Main exports: joinTokens, normalizeType, collapseWhitespace
-/
import JavaUnit.Token.Stream

namespace JavaUnit

/-- Whether canonical text has a space between two neighbours: between words, after a comma, after
a wildcard that a bound follows, and around the ampersand of an intersection. -/
def spaced (left right : Token) : Bool :=
  (left.isWord && right.isWord)
    || left.kind = .comma
    || (left.kind = .question && right.isWord)
    || left.isOperator ['&']
    || right.isOperator ['&']

/-- The texts of tokens in a row, with a space where canonical text has one. -/
def joinTokens : List Token → Text
  | [] => []
  | [token] => token.text
  | left :: right :: rest =>
    left.text ++ (if spaced left right then [' '] else []) ++ joinTokens (right :: rest)

/-- The tokens that matter in a type: no trivia and no end of input. -/
def significantTokens (tokens : List Token) : List Token :=
  tokens.filter fun token => !token.isTrivia && !token.isEnd

/-- The canonical spelling of a type written by hand; none if the text is not made of tokens, or
of none that matters. -/
def normalizeType (text : Text) : Option Text :=
  match lex text with
  | .error _ => none
  | .ok tokens =>
    let joined := joinTokens (significantTokens tokens)
    if joined = [] then none else some joined

/-- The text of tokens with every stretch of white space shrunk to one space, and none at either
end. Literals and comments keep theirs. -/
def collapseTokens (tokens : List Token) : Text :=
  Text.trim (tokens.flatMap fun token => if token.isWhitespace then [' '] else token.text)

/-- The same for a text; none if it is not made of tokens. -/
def collapseWhitespace (text : Text) : Option Text :=
  (lex text).toOption.map collapseTokens

end JavaUnit
