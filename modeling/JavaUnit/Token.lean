/-
Module: JavaUnit.Token
Purpose: Tokens of source text. Blanks and comments are tokens too, so that the texts of all
  tokens in order are the source. A token knows its text but not its place: places are a view on
  the list that holds it (`JavaUnit.Token.Stream`).
Main exports: Kind, Token, Token.isTrivia, Token.isWord, Token.keyword?
-/
import JavaUnit.Keyword

namespace JavaUnit

/-- What a token is. -/
inductive Kind where
  /-- The end of the input; its text is empty. -/
  | eof
  /-- A run of white space, line breaks included. -/
  | whitespace
  /-- From two slashes to the end of the line, without the line break. -/
  | lineComment
  /-- A comment between delimiters. -/
  | blockComment
  /-- A comment between delimiters that opens with two stars. -/
  | docComment
  /-- A character that starts no token. -/
  | unknown
  | identifier
  | keyword (word : Keyword)
  /-- A string literal or a text block, with its quotes. -/
  | string
  | character
  | number
  | openBrace | closeBrace | openParen | closeParen | openBracket | closeBracket
  | semicolon | comma | dot
  /-- Three dots. -/
  | ellipsis
  | atSign
  /-- An equals sign that is not half of a comparison. -/
  | equals
  | less | greater | question
  /-- Any other operator; its text tells which. -/
  | operator
deriving DecidableEq, Repr

/-- A piece of source text and what it is. -/
structure Token where
  kind : Kind
  text : Text
deriving DecidableEq, Repr

namespace Token

/-- The end of the input. -/
def endOfInput : Token := ⟨.eof, []⟩

/-- Whether a token is the end of the input. -/
def isEnd (token : Token) : Bool :=
  token.kind = .eof

def isWhitespace (token : Token) : Bool :=
  token.kind = .whitespace

/-- Whether a token is a comment that may stand anywhere; a doc comment may not. -/
def isPlainComment (token : Token) : Bool :=
  token.kind = .lineComment || token.kind = .blockComment

/-- White space and plain comments. -/
def isTrivia (token : Token) : Bool :=
  token.isWhitespace || token.isPlainComment

/-- The keyword that a token is. -/
def keyword? (token : Token) : Option Keyword :=
  match token.kind with
  | .keyword word => some word
  | _ => none

/-- Whether a token is made of word characters or is a literal, so that two of them in a row
need a space between them. -/
def isWord (token : Token) : Bool :=
  match token.kind with
  | .identifier | .keyword _ | .number | .string | .character => true
  | _ => false

/-- Whether a token is the operator with a given spelling. -/
def isOperator (token : Token) (spelling : Text) : Bool :=
  token.kind = .operator && token.text = spelling

end Token

end JavaUnit
