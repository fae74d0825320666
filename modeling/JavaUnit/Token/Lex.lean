/-
Module: JavaUnit.Token.Lex
Purpose: Cutting source text into tokens. Each scanner says how many characters of the text a
  lexeme takes; the lexeme is that many characters and the next token starts right after them, so
  nothing can be lost or read twice. Only a comment, a string or a character literal that is never
  closed makes the whole fail.
Main exports: Delimited, Unterminated, lex
-/
import JavaUnit.Text.Letter
import JavaUnit.Token

namespace JavaUnit

/-- The lexemes that have to be closed. -/
inductive Delimited where
  | comment | string | character
deriving DecidableEq, Repr

/-- How far a delimited lexeme reaches: up to its closing delimiter, or for as long as one could
still follow. Both count characters. -/
inductive Extent where
  | closed (length : Nat)
  | unclosed (length : Nat)
deriving DecidableEq, Repr

/-- The extent with `n` characters in front of it. -/
def Extent.after (n : Nat) : Extent → Extent
  | .closed length => .closed (length + n)
  | .unclosed length => .unclosed (length + n)

/-! ### Characters of words -/

/-- Whether a word may start with `c`. -/
def isWordStart (c : Char) : Bool :=
  isLetter c || c = '_' || c = '$'

/-- Whether a word may go on with `c`. -/
def isWordPart (c : Char) : Bool :=
  isLetterOrNumber c || c = '_' || c = '$'

/-- Keywords are words that are set apart. -/
def wordKind (word : Text) : Kind :=
  match Keyword.lookup word with
  | some keyword => .keyword keyword
  | none => .identifier

/-! ### Extents of lexemes -/

/-- Whether `c` ends a line. -/
def endsLine (c : Char) : Bool :=
  c = '\n' || c = '\r'

/-- The rest of a comment after its opening slash and star. The star of a closing delimiter is
not the star of the opening one. -/
def commentExtent (previous : Char) : Text → Extent
  | [] => .unclosed 0
  | c :: rest =>
    if previous = '*' ∧ c = '/' then .closed 1 else (commentExtent c rest).after 1

/-- The rest of a literal on one line, after its opening quote. A backslash takes the character
after it along, unless that is a line feed. -/
def literalExtent (quote : Char) : Text → Extent
  | [] => .unclosed 0
  | '\\' :: '\n' :: _ => .unclosed 1
  | '\\' :: _ :: rest => (literalExtent quote rest).after 2
  | c :: rest =>
    if c = quote then .closed 1
    else if endsLine c then .unclosed 0
    else (literalExtent quote rest).after 1

/-- The rest of a text block, after its three opening quotes and `quotes` more in a row. A
backslash takes the character after it along. -/
def textBlockExtent (quotes : Nat) : Text → Extent
  | [] => .unclosed 0
  | '\\' :: _ :: rest => (textBlockExtent 0 rest).after 2
  | c :: rest =>
    if c = '"' then
      if quotes = 2 then .closed 1 else (textBlockExtent (quotes + 1) rest).after 1
    else (textBlockExtent 0 rest).after 1

/-- The rest of a number in any radix, after a character `previous` of it. A sign belongs to it
behind an exponent letter, and a dot unless another one follows. -/
def numberLength (previous : Char) : Text → Nat
  | [] => 0
  | c :: rest =>
    let sign := (c = '+' || c = '-') && (previous ∈ ['e', 'E', 'p', 'P'])
    if c.isAlphanum || c = '_' || c = '.' || sign then
      if c = '.' && rest.head? = some '.' then 0 else numberLength c rest + 1
    else 0

/-! ### Tokens -/

/-- A token's kind and the number of characters after its first, or a lexeme that is not closed
within that many characters. -/
inductive Scan where
  | token (kind : Kind) (more : Nat)
  | unclosed (delimited : Delimited) (more : Nat)
deriving DecidableEq, Repr

/-- The scan of a delimited lexeme. -/
def Extent.scan (extent : Extent) (kind : Kind) (delimited : Delimited) : Scan :=
  match extent with
  | .closed length => .token kind length
  | .unclosed length => .unclosed delimited length

/-- A comment whose slash is read and whose star is the first of the characters left. -/
def scanComment (rest : Text) : Scan :=
  let isDoc := rest[1]? = some '*' && rest[2]? ≠ some '/'
  ((commentExtent '\x00' (rest.drop 1)).after 1).scan
    (if isDoc then .docComment else .blockComment) .comment

/-- A string or a text block whose first quote is read. -/
def scanString (rest : Text) : Scan :=
  match rest with
  | '"' :: '"' :: block => ((textBlockExtent 0 block).after 2).scan .string .string
  | _ => (literalExtent '"' rest).scan .string .string

/-- The characters that are an operator on their own. -/
def operatorChars : List Char := "+-*%!&|^~:".toList

/-- The token that starts with `first` and goes on in `rest`. -/
def scan (first : Char) (rest : Text) : Scan :=
  match first with
  | '{' => .token .openBrace 0
  | '}' => .token .closeBrace 0
  | '(' => .token .openParen 0
  | ')' => .token .closeParen 0
  | '[' => .token .openBracket 0
  | ']' => .token .closeBracket 0
  | ';' => .token .semicolon 0
  | ',' => .token .comma 0
  | '@' => .token .atSign 0
  | '<' => .token .less 0
  | '>' => .token .greater 0
  | '?' => .token .question 0
  | '=' => if rest.head? = some '=' then .token .operator 1 else .token .equals 0
  | '.' =>
    if rest.head? = some '.' && rest[1]? = some '.' then .token .ellipsis 2
    else if rest.head?.any Char.isDigit then .token .number (numberLength '\x00' rest)
    else .token .dot 0
  | '/' =>
    if rest.head? = some '/' then .token .lineComment (rest.takeWhile (!endsLine ·)).length
    else if rest.head? = some '*' then scanComment rest
    else .token .operator 0
  | '"' => scanString rest
  | '\'' => (literalExtent '\'' rest).scan .character .character
  | c =>
    if isBlank c then .token .whitespace (rest.takeWhile isBlank).length
    else if isWordStart c then
      let tail := rest.takeWhile isWordPart
      .token (wordKind (c :: tail)) tail.length
    else if c.isDigit then .token .number (numberLength '\x00' rest)
    else if c ∈ operatorChars then .token .operator 0
    else .token .unknown 0

/-- Why a text has no tokens: the lexeme at the start of `rest` is not closed within its first
`length` characters, and cannot be closed after them. -/
structure Unterminated where
  delimited : Delimited
  rest : Text
  length : Nat
deriving DecidableEq, Repr

/-- The tokens of a text, the end of the input last. -/
def lex : Text → Except Unterminated (List Token)
  | [] => .ok [Token.endOfInput]
  | first :: rest =>
    match scan first rest with
    | .token kind more =>
      (lex (rest.drop more)).map (⟨kind, first :: rest.take more⟩ :: ·)
    | .unclosed delimited more => .error ⟨delimited, first :: rest, more + 1⟩
termination_by text => text.length
decreasing_by
  simp only [List.length_drop, List.length_cons]
  omega

end JavaUnit
