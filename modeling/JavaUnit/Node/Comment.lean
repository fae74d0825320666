/-
Module: JavaUnit.Node.Comment
Purpose: Comments, and Javadoc with its description and block tags. A comment whose one line is
  short enough is rendered on a single line, any other between delimiters on lines of their own.
Main exports: CommentStyle, Comment, Javadoc, Javadoc.tagLines, Javadoc.isCondensed
-/
import JavaUnit.Text

namespace JavaUnit

/-! ### Layout -/

/-- The widest line that is rendered between comment delimiters on one line, in characters. -/
def condensedWidth : Nat := 100

/-- Whether `line` may share a line with its delimiters. -/
def fitsCondensed (line : Text) : Bool :=
  line.length ≤ condensedWidth

/-- One line of a comment that has its delimiters on lines of their own. -/
def starLine (line : Text) : Text :=
  if line = [] then " *\n".toList else " * ".toList ++ line ++ ['\n']

/-- A comment on one line. -/
def condensed (opening line : Text) : Text :=
  opening ++ [' '] ++ line ++ " */".toList

/-- A comment on several lines, which are given with their line breaks. -/
def spread (opening lines : Text) : Text :=
  opening ++ ['\n'] ++ lines ++ " */".toList

/-! ### Comments -/

/-- How a comment is delimited. -/
inductive CommentStyle where
  | line
  | block
  /-- Like Javadoc, but kept at the head of a file as a comment. -/
  | doc
deriving DecidableEq, Repr

/-- A comment by its lines, without delimiters and decoration. -/
structure Comment where
  style : CommentStyle
  lines : List Text
  editable : Bool := true
deriving DecidableEq, Repr

/-- What opens a comment that has to be closed. -/
def CommentStyle.opening : CommentStyle → Text
  | .doc => "/**".toList
  | _ => "/*".toList

namespace Comment

/-- The lines as one text. -/
def text (node : Comment) : Text :=
  Text.unlines node.lines

def isDoc (node : Comment) : Bool :=
  node.style = .doc

def render (node : Comment) : Text :=
  match node.style, node.lines with
  | .line, [] => "//".toList
  | .line, lines => "// ".toList ++ Text.join [' '] lines
  | style, [] => style.opening ++ " */".toList
  | style, [line] =>
    if fitsCondensed line then condensed style.opening line
    else spread style.opening (starLine line)
  | style, lines => spread style.opening (lines.flatMap starLine)

def freeze (node : Comment) : Comment :=
  { node with editable := false }

end Comment

/-! ### Javadoc -/

/-- A documentation comment: description lines, then block tags. The tags that may occur once
have a place of their own; `tags` holds the others with their texts, in order. -/
structure Javadoc where
  description : List Text
  params : List (Text × Text)
  returns : Option Text
  author : Option Text
  version : Option Text
  since : Option Text
  tags : List (Text × Text)
  editable : Bool := true
deriving DecidableEq, Repr

/-- The line of a block tag. -/
def tagLine (tag text : Text) : Text :=
  if text = [] then '@' :: tag else '@' :: tag ++ ' ' :: text

namespace Javadoc

/-- The lines of all block tags in canonical order. -/
def tagLines (node : Javadoc) : List Text :=
  node.params.map (fun param =>
      tagLine "param".toList (Text.trimEnd (param.1 ++ ' ' :: param.2)))
    ++ (node.returns.map (tagLine "return".toList)).toList
    ++ (node.author.map (tagLine "author".toList)).toList
    ++ (node.version.map (tagLine "version".toList)).toList
    ++ (node.since.map (tagLine "since".toList)).toList
    ++ node.tags.map fun tag => tagLine tag.1 tag.2

/-- Whether the content fits on one line: a single short line, or none. -/
def isCondensed (node : Javadoc) : Bool :=
  match node.description, node.tagLines with
  | [], [] => true
  | [line], [] => fitsCondensed line
  | [], [line] => fitsCondensed line
  | _, _ => false

def render (node : Javadoc) : Text :=
  if node.isCondensed then
    match node.description ++ node.tagLines with
    | [] => "/** */".toList
    | line :: _ => condensed "/**".toList line
  else
    let gap := if node.description ≠ [] ∧ node.tagLines ≠ [] then " *\n".toList else []
    spread "/**".toList
      (node.description.flatMap starLine ++ gap ++ node.tagLines.flatMap starLine)

def freeze (node : Javadoc) : Javadoc :=
  { node with editable := false }

end Javadoc

end JavaUnit
