/-
Module: JavaUnit.Text.Block
Purpose: The canonical lines of a raw block of text, such as the inside of a pair of braces or a
  field initializer. What shares a line with the opening delimiter is trimmed, the other lines
  lose their common indentation, trailing white space goes, and blank lines at either end go.
Main exports: Text.block, Text.blockLines, Text.blockText
-/
import JavaUnit.Text

namespace JavaUnit

namespace Text

/-- The number of white space characters a line begins with. -/
def indentation (line : Text) : Nat :=
  (line.takeWhile JavaUnit.isBlank).length

/-- The least indentation among the lines that are not blank; none if all are. -/
def commonIndentation (lines : List Text) : Nat :=
  ((lines.filter (!·.isBlank)).map indentation).min?.getD 0

/-- A line without its first `count` characters; a blank line is empty. -/
def dedent (count : Nat) (line : Text) : Text :=
  if line.isBlank then [] else line.drop count

/-- `lines` without the lines at either end that `p` holds of. -/
def stripEdges (p : Text → Bool) (lines : List Text) : List Text :=
  ((lines.dropWhile p).reverse.dropWhile p).reverse

/-- The canonical lines of the raw text of a block. -/
def block (raw : Text) : List Text :=
  match (raw.split '\n').map trimEnd with
  | [] => []
  | first :: rest =>
    let opening := if first.trim = [] then [] else [first.trim]
    let dedented := rest.map (dedent (commonIndentation rest))
    stripEdges (· = []) (opening ++ dedented)

/-- The canonical form of lines written one by one: none of them shares a line with a delimiter. -/
def blockLines (lines : List Text) : List Text :=
  block ('\n' :: unlines lines)

/-- The canonical form of a block that is kept as one text. -/
def blockText (raw : Text) : Text :=
  unlines (block raw)

end Text

end JavaUnit
