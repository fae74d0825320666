/-
Module: JavaUnit.Reading.Comment
Purpose: Reading comments and Javadoc. The text between the delimiters is freed of the decoration
  at the start of its lines; Javadoc is then split into a description and block tags.
Main exports: commentLines, commentDraft?, JavadocDraft.ofBody, Reading.comment, Reading.javadoc
-/
import JavaUnit.Draft.Comment
import JavaUnit.Reading.Step

namespace JavaUnit

/-! ### The text of comments -/

/-- A line of a comment without its indentation, one star and one space. -/
def undecorated (line : Text) : Text :=
  let line := line.trimStart
  let line := (Text.afterLead? ['*'] line).getD line
  let line := (Text.afterLead? [' '] line).getD line
  line.trimEnd

/-- The lines of the text between two comment delimiters. A text without line breaks only loses
the one space at either end, and white space behind it. -/
def commentLines (body : Text) : List Text :=
  if '\n' ∈ body then (body.split '\n').map undecorated
  else
    let line := (Text.afterLead? [' '] body).getD body
    [Text.trimEnd ((Text.beforeTail? [' '] line).getD line)]

/-- What stands between the delimiters of a comment; nothing if they overlap. -/
def between (opening : Text) (text : Text) : Text :=
  ((Text.afterLead? opening text).bind (Text.beforeTail? "*/".toList)).getD []

/-- The draft of the comment that a token is. -/
def commentDraft? (token : Token) : Option CommentDraft :=
  match token.kind with
  | .lineComment =>
    some (CommentDraft.addText { style := .line }
      ((Text.afterLead? "//".toList token.text).getD token.text))
  | .blockComment =>
    some (CommentDraft.addText { style := .block }
      (Text.unlines (commentLines (between "/*".toList token.text))))
  | .docComment =>
    some (CommentDraft.addText { style := .doc }
      (Text.unlines (commentLines (between "/**".toList token.text))))
  | _ => none

/-! ### The parts of Javadoc -/

/-- The lines of a Javadoc comment sorted: description lines, then the block tags with their
texts. -/
structure JavadocParts where
  description : List Text := []
  tags : List (Text × Text) := []
deriving DecidableEq, Repr

namespace JavadocParts

/-- A text with one more line, which follows after a space. -/
def continued (text line : Text) : Text :=
  if line = [] then text
  else if text = [] then line
  else text ++ ' ' :: line

/-- The parts with one more line. A line that starts with an at sign opens a tag; any other goes on
with the last tag, or with the description while there is none. -/
def addLine (parts : JavadocParts) (line : Text) : JavadocParts :=
  match line.trimStart with
  | '@' :: rest =>
    let (tag, text) := Text.splitAtBlank rest
    { parts with tags := parts.tags ++ [(tag, text.trim)] }
  | trimmed =>
    match parts.tags.getLast? with
    | none => { parts with description := parts.description ++ [line] }
    | some (tag, text) =>
      { parts with tags := parts.tags.dropLast ++ [(tag, continued text trimmed)] }

end JavadocParts

namespace JavadocDraft

/-- The draft with the text of a tag that may be given once. -/
def once (draft : JavadocDraft) (tag : Text) (present : Option Text)
    (change : JavadocDraft) : JavadocDraft × List Defect :=
  if present.isSome then (draft, [.duplicateTag tag]) else (change, [])

/-- The draft with one more block tag, and what is wrong with that. -/
def addBlockTag (draft : JavadocDraft) (tag text : Text) : JavadocDraft × List Defect :=
  if tag = "param".toList then
    let (name, rest) := Text.splitAtBlank text
    if name = [] then (draft, [.missingParamName]) else (draft.addParam name rest.trim, [])
  else if tag = "return".toList then draft.once tag draft.returns (draft.withReturns text)
  else if tag = "author".toList then draft.once tag draft.author (draft.withAuthor text)
  else if tag = "version".toList then draft.once tag draft.version (draft.withVersion text)
  else if tag = "since".toList then draft.once tag draft.since (draft.withSince text)
  else (draft.addTag tag text, [])

/-- The draft with more block tags, and what is wrong with them. -/
def addBlockTags (draft : JavadocDraft) : List (Text × Text) → JavadocDraft × List Defect
  | [] => (draft, [])
  | (tag, text) :: rest =>
    let (next, defects) := draft.addBlockTag tag text
    let (last, more) := next.addBlockTags rest
    (last, defects ++ more)

/-- The draft of the Javadoc whose text between the delimiters is `body`, and what is wrong with
its tags. -/
def ofBody (body : Text) : JavadocDraft × List Defect :=
  let parts := (commentLines body).foldl JavadocParts.addLine {}
  addBlockTags (parts.description.foldl addDescription {}) parts.tags

end JavadocDraft

/-! ### Reading -/

namespace Reading

/-- A comment of any style. -/
def comment : Reading Comment := do
  let scope ← scopeHere .comment
  finish scope do
    match commentDraft? (← current) with
    | none => unexpected scope .comment
    | some draft =>
      let _ ← advance
      return { built := draft.build }

/-- A doc comment with its description and block tags. -/
def javadoc : Reading Javadoc := do
  let scope ← scopeHere .javadoc
  finish scope do
    let token ← current
    if token.kind = .docComment then
      let _ ← advance
      let (draft, defects) := JavadocDraft.ofBody (between "/**".toList token.text)
      return { defects, built := draft.build }
    else
      unexpected scope .javadoc

end Reading

end JavaUnit
