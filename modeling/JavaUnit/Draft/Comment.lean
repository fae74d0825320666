/-
Module: JavaUnit.Draft.Comment
Purpose: Drafts of comments and of Javadoc. Blank lines at either end go when a draft is built.
Main exports: CommentDraft, JavadocDraft
-/
import JavaUnit.Draft.Requirement
import JavaUnit.Text.Block

namespace JavaUnit

/-- Whether a text holds the delimiter that closes a comment. -/
def holdsCloser : Text → Bool
  | '*' :: '/' :: _ => true
  | _ :: rest => holdsCloser rest
  | [] => false

/-- A text cut into lines that do not end in white space. -/
def trimmedLines (text : Text) : List Text :=
  (text.split '\n').map Text.trimEnd

/-! ### Comments -/

structure CommentDraft where
  style : CommentStyle := .line
  lines : List Text := []
deriving DecidableEq, Repr

namespace CommentDraft

def ofNode (node : Comment) : CommentDraft where
  style := node.style
  lines := node.lines

/-- One or more lines to follow those that are there. -/
def addText (draft : CommentDraft) (text : Text) : CommentDraft :=
  { draft with lines := draft.lines ++ trimmedLines text }

/-- The lines that are kept. -/
def content (draft : CommentDraft) : List Text :=
  Text.stripEdges Text.isBlank draft.lines

def defects (draft : CommentDraft) : List Defect :=
  match draft.style with
  | .line => requirement (draft.content.length ≤ 1) .multilineLineComment
  | .block | .doc => draft.content.flatMap fun line =>
      requirement (!holdsCloser line) .commentCloser

/-- A line on its own is trimmed; among others it keeps its indentation. -/
def node (draft : CommentDraft) : Comment where
  style := draft.style
  lines :=
    match draft.style, draft.content with
    | .line, lines => lines.map Text.trim
    | _, [line] => [line.trim]
    | _, lines => lines

def build (draft : CommentDraft) : Except BuildError Comment :=
  settle .comment draft.defects draft.node

end CommentDraft

/-! ### Javadoc -/

structure JavadocDraft where
  description : List Text := []
  params : List (Text × Text) := []
  returns : Option Text := none
  author : Option Text := none
  version : Option Text := none
  since : Option Text := none
  tags : List (Text × Text) := []
deriving DecidableEq, Repr

namespace JavadocDraft

/-- The tags that have a place of their own. -/
def reservedTags : List Text :=
  ["param".toList, "return".toList, "author".toList, "version".toList, "since".toList]

def ofNode (node : Javadoc) : JavadocDraft where
  description := node.description
  params := node.params
  returns := node.returns
  author := node.author
  version := node.version
  since := node.since
  tags := node.tags

/-- One or more description lines to follow those that are there. -/
def addDescription (draft : JavadocDraft) (text : Text) : JavadocDraft :=
  { draft with description := draft.description ++ trimmedLines text }

def addParam (draft : JavadocDraft) (name text : Text) : JavadocDraft :=
  { draft with params := draft.params ++ [(name.trim, text.trim)] }

def withReturns (draft : JavadocDraft) (text : Text) : JavadocDraft :=
  { draft with returns := some text.trim }

def withAuthor (draft : JavadocDraft) (text : Text) : JavadocDraft :=
  { draft with author := some text.trim }

def withVersion (draft : JavadocDraft) (text : Text) : JavadocDraft :=
  { draft with version := some text.trim }

def withSince (draft : JavadocDraft) (text : Text) : JavadocDraft :=
  { draft with since := some text.trim }

def addTag (draft : JavadocDraft) (tag text : Text) : JavadocDraft :=
  { draft with tags := draft.tags ++ [(tag.trim, text.trim)] }

/-- The description lines that are kept. -/
def content (draft : JavadocDraft) : List Text :=
  Text.stripEdges Text.isBlank draft.description

def descriptionDefects (line : Text) : List Defect :=
  requirement (line.trimStart.head? ≠ some '@') (.descriptionStartsWithTag line)
    ++ requirement (!holdsCloser line) .javadocCloser

/-- The text of a tag is a single line. -/
def tagTextDefects (tag text : Text) : List Defect :=
  requirement ('\n' ∉ text) (.multilineTag tag)

def paramDefects (param : Text × Text) : List Defect :=
  requirement (isIdentifier param.1) (.invalidParamName param.1)
    ++ tagTextDefects "param".toList param.2

/-- A tag is a word of letters, numbers and hyphens. -/
def isTag (tag : Text) : Bool :=
  tag ≠ [] && tag.all fun c => isLetterOrNumber c || c = '-'

def tagDefects (tag : Text × Text) : List Defect :=
  requirement (isTag tag.1) (.invalidTag tag.1)
    ++ requirement (!reservedTags.contains tag.1) (.reservedTag tag.1)
    ++ tagTextDefects tag.1 tag.2

def defects (draft : JavadocDraft) : List Defect :=
  draft.content.flatMap descriptionDefects
    ++ draft.params.flatMap paramDefects
    ++ draft.returns.toList.flatMap (tagTextDefects "return".toList)
    ++ draft.author.toList.flatMap (tagTextDefects "author".toList)
    ++ draft.version.toList.flatMap (tagTextDefects "version".toList)
    ++ draft.since.toList.flatMap (tagTextDefects "since".toList)
    ++ draft.tags.flatMap tagDefects

def node (draft : JavadocDraft) : Javadoc where
  description := draft.content
  params := draft.params
  returns := draft.returns
  author := draft.author
  version := draft.version
  since := draft.since
  tags := draft.tags

def build (draft : JavadocDraft) : Except BuildError Javadoc :=
  settle .javadoc draft.defects draft.node

end JavadocDraft

end JavaUnit
