/-
Module: JavaUnit.Reading.Entry
Purpose: What can be read on its own, from a place in a stream of tokens or from a whole text.
Main exports: Entry, Entry.read, Entry.readAll, Goal, Goal.entry, memberSteps
-/
import JavaUnit.Node
import JavaUnit.Reading.Unit

namespace JavaUnit

/-- A reading with the name of what it reads. -/
structure Entry (α : Type) where
  construct : Construct
  reading : Reading α

namespace Entry

def packageStatement : Entry Package := ⟨.node .packageStatement, .packageStatement⟩
def importStatement : Entry Import := ⟨.node .importStatement, .importStatement⟩
def annotationUse : Entry Annotation := ⟨.node .annotationUse, .annotationUse⟩
def javadoc : Entry Javadoc := ⟨.node .javadoc, .javadoc⟩
def comment : Entry Comment := ⟨.node .comment, .comment⟩
def field : Entry Field := ⟨.node .field, .wholeField⟩
def method : Entry Method := ⟨.node .method, .wholeMethod⟩
def staticBlock : Entry StaticBlock := ⟨.node .staticBlock, .staticBlock⟩
def file : Entry ClassDecl := ⟨.compilationUnit, .compilationUnit⟩
def member : Entry Member := ⟨.member, .member⟩

/-- What is read from some tokens on: the node and the tokens left after it. -/
def read (entry : Entry α) (tokens : List Token) : Except Failure (α × List Token) :=
  match entry.reading.run tokens with
  | .read node rest _ _ => .ok (node, rest)
  | .failed failure _ => .error failure

/-- The reading of an entry that has nothing but white space behind it. -/
def whole (entry : Entry α) : Reading α := do
  let node ← entry.reading
  Reading.skipWhitespace
  let next ← Reading.current
  if next.isEnd then
    return node
  else
    Reading.fail ⟨entry.construct, ← Reading.left⟩ [.trailingInput entry.construct next]

/-- What all of some tokens read as. -/
def readAll (entry : Entry α) (tokens : List Token) : Except Failure α :=
  match entry.whole.run tokens with
  | .read node _ _ _ => .ok node
  | .failed failure _ => .error failure

/-- The same entry for nodes of any kind. -/
def map (f : α → β) (entry : Entry α) : Entry β :=
  ⟨entry.construct, f <$> entry.reading⟩

end Entry

/-- The entries by name. -/
inductive Goal where
  | packageStatement | importStatement | annotationUse | javadoc | comment | field | method
  | staticBlock | file
  | member
deriving DecidableEq, Repr

/-- How to read for a goal. -/
def Goal.entry : Goal → Entry Node
  | .packageStatement => Entry.packageStatement.map .packageStatement
  | .importStatement => Entry.importStatement.map .importStatement
  | .annotationUse => Entry.annotationUse.map .annotationUse
  | .javadoc => Entry.javadoc.map .javadoc
  | .comment => Entry.comment.map .comment
  | .field => Entry.field.map .field
  | .method => Entry.method.map .method
  | .staticBlock => Entry.staticBlock.map .staticBlock
  | .file => Entry.file.map .classDecl
  | .member => Entry.member.map .member

/-- Whether nothing but white space is left. -/
def isFinished (tokens : List Token) : Bool :=
  (currentToken (tokens.dropWhile Token.isWhitespace)).isEnd

/-- Members read one after another, each with the tokens left after it, until nothing but white
space is left or one cannot be read. -/
def memberSteps (tokens : List Token) : List (Member × List Token) × Option Failure :=
  match Entry.member.read tokens with
  | .error failure => ([], some failure)
  | .ok (member, rest) =>
    if isFinished rest then ([(member, rest)], none)
    else if rest.length < tokens.length then
      let (later, failure) := memberSteps rest
      ((member, rest) :: later, failure)
    else ([(member, rest)], none)
termination_by tokens.length

end JavaUnit
