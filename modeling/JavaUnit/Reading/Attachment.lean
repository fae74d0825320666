/-
Module: JavaUnit.Reading.Attachment
Purpose: Turning the items of a class body into members. A comment, Javadoc and annotations wait
  for the next field, method or class, and stand in front of it then. Nothing is dropped: what
  finds nothing to stand in front of is kept as a comment of its own or reported.
Main exports: BodyItem, Attachment, attach
-/
import JavaUnit.Node.Edit

namespace JavaUnit

/-- An entry of a class body before comments, Javadoc and annotations are attached. -/
inductive BodyItem where
  | sectionComment (node : Comment)
  | javadoc (node : Javadoc)
  | annotationUse (node : Annotation)
  | member (node : Member)

/-- What waits for the member that it belongs to. -/
structure Pending where
  sectionComment : Option Comment := none
  javadoc : Option Javadoc := none
  annotations : List Annotation := []
deriving DecidableEq

/-- `change node value`, if there is a value. -/
def setIfSome (change : α → Option β → Except BuildError α) (value : Option β) (node : α) :
    Except BuildError α :=
  if value.isSome then change node value else .ok node

/-- `change` of a node that gains annotations ahead of its own. -/
def gainAnnotations (change : α → List Annotation → Except BuildError α)
    (gained own : List Annotation) (node : α) : Except BuildError α :=
  if gained = [] then .ok node else change node (gained ++ own)

namespace Pending

/-- A field with what waits in front of it. -/
def onField (pending : Pending) (node : Field) : Except BuildError Field := do
  let node ← setIfSome Field.setSectionComment pending.sectionComment node
  let node ← setIfSome Field.setJavadoc pending.javadoc node
  gainAnnotations Field.setAnnotations pending.annotations node.annotations node

/-- A method with what waits in front of it. -/
def onMethod (pending : Pending) (node : Method) : Except BuildError Method := do
  let node ← setIfSome Method.setSectionComment pending.sectionComment node
  let node ← setIfSome Method.setJavadoc pending.javadoc node
  gainAnnotations Method.setAnnotations pending.annotations node.annotations node

/-- A class with what waits in front of it. -/
def onClass (pending : Pending) (node : ClassDecl) : Except BuildError ClassDecl := do
  let node ← setIfSome ClassDecl.setSectionComment pending.sectionComment node
  let node ← setIfSome ClassDecl.setJavadoc pending.javadoc node
  gainAnnotations ClassDecl.setAnnotations pending.annotations node.annotations node

/-- A member with what waits in front of it. Nothing stands in front of blocks and comments. -/
def onMember (pending : Pending) : Member → Except BuildError Member
  | .field node => (pending.onField node).map .field
  | .method node => (pending.onMethod node).map .method
  | .classDecl head members => (pending.onClass ⟨head, members⟩).map .ofClass
  | .staticBlock node => .ok (.staticBlock node)
  | .comment node => .ok (.comment node)

end Pending

/-- The comment that a member has in front of it already. -/
def Member.sectionComment? : Member → Option Comment
  | .field node => node.sectionComment
  | .method node => node.sectionComment
  | .classDecl head _ => head.sectionComment
  | .staticBlock _ | .comment _ => none

/-- The members so far, what waits for the next one, and what went wrong. -/
structure Attachment where
  members : List Member := []
  pending : Pending := {}
  defects : List Defect := []

namespace Attachment

/-- One more member of its own for each of some comments. -/
def addComments (state : Attachment) (comments : Option Comment) : Attachment :=
  { state with members := state.members ++ comments.toList.map .comment }

/-- A comment takes the place of one that waits, which then stands on its own. -/
def addSectionComment (state : Attachment) (comment : Comment) : Attachment :=
  let state := state.addComments state.pending.sectionComment
  { state with pending := { state.pending with sectionComment := some comment } }

def addJavadoc (state : Attachment) (javadoc : Javadoc) : Attachment :=
  { state with
    pending := { state.pending with javadoc := some javadoc }
    defects := state.defects ++ if state.pending.javadoc.isSome then [.twoJavadocs] else [] }

def addAnnotation (state : Attachment) (used : Annotation) : Attachment :=
  { state with
    pending :=
      { state.pending with annotations := state.pending.annotations ++ [used] } }

/-- A static block takes nothing in front of it. -/
def addStaticBlock (state : Attachment) (block : StaticBlock) : Attachment :=
  let waiting := state.pending
  let state := state.addComments waiting.sectionComment
  { members := state.members ++ [.staticBlock block]
    pending := {}
    defects := state.defects
      ++ (if waiting.javadoc.isSome then [.javadocOnStaticBlock] else [])
      ++ if waiting.annotations ≠ [] then [.annotationsOnStaticBlock] else [] }

/-- A field, method or class takes all that waits, save that a comment of its own goes before one
that waits. -/
def addDeclaration (state : Attachment) (member : Member) : Attachment :=
  let state :=
    if member.sectionComment?.isSome then
      let cleared := state.addComments state.pending.sectionComment
      { cleared with pending := { cleared.pending with sectionComment := none } }
    else state
  match state.pending.onMember member with
  | .ok member => { state with members := state.members ++ [member], pending := {} }
  | .error error =>
    { members := state.members ++ [member]
      pending := {}
      defects := state.defects ++ error.defects }

def add (state : Attachment) : BodyItem → Attachment
  | .sectionComment comment => state.addSectionComment comment
  | .javadoc javadoc => state.addJavadoc javadoc
  | .annotationUse used => state.addAnnotation used
  | .member (.comment comment) => { state with members := state.members ++ [.comment comment] }
  | .member (.staticBlock block) => state.addStaticBlock block
  | .member member => state.addDeclaration member

/-- The end of the class body: a comment that still waits stands on its own, anything else that
waits is lost, and reported. -/
def close (state : Attachment) : List Member × List Defect :=
  let waiting := state.pending
  ((state.addComments waiting.sectionComment).members,
    state.defects
      ++ (if waiting.javadoc.isSome then [.danglingJavadoc] else [])
      ++ if waiting.annotations ≠ [] then [.danglingAnnotations] else [])

end Attachment

/-- The members that the items of a class body make, and what is wrong with their order. -/
def attach (items : List BodyItem) : List Member × List Defect :=
  (items.foldl Attachment.add {}).close

end JavaUnit
