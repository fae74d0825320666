/-
Module: JavaUnit.Node.Edit
Purpose: Changing a part of a node. A frozen node refuses every change, no declaration takes a
  doc-style comment in front of it, and an inner class takes no package and no imports.
Main exports: Annotation.setCanonicalName, Field.setJavadoc, Method.setJavadoc,
  ClassDecl.setPackage, ClassDecl.pushMember, and their kin
-/
import JavaUnit.Defect
import JavaUnit.Node.Member

namespace JavaUnit

/-- `change`, made to a node that can be changed. -/
def ifEditable (kind : NodeKind) (editable : Bool) (change : Except BuildError α) :
    Except BuildError α :=
  if editable then change else .error ⟨kind, [.frozen kind]⟩

/-- `change`, made for a comment that may stand in front of a declaration. -/
def ifPlain (kind : NodeKind) (comment : Option Comment) (change : Except BuildError α) :
    Except BuildError α :=
  if comment.any Comment.isDoc then .error ⟨kind, [.docCommentPlacement]⟩ else change

def Annotation.setCanonicalName (node : Annotation) (name : Text) :
    Except BuildError Annotation :=
  ifEditable .annotationUse node.editable (.ok { node with canonicalName := name })

theorem Annotation.setCanonicalName_of_editable (node : Annotation) {name : Text}
    (editable : node.editable = true) :
    node.setCanonicalName name = .ok { node with canonicalName := name } :=
  if_pos editable

namespace Field

def setSectionComment (node : Field) (comment : Option Comment) : Except BuildError Field :=
  ifEditable .field node.editable
    (ifPlain .field comment (.ok { node with sectionComment := comment }))

def setJavadoc (node : Field) (javadoc : Option Javadoc) : Except BuildError Field :=
  ifEditable .field node.editable (.ok { node with javadoc })

def setAnnotations (node : Field) (annotations : List Annotation) : Except BuildError Field :=
  ifEditable .field node.editable (.ok { node with annotations })

end Field

namespace Method

def setSectionComment (node : Method) (comment : Option Comment) : Except BuildError Method :=
  ifEditable .method node.editable
    (ifPlain .method comment (.ok { node with sectionComment := comment }))

def setJavadoc (node : Method) (javadoc : Option Javadoc) : Except BuildError Method :=
  ifEditable .method node.editable (.ok { node with javadoc })

def setAnnotations (node : Method) (annotations : List Annotation) : Except BuildError Method :=
  ifEditable .method node.editable (.ok { node with annotations })

end Method

namespace ClassDecl

def setSectionComment (node : ClassDecl) (comment : Option Comment) :
    Except BuildError ClassDecl :=
  ifEditable .classDecl node.editable
    (ifPlain .classDecl comment (.ok { node with sectionComment := comment }))

def setJavadoc (node : ClassDecl) (javadoc : Option Javadoc) : Except BuildError ClassDecl :=
  ifEditable .classDecl node.editable (.ok { node with javadoc })

def setAnnotations (node : ClassDecl) (annotations : List Annotation) :
    Except BuildError ClassDecl :=
  ifEditable .classDecl node.editable (.ok { node with annotations })

/-- `change`, made to the file of a class that has one. -/
def ifOuter (node : ClassDecl) (change : Except BuildError ClassDecl) :
    Except BuildError ClassDecl :=
  ifEditable .classDecl node.editable
    (if node.inner then .error ⟨.classDecl, [.innerFileScope]⟩ else change)

def setPackage (node : ClassDecl) (package : Option Package) : Except BuildError ClassDecl :=
  node.ifOuter (.ok { node with package })

def setImports (node : ClassDecl) (imports : List Import) : Except BuildError ClassDecl :=
  node.ifOuter (.ok { node with imports })

def setHeaderComments (node : ClassDecl) (comments : List Comment) :
    Except BuildError ClassDecl :=
  ifEditable .classDecl node.editable (.ok { node with headerComments := comments })

def setTrailingComments (node : ClassDecl) (comments : List Comment) :
    Except BuildError ClassDecl :=
  ifEditable .classDecl node.editable (.ok { node with trailingComments := comments })

def pushMember (node : ClassDecl) (member : Member) : Except BuildError ClassDecl :=
  ifEditable .classDecl node.editable (.ok { node with members := node.members ++ [member] })

end ClassDecl

end JavaUnit
