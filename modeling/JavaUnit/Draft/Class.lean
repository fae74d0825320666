/-
Module: JavaUnit.Draft.Class
Purpose: Drafts of classes and interfaces, with the rules that tie the parts of a class together:
  where doc-style comments may stand, and that only an outermost class has a file.
Main exports: ClassDraft
-/
import JavaUnit.Draft.Member

namespace JavaUnit

structure ClassDraft extends LeadDraft where
  headerComments : List Comment := []
  package : Option Package := none
  imports : List Import := []
  kind : ClassKind := .class
  name : Option Text := none
  typeParameters : Option Text := none
  superclass : Option Text := none
  interfaces : List Text := []
  members : List Member := []
  trailingComments : List Comment := []
  inner : Bool := false

namespace ClassDraft

/-- The modifiers that a class accepts. -/
def modifiersAllowed : List Modifier :=
  [.«public», .«protected», .«private», .abstract, .static, .final, .strictfp]

def ofNode (node : ClassDecl) : ClassDraft where
  toLeadDraft := LeadDraft.ofLead node.toLead
  headerComments := node.headerComments
  package := node.package
  imports := node.imports
  kind := node.kind
  name := some node.name
  typeParameters := node.typeParameters
  superclass := node.superclass
  interfaces := node.interfaces
  members := node.members
  trailingComments := node.trailingComments
  inner := node.inner

def withKind (draft : ClassDraft) (kind : ClassKind) : ClassDraft :=
  { draft with kind }

def withName (draft : ClassDraft) (name : Text) : ClassDraft :=
  { draft with name := some name.trim }

/-- Type parameters with their angle brackets. -/
def withTypeParameters (draft : ClassDraft) (text : Text) : ClassDraft :=
  { draft with typeParameters := some text.trim }

def withSuperclass (draft : ClassDraft) (type : Text) : ClassDraft :=
  { draft with superclass := some type.trim }

def addInterface (draft : ClassDraft) (type : Text) : ClassDraft :=
  { draft with interfaces := draft.interfaces ++ [type.trim] }

def withPackage (draft : ClassDraft) (package : Package) : ClassDraft :=
  { draft with package := some package }

def addImport (draft : ClassDraft) (node : Import) : ClassDraft :=
  { draft with imports := draft.imports ++ [node] }

def addHeaderComment (draft : ClassDraft) (comment : Comment) : ClassDraft :=
  { draft with headerComments := draft.headerComments ++ [comment] }

def addTrailingComment (draft : ClassDraft) (comment : Comment) : ClassDraft :=
  { draft with trailingComments := draft.trailingComments ++ [comment] }

def addMember (draft : ClassDraft) (member : Member) : ClassDraft :=
  { draft with members := draft.members ++ [member] }

/-- Says whether the class is nested in another one. -/
def withInner (draft : ClassDraft) (inner : Bool) : ClassDraft :=
  { draft with inner }

/-- Whether a package or an import separates the header comments from the class. -/
def hasFileScope (draft : ClassDraft) : Bool :=
  draft.package.isSome || !draft.imports.isEmpty

/-- An inner class has no file of its own. -/
def innerDefects (draft : ClassDraft) : List Defect :=
  if draft.inner then
    requirement (!draft.hasFileScope) .innerFileScope
      ++ requirement (draft.headerComments.isEmpty && draft.trailingComments.isEmpty)
        .innerFileComments
  else []

def memberDefects : Member → List Defect
  | .classDecl head _ => requirement head.inner (.nestedNotInner head.name)
  | .comment comment => plainComment comment
  | _ => []

def defects (draft : ClassDraft) : List Defect :=
  draft.commentDefects
    ++ draft.trailingComments.flatMap plainComment
    ++ requirement (draft.hasFileScope || !draft.headerComments.any Comment.isDoc) .docHeaderAlone
    ++ requirePart .name draft.name
    ++ requireName .classDecl isIdentifier draft.name
    ++ modifierDefects .classDecl modifiersAllowed draft.modifiers
    ++ conflictDefects draft.modifiers .abstract [.final]
    ++ draft.innerDefects
    ++ requirement (draft.kind ≠ .interface || draft.superclass.isNone) .interfaceSuperclass
    ++ draft.typeParameters.toList.flatMap typeParameterDefects
    ++ draft.superclass.toList.flatMap (typeDefects .superclass)
    ++ draft.interfaces.flatMap (typeDefects .interface)
    ++ draft.members.flatMap memberDefects

def node (draft : ClassDraft) : ClassDecl where
  toLead := draft.toLeadDraft.lead
  headerComments := draft.headerComments
  package := draft.package
  imports := draft.imports
  kind := draft.kind
  name := draft.name.getD []
  typeParameters := draft.typeParameters.map canonicalType
  superclass := draft.superclass.map canonicalType
  interfaces := draft.interfaces.map canonicalType
  trailingComments := draft.trailingComments
  inner := draft.inner
  members := draft.members

def build (draft : ClassDraft) : Except BuildError ClassDecl :=
  settle .classDecl draft.defects draft.node

/-- The texts that building cuts into tokens, in order. -/
def examined (draft : ClassDraft) : List Text :=
  draft.typeParameters.toList ++ draft.superclass.toList ++ draft.interfaces

end ClassDraft

end JavaUnit
