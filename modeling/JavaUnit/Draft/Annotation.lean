/-
Module: JavaUnit.Draft.Annotation
Purpose: Drafts of annotations. Values get their canonical spelling when the draft is built.
Main exports: AnnotationDraft
-/
import JavaUnit.Draft.Requirement

namespace JavaUnit

structure AnnotationDraft where
  name : Option Text := none
  canonicalName : Text := []
  params : List AnnotationParam := []
deriving DecidableEq, Repr

namespace AnnotationDraft

def ofNode (node : Annotation) : AnnotationDraft where
  name := some node.name
  canonicalName := node.canonicalName
  params := node.params

def withName (draft : AnnotationDraft) (name : Text) : AnnotationDraft :=
  { draft with name := some name.trim }

def withCanonicalName (draft : AnnotationDraft) (name : Text) : AnnotationDraft :=
  { draft with canonicalName := name.trim }

/-- One more value with a name. -/
def addParam (draft : AnnotationDraft) (name value : Text) : AnnotationDraft :=
  { draft with params := draft.params ++ [⟨some name.trim, value⟩] }

/-- One more value without a name. -/
def addValue (draft : AnnotationDraft) (value : Text) : AnnotationDraft :=
  { draft with params := draft.params ++ [⟨none, value⟩] }

/-- How messages call a value. -/
def label (param : AnnotationParam) : Text :=
  param.name.getD "value".toList

def valueDefects (param : AnnotationParam) : List Defect :=
  match collapseWhitespace param.value with
  | none => [.invalidAnnotationValue (label param)]
  | some value => requirement (value ≠ []) (.blankAnnotationValue (label param))

/-- The requirements on one of `count` values. -/
def paramDefects (count : Nat) (param : AnnotationParam) : List Defect :=
  (match param.name with
    | some name => requirement (isIdentifier name) (.invalidName .annotationParameter name)
    | none => requirement (count = 1) .unnamedValueNotAlone)
    ++ valueDefects param

def defects (draft : AnnotationDraft) : List Defect :=
  requirePart .name draft.name
    ++ requireName .annotationUse isQualifiedName draft.name
    ++ draft.params.flatMap (paramDefects draft.params.length)

/-- A value in its canonical spelling. -/
def canonicalParam (param : AnnotationParam) : AnnotationParam :=
  { param with value := (collapseWhitespace param.value).getD [] }

def node (draft : AnnotationDraft) : Annotation where
  name := draft.name.getD []
  canonicalName := draft.canonicalName
  params := draft.params.map canonicalParam

def build (draft : AnnotationDraft) : Except BuildError Annotation :=
  settle .annotationUse draft.defects draft.node

/-- The texts that building cuts into tokens, in order. -/
def examined (draft : AnnotationDraft) : List Text :=
  draft.params.map (·.value)

end AnnotationDraft

end JavaUnit
