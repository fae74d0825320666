/-
Module: JavaUnit.Node.Annotation
Purpose: Annotations with the raw text of their values, and the canonical name that one may get
  after it is read.
Main exports: AnnotationParam, Annotation, Annotation.isResolved, Annotation.render
-/
import JavaUnit.Name

namespace JavaUnit

/-- A value given to an annotation. Only the single value of an annotation may have no name. -/
structure AnnotationParam where
  name : Option Text
  value : Text
deriving DecidableEq, Repr

def AnnotationParam.render (param : AnnotationParam) : Text :=
  match param.name with
  | some name => name ++ " = ".toList ++ param.value
  | none => param.value

/-- An annotation as it is written, and its canonical name, which is blank until it is known. -/
structure Annotation where
  name : Text
  canonicalName : Text := []
  params : List AnnotationParam
  editable : Bool := true
deriving DecidableEq, Repr

namespace Annotation

/-- The last part of the written name. -/
def simpleName (node : Annotation) : Text :=
  JavaUnit.simpleName node.name

/-- Whether the canonical name is known. -/
def isResolved (node : Annotation) : Bool :=
  !node.canonicalName.isBlank

def render (node : Annotation) : Text :=
  '@' :: node.name ++
    (if node.params = [] then []
     else ['('] ++ Text.join ", ".toList (node.params.map AnnotationParam.render) ++ [')'])

def freeze (node : Annotation) : Annotation :=
  { node with editable := false }

end Annotation

end JavaUnit
