/-
Module: JavaUnit.Outline
Purpose: The summary of a class as structured data: its declarations without bodies and comments.
Main exports: ClassDecl.outline
-/
import JavaUnit.Document
import JavaUnit.Node.Member

namespace JavaUnit

open Document (always optional unlessEmpty)

def Modifiers.outline (set : Modifiers) : Document :=
  .texts (set.toList.map Modifier.text)

/-- The canonical name is null while it is not known. -/
def Annotation.outline (node : Annotation) : Document :=
  .record
    (always "name" (.text node.name)
      ++ always "canonical_name"
        (.textOrNull (if node.isResolved then some node.canonicalName else none))
      ++ unlessEmpty "params" (node.params.map fun param => .text param.render))

def Field.outline (node : Field) : Document :=
  .record
    (always "name" (.text node.name)
      ++ always "type" (.text node.type)
      ++ always "modifiers" node.modifiers.outline
      ++ unlessEmpty "annotations" (node.annotations.map Annotation.outline)
      ++ optional "value" node.value)

/-- The return type of a constructor is null. -/
def Method.outline (node : Method) : Document :=
  .record
    (always "name" (.text node.name)
      ++ always "return_type" (.textOrNull node.returnType)
      ++ always "parameters" (.texts (node.parameters.map Parameter.render))
      ++ unlessEmpty "throws" (node.throws.map .text)
      ++ always "modifiers" node.modifiers.outline
      ++ unlessEmpty "annotations" (node.annotations.map Annotation.outline)
      ++ always "has_body" (.flag node.body.isSome))

/-- The description of the Javadoc of a class, if it is not empty. -/
def ClassHead.javadocText (head : ClassHead) : Option Text :=
  (head.javadoc.map fun doc => Text.unlines doc.description).filter (· ≠ [])

/-- The outline of a class with given members, around the outlines of the classes among them. -/
def ClassHead.outline (head : ClassHead) (members : List Member) (inner : List Document) :
    Document :=
  let node : ClassDecl := ⟨head, members⟩
  .record
    (always "name" (.text head.name)
      ++ always "kind" (.text head.kind.text)
      ++ optional "package" (head.package.map (·.name))
      ++ unlessEmpty "imports" (head.imports.map fun node => .text node.render)
      ++ always "modifiers" head.modifiers.outline
      ++ unlessEmpty "annotations" (head.annotations.map Annotation.outline)
      ++ optional "javadoc" head.javadocText
      ++ optional "type_parameters" head.typeParameters
      ++ optional "super_class" head.superclass
      ++ unlessEmpty "interfaces" (head.interfaces.map .text)
      ++ always "fields" (.list (node.fields.map Field.outline))
      ++ always "methods" (.list (node.methods.map Method.outline))
      ++ always "static_blocks" (.number node.staticBlocks.length)
      ++ unlessEmpty "inner_classes" inner)

mutual

/-- The outline of a member that is a class. -/
def Member.classOutline? : Member → Option Document
  | .classDecl head members => some (head.outline members (Member.classOutlines members))
  | _ => none

/-- The outlines of the classes among some members. -/
def Member.classOutlines : List Member → List Document
  | [] => []
  | member :: rest => (Member.classOutline? member).toList ++ Member.classOutlines rest

end

def ClassDecl.outline (node : ClassDecl) : Document :=
  node.toClassHead.outline node.members (Member.classOutlines node.members)

end JavaUnit
