/-
Module: JavaUnit.Construct
Purpose: Names for the kinds of things that are read, built and reported on.
Main exports: NodeKind, Construct, DeclarationKind
-/
import JavaUnit.Text

namespace JavaUnit

/-- The kinds of nodes. -/
inductive NodeKind where
  | packageStatement | importStatement | annotationUse | javadoc | comment | field | method
  | staticBlock | classDecl
deriving DecidableEq, Repr

/-- How messages call a kind of node. -/
def NodeKind.text : NodeKind → Text
  | .packageStatement => "package declaration".toList
  | .importStatement => "import statement".toList
  | .annotationUse => "annotation".toList
  | .javadoc => "Javadoc".toList
  | .comment => "comment".toList
  | .field => "field".toList
  | .method => "method".toList
  | .staticBlock => "static block".toList
  | .classDecl => "class".toList

/-- What was being read when reading failed: a node of some kind, a class member of any kind, or
a whole file. -/
inductive Construct where
  | node (kind : NodeKind)
  | member
  | compilationUnit
deriving DecidableEq, Repr

/-- How messages call a construct. -/
def Construct.text : Construct → Text
  | .node kind => kind.text
  | .member => "class member".toList
  | .compilationUnit => "compilation unit".toList

/-- What a declaration turns out to be once its modifiers are read. -/
inductive DeclarationKind where
  | classDecl | field | method
deriving DecidableEq, Repr

/-- The kind of node that a declaration makes. -/
def DeclarationKind.nodeKind : DeclarationKind → NodeKind
  | .classDecl => .classDecl
  | .field => .field
  | .method => .method

end JavaUnit
