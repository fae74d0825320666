/-
Module: JavaUnit.Node
Purpose: Nodes of any kind. Two nodes of one type are equal if they are rendered alike; class
  members are a type of their own, besides the types of what they are.
Main exports: Node, Node.render, Node.freeze, Node.equal?
-/
import JavaUnit.Node.Member

namespace JavaUnit

inductive Node where
  | packageStatement (node : Package)
  | importStatement (node : Import)
  | annotationUse (node : Annotation)
  | javadoc (node : Javadoc)
  | comment (node : Comment)
  | field (node : Field)
  | method (node : Method)
  | staticBlock (node : StaticBlock)
  | classDecl (node : ClassDecl)
  | member (node : Member)

namespace Node

def kind : Node → NodeKind
  | .packageStatement _ => .packageStatement
  | .importStatement _ => .importStatement
  | .annotationUse _ => .annotationUse
  | .javadoc _ => .javadoc
  | .comment _ => .comment
  | .field _ => .field
  | .method _ => .method
  | .staticBlock _ => .staticBlock
  | .classDecl _ => .classDecl
  | .member node => node.kind

def editable : Node → Bool
  | .packageStatement node => node.editable
  | .importStatement node => node.editable
  | .annotationUse node => node.editable
  | .javadoc node => node.editable
  | .comment node => node.editable
  | .field node => node.editable
  | .method node => node.editable
  | .staticBlock node => node.editable
  | .classDecl node => node.editable
  | .member node => node.editable

def render : Node → Text
  | .packageStatement node => node.render
  | .importStatement node => node.render
  | .annotationUse node => node.render
  | .javadoc node => node.render
  | .comment node => node.render
  | .field node => node.render
  | .method node => node.render
  | .staticBlock node => node.render
  | .classDecl node => node.render
  | .member node => node.render

def freeze : Node → Node
  | .packageStatement node => .packageStatement node.freeze
  | .importStatement node => .importStatement node.freeze
  | .annotationUse node => .annotationUse node.freeze
  | .javadoc node => .javadoc node.freeze
  | .comment node => .comment node.freeze
  | .field node => .field node.freeze
  | .method node => .method node.freeze
  | .staticBlock node => .staticBlock node.freeze
  | .classDecl node => .classDecl node.freeze
  | .member node => .member node.freeze

/-- Whether a node is a class member as such. -/
def isMember : Node → Bool
  | .member _ => true
  | _ => false

/-- Whether two nodes are equal; nodes of different types cannot be compared. -/
def equal? (left right : Node) : Option Bool :=
  if left.isMember = right.isMember ∧ (left.isMember ∨ left.kind = right.kind) then
    some (left.render = right.render)
  else none

end Node

end JavaUnit
