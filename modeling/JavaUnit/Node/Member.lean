/-
Module: JavaUnit.Node.Member
Purpose: Fields, methods, static blocks and classes. A class owns its members in the order in
  which they were declared, and classes may be among them; the outermost class also owns what its
  file holds besides it.
Main exports: Field, Parameter, Method, StaticBlock, ClassKind, ClassHead, Member, ClassDecl
-/
import JavaUnit.Construct
import JavaUnit.Node.Lead
import JavaUnit.Node.Statement

namespace JavaUnit

/-! ### Fields -/

/-- A field with its initializer, if it has one. -/
structure Field extends Lead where
  type : Text
  name : Text
  value : Option Text
  editable : Bool := true
deriving DecidableEq

namespace Field

def render (node : Field) : Text :=
  node.toLead.render ++ node.type ++ [' '] ++ node.name
    ++ renderIf node.value (" = ".toList ++ ·) ++ [';']

def freeze (node : Field) : Field :=
  { node with toLead := node.toLead.freeze, editable := false }

end Field

/-! ### Methods -/

/-- A parameter of a method. -/
structure Parameter where
  annotations : List Annotation
  isFinal : Bool
  type : Text
  name : Text
deriving DecidableEq

namespace Parameter

def render (parameter : Parameter) : Text :=
  parameter.annotations.flatMap (·.render ++ [' '])
    ++ (if parameter.isFinal then "final ".toList else [])
    ++ parameter.type ++ [' '] ++ parameter.name

def freeze (parameter : Parameter) : Parameter :=
  { parameter with annotations := parameter.annotations.map Annotation.freeze }

end Parameter

/-- A method. A constructor has no return type, and a method that is only declared no body. -/
structure Method extends Lead where
  typeParameters : Option Text
  returnType : Option Text
  name : Text
  parameters : List Parameter
  throws : List Text
  body : Option (List Text)
  editable : Bool := true
deriving DecidableEq

namespace Method

def isConstructor (node : Method) : Bool :=
  node.returnType.isNone

def render (node : Method) : Text :=
  node.toLead.render
    ++ renderIf node.typeParameters (· ++ [' '])
    ++ renderIf node.returnType (· ++ [' '])
    ++ node.name
    ++ ['('] ++ Text.join ", ".toList (node.parameters.map Parameter.render) ++ [')']
    ++ (if node.throws = [] then [] else " throws ".toList ++ Text.join ", ".toList node.throws)
    ++ match node.body with
      | some lines => renderBlock lines
      | none => [';']

def freeze (node : Method) : Method :=
  { node with
    toLead := node.toLead.freeze
    parameters := node.parameters.map Parameter.freeze
    editable := false }

end Method

/-! ### Static blocks -/

/-- A block that runs when its class is loaded. -/
structure StaticBlock where
  lines : List Text
  editable : Bool := true
deriving DecidableEq, Repr

namespace StaticBlock

def render (node : StaticBlock) : Text :=
  "static".toList ++ renderBlock node.lines

def freeze (node : StaticBlock) : StaticBlock :=
  { node with editable := false }

end StaticBlock

/-! ### Classes -/

/-- Classes and interfaces are one kind of node. -/
inductive ClassKind where
  | «class» | interface
deriving DecidableEq, Repr

namespace ClassKind

/-- The keyword that declares a class of this kind. -/
def text : ClassKind → Text
  | .class => "class".toList
  | .interface => "interface".toList

/-- The keyword in front of the interfaces of a class of this kind. -/
def interfacesWord : ClassKind → Text
  | .class => "implements".toList
  | .interface => "extends".toList

end ClassKind

/-- All of a class but its members. An interface lists the interfaces that it extends. Package,
imports, header and trailing comments belong to the file of an outermost class. -/
structure ClassHead extends Lead where
  headerComments : List Comment
  package : Option Package
  imports : List Import
  kind : ClassKind
  name : Text
  typeParameters : Option Text
  superclass : Option Text
  interfaces : List Text
  trailingComments : List Comment
  /-- Whether the class is nested in another one. -/
  inner : Bool
  editable : Bool := true
deriving DecidableEq

namespace ClassHead

/-- What comes before the class itself. -/
def renderFileHead (head : ClassHead) : Text :=
  head.headerComments.flatMap (·.render ++ ['\n'])
    ++ (head.package.map (·.render ++ "\n\n".toList)).getD []
    ++ (if head.imports = [] then []
        else head.imports.flatMap (·.render ++ ['\n']) ++ ['\n'])

/-- The declaration up to the body. -/
def renderDeclaration (head : ClassHead) : Text :=
  head.toLead.render
    ++ head.kind.text ++ [' '] ++ head.name
    ++ renderIf head.typeParameters id
    ++ renderIf head.superclass (" extends ".toList ++ ·)
    ++ (if head.interfaces = [] then []
        else [' '] ++ head.kind.interfacesWord ++ [' '] ++ Text.join ", ".toList head.interfaces)

/-- The whole class around the renderings of its members. -/
def render (head : ClassHead) (members : List Text) : Text :=
  head.renderFileHead ++ head.renderDeclaration
    ++ (if members = [] then " \x7b \x7d".toList
        else " \x7b\n".toList ++ Text.join "\n\n".toList (members.map Text.indent)
          ++ "\n\x7d".toList)
    ++ head.trailingComments.flatMap ('\n' :: ·.render)

def freeze (head : ClassHead) : ClassHead :=
  { head with
    toLead := head.toLead.freeze
    headerComments := head.headerComments.map Comment.freeze
    package := head.package.map Package.freeze
    imports := head.imports.map Import.freeze
    trailingComments := head.trailingComments.map Comment.freeze
    editable := false }

end ClassHead

/-- An entry of a class body. -/
inductive Member where
  | field (node : Field)
  | method (node : Method)
  | staticBlock (node : StaticBlock)
  | classDecl (head : ClassHead) (members : List Member)
  | comment (node : Comment)

/-- A class with its members. -/
structure ClassDecl extends ClassHead where
  members : List Member

namespace Member

/-- A nested class as a member. -/
def ofClass (node : ClassDecl) : Member :=
  .classDecl node.toClassHead node.members

mutual

/-- The canonical text of a member. -/
def render : Member → Text
  | .field node => node.render
  | .method node => node.render
  | .staticBlock node => node.render
  | .classDecl head members => head.render (renderEach members)
  | .comment node => node.render

/-- The canonical texts of members. -/
def renderEach : List Member → List Text
  | [] => []
  | member :: rest => member.render :: renderEach rest

end

/-- Members are rendered one by one. -/
theorem renderEach_eq_map (members : List Member) : renderEach members = members.map render := by
  induction members with
  | nil => rfl
  | cons member rest ih => simp [renderEach, ih]

mutual

/-- Freezes a member and all that it owns. -/
def freeze : Member → Member
  | .field node => .field node.freeze
  | .method node => .method node.freeze
  | .staticBlock node => .staticBlock node.freeze
  | .classDecl head members => .classDecl head.freeze (freezeEach members)
  | .comment node => .comment node.freeze

def freezeEach : List Member → List Member
  | [] => []
  | member :: rest => member.freeze :: freezeEach rest

end

theorem freezeEach_eq_map (members : List Member) : freezeEach members = members.map freeze := by
  induction members with
  | nil => rfl
  | cons member rest ih => simp [freezeEach, ih]

def kind : Member → NodeKind
  | .field _ => .field
  | .method _ => .method
  | .staticBlock _ => .staticBlock
  | .classDecl _ _ => .classDecl
  | .comment _ => .comment

/-- The name that a member declares. -/
def name? : Member → Option Text
  | .field node => some node.name
  | .method node => some node.name
  | .classDecl head _ => some head.name
  | .staticBlock _ | .comment _ => none

def editable : Member → Bool
  | .field node => node.editable
  | .method node => node.editable
  | .staticBlock node => node.editable
  | .classDecl head _ => head.editable
  | .comment node => node.editable

end Member

namespace ClassDecl

def render (node : ClassDecl) : Text :=
  node.toClassHead.render (node.members.map Member.render)

def freeze (node : ClassDecl) : ClassDecl :=
  ⟨node.toClassHead.freeze, node.members.map Member.freeze⟩

def fields (node : ClassDecl) : List Field :=
  node.members.filterMap fun
    | .field field => some field
    | _ => none

def methods (node : ClassDecl) : List Method :=
  node.members.filterMap fun
    | .method method => some method
    | _ => none

def innerClasses (node : ClassDecl) : List ClassDecl :=
  node.members.filterMap fun
    | .classDecl head members => some ⟨head, members⟩
    | _ => none

def staticBlocks (node : ClassDecl) : List StaticBlock :=
  node.members.filterMap fun
    | .staticBlock block => some block
    | _ => none

end ClassDecl

end JavaUnit
