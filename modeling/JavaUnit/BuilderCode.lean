/-
Module: JavaUnit.BuilderCode
Purpose: The source text of a chain of builder calls that makes a given node again. Texts are
  quoted, nodes inside a node are built in place, and each call stands on a line of its own.
Main exports: Chain, Package.builderCode, Import.builderCode, Annotation.builderCode,
  Javadoc.builderCode, Comment.builderCode, Member.builderCode, Node.builderCode
-/
import JavaUnit.Node
import JavaUnit.Text.Quoted

namespace JavaUnit

/-- A call: the name of a method and the text of its arguments. -/
structure BuilderCall where
  method : Text
  arguments : Text
deriving DecidableEq, Repr

/-- How a builder is made, and the calls to it. -/
structure Chain where
  head : Text
  calls : List BuilderCall
deriving DecidableEq, Repr

/-- A call with some texts as its arguments. -/
def callWith (method : Text) (texts : List Text) : BuilderCall :=
  ⟨method, Text.join ", ".toList (texts.map Text.quote)⟩

/-- A call whose argument is not quoted. -/
def rawCall (method arguments : Text) : BuilderCall :=
  ⟨method, arguments⟩

/-- Code with every line but the first one level deeper. -/
def deeper (code : Text) : Text :=
  code.flatMap fun c => if c = '\n' then '\n' :: Text.tab else [c]

/-- Code as an argument of a call around it. -/
def nestedCode (code : Text) : Text :=
  deeper code ++ ['?']

/-- A call whose argument is a node with given code. -/
def nestedCall (method code : Text) : BuilderCall :=
  ⟨method, nestedCode code⟩

/-- A call on a line of its own. -/
def BuilderCall.line (call : BuilderCall) : Text :=
  '\n' :: Text.tab ++ '.' :: call.method ++ '(' :: call.arguments ++ [')']

/-- The text of a chain; it ends in the call that builds the node. -/
def Chain.code (chain : Chain) : Text :=
  chain.head ++ chain.calls.flatMap BuilderCall.line ++ BuilderCall.line ⟨"build".toList, []⟩

/-- `true` as an argument. -/
def yes : Text := "true".toList

/-! ### Nodes without members -/

def Package.builderCode (node : Package) : Text :=
  Chain.code
    { head := "PackageBuilder::new()".toList
      calls := [callWith "name".toList [node.name]] }

def Import.builderCode (node : Import) : Text :=
  Chain.code
    { head := "ImportBuilder::new()".toList
      calls := [callWith "name".toList [node.name]]
        ++ (if node.isStatic then [rawCall "is_static".toList yes] else [])
        ++ (if node.isWildcard then [rawCall "wildcard".toList yes] else []) }

/-- The call for a value of an annotation. -/
def AnnotationParam.builderCall (param : AnnotationParam) : BuilderCall :=
  match param.name with
  | some name => callWith "param".toList [name, param.value]
  | none => callWith "value".toList [param.value]

def Annotation.builderCode (node : Annotation) : Text :=
  Chain.code
    { head := "AnnotationBuilder::new()".toList
      calls := [callWith "name".toList [node.name]]
        ++ (if node.isResolved then [callWith "canonical_name".toList [node.canonicalName]]
          else [])
        ++ node.params.map AnnotationParam.builderCall }

def Javadoc.builderCode (node : Javadoc) : Text :=
  Chain.code
    { head := "JavadocBuilder::new()".toList
      calls := node.description.map (fun line => callWith "description".toList [line])
        ++ node.params.map (fun param => callWith "param".toList [param.1, param.2])
        ++ node.returns.toList.map (fun text => callWith "return_desc".toList [text])
        ++ node.author.toList.map (fun text => callWith "author".toList [text])
        ++ node.version.toList.map (fun text => callWith "version".toList [text])
        ++ node.since.toList.map (fun text => callWith "since".toList [text])
        ++ node.tags.map fun tag => callWith "tag".toList [tag.1, tag.2] }

/-- How a builder for comments of some style is made. -/
def CommentStyle.builder : CommentStyle → Text
  | .line => "CommentBuilder::line()".toList
  | .block => "CommentBuilder::block()".toList
  | .doc => "CommentBuilder::doc()".toList

def Comment.builderCode (node : Comment) : Text :=
  Chain.code { head := node.style.builder, calls := [callWith "text".toList [node.text]] }

/-- The calls for what stands in front of a declaration. -/
def Lead.builderCalls (lead : Lead) : List BuilderCall :=
  lead.sectionComment.toList.map (fun comment =>
      nestedCall "section_comment".toList comment.builderCode)
    ++ lead.javadoc.toList.map (fun javadoc => nestedCall "javadoc".toList javadoc.builderCode)
    ++ lead.annotations.map (fun used =>
      nestedCall "annotation".toList used.builderCode)
    ++ lead.modifiers.toList.map fun modifier =>
      rawCall "modifier".toList ("Modifier::".toList ++ modifier.capitalized)

def Field.builderCode (node : Field) : Text :=
  Chain.code
    { head := "FieldBuilder::new()".toList
      calls := node.toLead.builderCalls
        ++ [callWith "field_type".toList [node.type], callWith "name".toList [node.name]]
        ++ node.value.toList.map fun value => callWith "value".toList [value] }

/-- A parameter with all its parts, as an argument. -/
def Parameter.builderCode (parameter : Parameter) : Text :=
  let annotations := Text.join ", ".toList
    (parameter.annotations.map fun used => nestedCode used.builderCode)
  "Parameter \x7b".toList
    ++ "\n        annotations: vec![".toList ++ deeper annotations ++ "],".toList
    ++ "\n        is_final: ".toList
    ++ (if parameter.isFinal then yes else "false".toList) ++ ",".toList
    ++ "\n        param_type: ".toList ++ parameter.type.quote ++ ".to_string(),".toList
    ++ "\n        name: ".toList ++ parameter.name.quote ++ ".to_string(),".toList
    ++ "\n    \x7d".toList

/-- The call for a parameter, which is shorter for one with a type and a name only. -/
def Parameter.builderCall (parameter : Parameter) : BuilderCall :=
  if parameter.annotations = [] ∧ parameter.isFinal = false then
    callWith "param".toList [parameter.type, parameter.name]
  else rawCall "parameter".toList parameter.builderCode

def Method.builderCode (node : Method) : Text :=
  Chain.code
    { head := "MethodBuilder::new()".toList
      calls := node.toLead.builderCalls
        ++ node.typeParameters.toList.map (fun text =>
          callWith "type_parameters".toList [text])
        ++ [match node.returnType with
          | some type => callWith "return_type".toList [type]
          | none => rawCall "constructor".toList []]
        ++ [callWith "name".toList [node.name]]
        ++ node.parameters.map Parameter.builderCall
        ++ node.throws.map (fun type => callWith "throws".toList [type])
        ++ match node.body with
          | some lines => lines.map fun line => callWith "body_line".toList [line]
          | none => [rawCall "without_body".toList []] }

def StaticBlock.builderCode (node : StaticBlock) : Text :=
  Chain.code
    { head := "StaticBlockBuilder::new()".toList
      calls := node.lines.map fun line => callWith "line".toList [line] }

/-! ### Classes -/

/-- How a builder for a class of some kind is made. -/
def ClassKind.builder : ClassKind → Text
  | .class => "ClassBuilder::new()".toList
  | .interface => "ClassBuilder::interface()".toList

/-- The code of a class around the calls for its members. -/
def ClassHead.builderCode (head : ClassHead) (members : List BuilderCall) : Text :=
  Chain.code
    { head := head.kind.builder
      calls := head.headerComments.map (fun comment =>
          nestedCall "header_comment".toList comment.builderCode)
        ++ head.package.toList.map (fun package =>
          nestedCall "package".toList package.builderCode)
        ++ head.imports.map (fun node => nestedCall "import".toList node.builderCode)
        ++ head.toLead.builderCalls
        ++ [callWith "name".toList [head.name]]
        ++ (if head.inner then [rawCall "inner".toList yes] else [])
        ++ head.typeParameters.toList.map (fun text =>
          callWith "type_parameters".toList [text])
        ++ head.superclass.toList.map (fun type => callWith "super_class".toList [type])
        ++ head.interfaces.map (fun type => callWith "interface_name".toList [type])
        ++ members
        ++ head.trailingComments.map fun comment =>
          nestedCall "trailing_comment".toList comment.builderCode }

namespace Member

/-- The method that adds a member to a class. -/
def builderMethod : Member → Text
  | .field _ => "field".toList
  | .method _ => "method".toList
  | .staticBlock _ => "static_block".toList
  | .classDecl _ _ => "inner_class".toList
  | .comment _ => "comment".toList

mutual

/-- The code of a member. -/
def builderCode : Member → Text
  | .field node => node.builderCode
  | .method node => node.builderCode
  | .staticBlock node => node.builderCode
  | .classDecl head members => head.builderCode (builderCalls members)
  | .comment node => node.builderCode

/-- The calls that add members to a class. -/
def builderCalls : List Member → List BuilderCall
  | [] => []
  | member :: rest => nestedCall member.builderMethod member.builderCode :: builderCalls rest

end

end Member

def ClassDecl.builderCode (node : ClassDecl) : Text :=
  node.toClassHead.builderCode (Member.builderCalls node.members)

def Node.builderCode : Node → Text
  | .packageStatement node => node.builderCode
  | .importStatement node => node.builderCode
  | .annotationUse node => node.builderCode
  | .javadoc node => node.builderCode
  | .comment node => node.builderCode
  | .field node => node.builderCode
  | .method node => node.builderCode
  | .staticBlock node => node.builderCode
  | .classDecl node => node.builderCode
  | .member node => node.builderCode

end JavaUnit
