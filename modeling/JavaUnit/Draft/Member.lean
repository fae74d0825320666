/-
Module: JavaUnit.Draft.Member
Purpose: Drafts of fields, methods and static blocks. Types, initializers and bodies get their
  canonical spelling when a draft is built.
Main exports: FieldDraft, MethodDraft, StaticBlockDraft
-/
import JavaUnit.Draft.Requirement
import JavaUnit.Node.Member
import JavaUnit.Text.Block

namespace JavaUnit

/-! ### Fields -/

structure FieldDraft extends LeadDraft where
  type : Option Text := none
  name : Option Text := none
  value : Option Text := none
deriving DecidableEq

namespace FieldDraft

/-- The modifiers that a field accepts. -/
def modifiersAllowed : List Modifier :=
  [.«public», .«protected», .«private», .static, .final, .transient, .volatile]

def ofNode (node : Field) : FieldDraft where
  toLeadDraft := LeadDraft.ofLead node.toLead
  type := some node.type
  name := some node.name
  value := node.value

def withType (draft : FieldDraft) (type : Text) : FieldDraft :=
  { draft with type := some type.trim }

def withName (draft : FieldDraft) (name : Text) : FieldDraft :=
  { draft with name := some name.trim }

/-- The initializer, without the equals sign and the semicolon. -/
def withValue (draft : FieldDraft) (value : Text) : FieldDraft :=
  { draft with value := some value }

def defects (draft : FieldDraft) : List Defect :=
  draft.commentDefects
    ++ requirePart .type draft.type
    ++ requirePart .name draft.name
    ++ modifierDefects .field modifiersAllowed draft.modifiers
    ++ conflictDefects draft.modifiers .final [.volatile]
    ++ (if given draft.type then draft.type.toList.flatMap (typeDefects .type) else [])
    ++ requireName .field isIdentifier draft.name
    ++ draft.value.toList.flatMap fun value =>
        requirement (Text.blockText value ≠ []) (.blankInitializer (draft.name.getD []))

def node (draft : FieldDraft) : Field where
  toLead := draft.toLeadDraft.lead
  type := canonicalType (draft.type.getD [])
  name := draft.name.getD []
  value := draft.value.map Text.blockText

def build (draft : FieldDraft) : Except BuildError Field :=
  settle .field draft.defects draft.node

/-- The texts that building cuts into tokens, in order. -/
def examined (draft : FieldDraft) : List Text :=
  if given draft.type then draft.type.toList else []

end FieldDraft

/-! ### Methods -/

structure MethodDraft extends LeadDraft where
  typeParameters : Option Text := none
  returnType : Option Text := none
  isConstructor : Bool := false
  name : Option Text := none
  parameters : List Parameter := []
  throws : List Text := []
  body : Option (List Text) := some []
deriving DecidableEq

namespace MethodDraft

/-- The modifiers that a method accepts. -/
def modifiersAllowed : List Modifier :=
  [.«public», .«protected», .«private», .abstract, .default, .static, .final,
    .synchronized, .native, .strictfp]

/-- The modifiers that an abstract method cannot have, in the order of their reports. -/
def neverAbstract : List Modifier :=
  [.final, .static, .«private», .synchronized, .native]

def ofNode (node : Method) : MethodDraft where
  toLeadDraft := LeadDraft.ofLead node.toLead
  typeParameters := node.typeParameters
  returnType := node.returnType
  isConstructor := node.returnType.isNone
  name := some node.name
  parameters := node.parameters
  throws := node.throws
  body := node.body

/-- Type parameters with their angle brackets. -/
def withTypeParameters (draft : MethodDraft) (text : Text) : MethodDraft :=
  { draft with typeParameters := some text.trim }

def withReturnType (draft : MethodDraft) (type : Text) : MethodDraft :=
  { draft with returnType := some type.trim }

def asConstructor (draft : MethodDraft) : MethodDraft :=
  { draft with isConstructor := true }

def withName (draft : MethodDraft) (name : Text) : MethodDraft :=
  { draft with name := some name.trim }

def addParameter (draft : MethodDraft) (parameter : Parameter) : MethodDraft :=
  { draft with parameters := draft.parameters ++ [parameter] }

/-- One more parameter that is not final and has no annotations. -/
def addParam (draft : MethodDraft) (type name : Text) : MethodDraft :=
  draft.addParameter { annotations := [], isFinal := false, type := type.trim, name := name.trim }

def addThrows (draft : MethodDraft) (type : Text) : MethodDraft :=
  { draft with throws := draft.throws ++ [type.trim] }

/-- One or more body lines to follow those that are there. -/
def addBodyLine (draft : MethodDraft) (line : Text) : MethodDraft :=
  { draft with body := some (draft.body.getD [] ++ line.split '\n') }

def withBody (draft : MethodDraft) (lines : List Text) : MethodDraft :=
  { draft with body := some lines }

/-- A semicolon is to stand in place of the body. -/
def withoutBody (draft : MethodDraft) : MethodDraft :=
  { draft with body := none }

/-- The requirements on parameters that come after some with given names. -/
def parameterDefects (earlier : List Text) : List Parameter → List Defect
  | [] => []
  | parameter :: rest =>
    typeDefects .parameterType parameter.type
      ++ requirement (isIdentifier parameter.name) (.invalidName .parameter parameter.name)
      ++ requirement (parameter.name ∉ earlier) (.duplicateParameter parameter.name)
      ++ parameterDefects (parameter.name :: earlier) rest

/-- A constructor has no return type, any other method needs one. -/
def returnTypeDefects (draft : MethodDraft) : List Defect :=
  if draft.isConstructor then requirement draft.returnType.isNone .constructorReturnType
  else requirePart .returnType draft.returnType

/-- The return type that is looked at: none for a constructor. -/
def declaredReturnType (draft : MethodDraft) : Option Text :=
  if draft.isConstructor then none else draft.returnType

/-- Abstract and native methods have no body. -/
def bodyDefects (draft : MethodDraft) : List Defect :=
  if draft.body.isSome then
    ([Modifier.abstract, .native].filter (· ∈ draft.modifiers)).map
      (.bodyOf · (draft.name.getD []))
  else []

def defects (draft : MethodDraft) : List Defect :=
  draft.commentDefects
    ++ requirePart .name draft.name
    ++ draft.returnTypeDefects
    ++ modifierDefects .method modifiersAllowed draft.modifiers
    ++ conflictDefects draft.modifiers .abstract neverAbstract
    ++ requireName .method isIdentifier draft.name
    ++ draft.bodyDefects
    ++ draft.typeParameters.toList.flatMap typeParameterDefects
    ++ draft.declaredReturnType.toList.flatMap (typeDefects .returnType)
    ++ parameterDefects [] draft.parameters
    ++ draft.throws.flatMap (typeDefects .exceptionType)

def node (draft : MethodDraft) : Method where
  toLead := draft.toLeadDraft.lead
  typeParameters := draft.typeParameters.map canonicalType
  returnType := draft.declaredReturnType.map canonicalType
  name := draft.name.getD []
  parameters := draft.parameters.map fun parameter =>
    { parameter with type := canonicalType parameter.type }
  throws := draft.throws.map canonicalType
  body := draft.body.map Text.blockLines

def build (draft : MethodDraft) : Except BuildError Method :=
  settle .method draft.defects draft.node

/-- The texts that building cuts into tokens, in order. -/
def examined (draft : MethodDraft) : List Text :=
  draft.typeParameters.toList ++ draft.declaredReturnType.toList
    ++ draft.parameters.map (·.type) ++ draft.throws

end MethodDraft

/-! ### Static blocks -/

structure StaticBlockDraft where
  lines : List Text := []
deriving DecidableEq, Repr

namespace StaticBlockDraft

def ofNode (node : StaticBlock) : StaticBlockDraft where
  lines := node.lines

/-- One or more lines to follow those that are there. -/
def addLine (draft : StaticBlockDraft) (line : Text) : StaticBlockDraft :=
  { draft with lines := draft.lines ++ line.split '\n' }

def node (draft : StaticBlockDraft) : StaticBlock where
  lines := Text.blockLines draft.lines

/-- Any lines make a block. -/
def build (draft : StaticBlockDraft) : Except BuildError StaticBlock :=
  settle .staticBlock [] draft.node

end StaticBlockDraft

end JavaUnit
