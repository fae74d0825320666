/-
Module: JavaUnit.Reading.Class
Purpose: Reading classes, and declarations of any kind. A class body holds declarations that may be
  classes again: the declaration inside a body is the same reading, further on.
Main exports: Declaration, Reading.classRest, Reading.declaration, Reading.member
-/
import JavaUnit.Draft.Class
import JavaUnit.Reading.Attachment
import JavaUnit.Reading.Member

namespace JavaUnit

/-- What a declaration declares. -/
inductive Declaration where
  | classDecl (node : ClassDecl)
  | field (node : Field)
  | method (node : Method)

namespace Declaration

def kind : Declaration → DeclarationKind
  | .classDecl _ => .classDecl
  | .field _ => .field
  | .method _ => .method

def toMember : Declaration → Member
  | .classDecl node => .ofClass node
  | .field node => .field node
  | .method node => .method node

end Declaration

namespace Reading

/-! ### The head of a class -/

/-- What stands between the name of a class and its body, as far as it is read. -/
structure Ancestry where
  superclass : Option Text := none
  interfaces : List Text := []
  defects : List Defect := []
deriving DecidableEq, Repr

namespace Ancestry

/-- With the types behind an `extends`: an interface may extend several interfaces, a class only
one class. -/
def extending (ancestry : Ancestry) (kind : ClassKind) (types : List Text) : Ancestry :=
  match kind with
  | .interface => { ancestry with interfaces := ancestry.interfaces ++ types }
  | .class =>
    { ancestry with
      superclass := ancestry.superclass.or types.head?
      defects := ancestry.defects
        ++ if ancestry.superclass.isSome ∨ 1 < types.length then [.manySuperclasses] else [] }

/-- With the types behind an `implements`, which an interface cannot have. -/
def implementing (ancestry : Ancestry) (kind : ClassKind) (types : List Text) : Ancestry :=
  { ancestry with
    interfaces := ancestry.interfaces ++ types
    defects := ancestry.defects ++ if kind = .interface then [.interfaceImplements] else [] }

end Ancestry

/-- One more clause in the head of a class, or the brace that opens its body. -/
def ancestryClause (scope : Scope) (kind : ClassKind) (name : Text) (ancestry : Ancestry) :
    Reading (Turn Ancestry) := do
  skipTrivia
  let next ← current
  if next.kind = .keyword .extends then
    let _ ← advance
    return .again (ancestry.extending kind (← typeList scope))
  else if next.kind = .keyword .implements then
    let _ ← advance
    return .again (ancestry.implementing kind (← typeList scope))
  else if next.kind = .openBrace then
    let _ ← advance
    return .last ancestry
  else
    unexpected scope (.classBody name)

/-! ### The body of a class -/

/-- One more item of a class body, or the brace that closes it. Declarations are read by
`nested`. -/
def bodyItem (nested : Reading Declaration) (scope : Scope) (name : Text)
    (items : List BodyItem) : Reading (Turn (List BodyItem)) := do
  skipWhitespace
  let next ← current
  if next.kind = .closeBrace then
    let _ ← advance
    return .last items
  else if next.isEnd then
    fail scope [.unclosedClass name]
  else if next.kind = .semicolon then
    let _ ← advance
    return .again items
  else if next.kind = .docComment then
    return .again (items ++ [.javadoc (← javadoc)])
  else if next.isPlainComment then
    let attaches := precedesDeclaration true ((← left).drop 1)
    let comment ← comment
    return .again
      (items ++ [if attaches then .sectionComment comment else .member (.comment comment)])
  else if next.kind = .atSign then
    return .again (items ++ [.annotationUse (← annotationUse)])
  else if ← atStaticBlock then
    return .again (items ++ [.member (.staticBlock (← staticBlock))])
  else
    return .again (items ++ [.member (← nested).toMember])

/-! ### Classes and declarations -/

/-- The word `class` or `interface`, a name, type parameters, ancestry, and members in braces. -/
def classRest (nested : Reading Declaration) (preface : Preface) (inner : Bool) :
    Reading ClassDecl := do
  let scope := preface.scope .classDecl
  finish scope do
    let kind := if (← bump).keyword? = some .interface then ClassKind.interface else .class
    let name ← identifier scope .className
    note [.opened kind name]
    let parameters ← typeParameters scope
    let ancestry ← iterate (ancestryClause scope kind name) {}
    let items ← iterate (bodyItem nested scope name) []
    let (members, defects) := attach items
    let draft : ClassDraft := { toLeadDraft := preface.toLeadDraft, kind, inner, members }
    let draft := draft.withName name
    let draft := parameters.elim draft draft.withTypeParameters
    let draft := ancestry.superclass.elim draft draft.withSuperclass
    let draft := ancestry.interfaces.foldl ClassDraft.addInterface draft
    return {
      defects := ancestry.defects ++ defects
      examined := draft.examined
      built := draft.build }

/-- The declaration of a kind behind its modifiers. -/
def declarationOf (nested : Reading Declaration) (preface : Preface) (inner : Bool) :
    DeclarationKind → Reading Declaration
  | .classDecl => return .classDecl (← classRest nested preface inner)
  | .field => return .field (← field preface)
  | .method => return .method (← method preface)

/-- A declaration behind the beginning of its preface. What is wrong with the preface is reported
ahead of what is wrong with the declaration. -/
def declarationWith (nested : Reading Declaration) (preface : Preface) (inner : Bool) :
    Reading Declaration := do
  let preface ← modifierRun preface
  let here ← left
  let target := classifyTarget here
  note [.classified here.length target]
  match target with
  | none => fail ⟨.member, preface.start⟩ (preface.allDefects ++ [.undetermined])
  | some kind =>
    let declared ← after preface.allDefects (declarationOf nested preface inner kind)
    if preface.allDefects = [] then
      return declared
    else
      fail (preface.scope kind.nodeKind) preface.allDefects

/-- A declaration inside a class body. -/
def nestedDeclaration : Reading Declaration :=
  recurse (do fail ⟨.member, ← left⟩ [.undetermined]) fun nested => do
    declarationWith nested (← emptyPreface) true

/-- A declaration of a class, a field or a method, behind the beginning of its preface. -/
def declaration (preface : Preface) (inner : Bool) : Reading Declaration :=
  declarationWith nestedDeclaration preface inner

/-- A declaration of one kind on its own. -/
def declarationAs (wanted : DeclarationKind) (part : Declaration → Option α) : Reading α := do
  let preface ← preface
  let declared ← declaration preface true
  match part declared with
  | some node => return node
  | none => fail (preface.scope wanted.nodeKind) [.otherDeclaration wanted declared.kind]

/-- A field with what stands in front of it. -/
def wholeField : Reading Field :=
  declarationAs .field fun
    | .field node => some node
    | _ => none

/-- A method with what stands in front of it. -/
def wholeMethod : Reading Method :=
  declarationAs .method fun
    | .method node => some node
    | _ => none

/-- A class member of any kind, with what stands in front of it. -/
def member : Reading Member := do
  skipWhitespace
  if ← atStaticBlock then
    return .staticBlock (← staticBlock)
  else if (← current).isPlainComment && !precedesDeclaration true ((← left).drop 1) then
    return .comment (← comment)
  else
    return (← declaration (← preface) true).toMember

end Reading

end JavaUnit
