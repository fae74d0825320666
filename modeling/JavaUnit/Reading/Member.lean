/-
Module: JavaUnit.Reading.Member
Purpose: Reading fields, methods and static blocks behind their modifiers. Initializers and bodies
  are kept as raw text up to the token that ends them, whatever stands in between.
Main exports: Reading.field, Reading.method, Reading.staticBlock
-/
import JavaUnit.Draft.Member
import JavaUnit.Reading.Declaration

namespace JavaUnit

namespace Reading

/-! ### Raw text -/

/-- Lets the tokens of a field initializer pass, where `depth` brackets are open: up to a comma, a
semicolon or a closing brace outside of them. -/
def insideInitializer (depth : Nat) (token : Token) : Option Nat :=
  if token.kind ∈ [.openParen, .openBrace, .openBracket] then some (depth + 1)
  else if 0 < depth then
    if token.kind ∈ [.closeParen, .closeBrace, .closeBracket] then some (depth - 1)
    else some depth
  else if token.kind ∈ [.semicolon, .comma, .closeBrace] then none
  else some depth

/-- The text of a field initializer and the semicolon behind it. -/
def initializer (scope : Scope) : Reading Text := do
  let value ← scan insideInitializer 0
  let closing ← current
  if closing.kind = .semicolon then
    let _ ← advance
    return textOf value
  else if closing.kind = .comma then
    fail scope [.manyDeclarators]
  else
    unexpected scope .initializerEnd

/-- Lets the tokens of a block pass, where `depth` more braces are open: up to the brace that closes
the block. -/
def insideBlock (depth : Nat) (token : Token) : Option Nat :=
  if token.kind = .openBrace then some (depth + 1)
  else if token.kind = .closeBrace then
    if depth = 0 then none else some (depth - 1)
  else some depth

/-- The text between a brace that stands here and the one that closes it. -/
def block (scope : Scope) : Reading Text := do
  let _ ← advance
  let inside ← scan insideBlock 0
  if (← current).isEnd then
    fail scope [.unclosedBlock]
  else
    let _ ← advance
    return textOf inside

/-! ### Fields -/

/-- A type, a name, and an initializer or none, up to the semicolon. -/
def field (preface : Preface) : Reading Field := do
  let scope := preface.scope .field
  finish scope do
    let type ← type scope
    let name ← identifier scope .fieldName
    let dims ← arrayDims
    let draft : FieldDraft := { toLeadDraft := preface.toLeadDraft }
    let draft := (draft.withType (type ++ dims)).withName name
    skipTrivia
    let next ← current
    let draft ←
      if next.kind = .semicolon then do
        let _ ← advance
        pure draft
      else if next.kind = .equals then do
        let _ ← advance
        pure (draft.withValue (← initializer scope))
      else if next.kind = .comma then fail scope [.manyDeclarators]
      else unexpected scope (.fieldEnd name)
    return { examined := draft.examined, built := draft.build }

/-! ### Methods -/

/-- One more annotation or `final` in front of a parameter, if there is one. -/
def parameterModifier (parameter : Parameter) : Reading (Turn Parameter) := do
  skipTrivia
  let token ← current
  if token.kind = .atSign then
    let used ← annotationUse
    return .again { parameter with annotations := parameter.annotations ++ [used] }
  else if token.keyword? = some .final then
    let _ ← advance
    return .again { parameter with isFinal := true }
  else
    return .last parameter

/-- A parameter: annotations and `final` in any order, a type and a name. -/
def parameter (scope : Scope) : Reading Parameter := do
  let parameter ← iterate parameterModifier
    { annotations := [], isFinal := false, type := [], name := [] }
  let type ← type scope
  let name ← identifier scope .parameterName
  let dims ← arrayDims
  return { parameter with type := type ++ dims, name }

/-- Parameters in parentheses, with commas between them. -/
def parameters (scope : Scope) : Reading (List Parameter) := do
  expect scope .openParen .openParen
  if ← accept .closeParen then
    return []
  else
    iterate (fun parameters => do
      let parameters := parameters ++ [← parameter scope]
      if ← accept .comma then
        return .again parameters
      else
        expect scope .closeParen .commaOrCloseParen
        return .last parameters) []

/-- The return type of a method; a constructor has none, its name stands before its parameters. -/
def returnType (scope : Scope) (draft : MethodDraft) : Reading MethodDraft := do
  if (← peek 0).kind = .identifier ∧ (← peek 1).kind = .openParen then
    return draft.asConstructor
  else
    return draft.withReturnType (← type scope)

/-- Type parameters, if a method or class has some. -/
def typeParameters (scope : Scope) : Reading (Option Text) := do
  if (← peek 0).kind = .less then
    return some (joinTokens (← angleGroup scope))
  else
    return none

/-- The types behind `throws`. -/
def throwsClause (scope : Scope) : Reading (List Text) := do
  if (← peek 0).keyword? = some .throws then
    let _ ← bump
    typeList scope
  else
    return []

/-- The body of a method, or the semicolon in its place. -/
def methodBody (scope : Scope) (name : Text) (draft : MethodDraft) : Reading MethodDraft := do
  skipTrivia
  let next ← current
  if next.kind = .openBrace then
    return draft.withBody (Text.block (← block scope))
  else if next.kind = .semicolon then
    let _ ← advance
    return draft.withoutBody
  else
    unexpected scope (.methodEnd name)

/-- Type parameters, a return type, a name, parameters, exceptions and a body, as far as a method
has them. -/
def method (preface : Preface) : Reading Method := do
  let scope := preface.scope .method
  finish scope do
    let draft : MethodDraft := { toLeadDraft := preface.toLeadDraft }
    let draft := (← typeParameters scope).elim draft draft.withTypeParameters
    let draft ← returnType scope draft
    let name ← identifier scope .methodName
    let draft := draft.withName name
    let draft := (← parameters scope).foldl MethodDraft.addParameter draft
    let draft := (← throwsClause scope).foldl MethodDraft.addThrows draft
    let draft ← methodBody scope name draft
    return { examined := draft.examined, built := draft.build }

/-! ### Static blocks -/

/-- The word `static` and a block. -/
def staticBlock : Reading StaticBlock := do
  let scope ← scopeHere .staticBlock
  finish scope do
    expect scope (.keyword .static) .staticKeyword
    skipTrivia
    if (← current).kind = .openBrace then
      let lines := Text.block (← block scope)
      return { built := (lines.foldl StaticBlockDraft.addLine {}).build }
    else
      unexpected scope .openBrace

end Reading

end JavaUnit
