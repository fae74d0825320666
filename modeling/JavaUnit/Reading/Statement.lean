/-
Module: JavaUnit.Reading.Statement
Purpose: Reading package declarations, import statements and annotations.
Main exports: Reading.packageStatement, Reading.importStatement, Reading.annotationUse
-/
import JavaUnit.Draft.Annotation
import JavaUnit.Draft.Statement
import JavaUnit.Reading.Type

namespace JavaUnit

namespace Reading

/-- The word `package`, a qualified name and a semicolon. -/
def packageStatement : Reading Package := do
  let scope ← scopeHere .packageStatement
  finish scope do
    expect scope (.keyword .package) .packageKeyword
    let name ← qualifiedName scope .packageName
    expect scope .semicolon .semicolon
    return { built := (PackageDraft.withName {} name).build }

/-- The word `import`, possibly `static`, a qualified name, possibly a dot and a star, and a
semicolon. -/
def importStatement : Reading Import := do
  let scope ← scopeHere .importStatement
  finish scope do
    expect scope (.keyword .import) .importKeyword
    let isStatic := decide ((← peek 0).keyword? = some .static)
    if isStatic then
      let _ ← bump
    let name ← qualifiedName scope .importName
    let isWildcard := (← peek 0).kind = .dot && (← peek 1).isOperator ['*']
    if isWildcard then
      let _ ← bump
      let _ ← bump
    expect scope .semicolon .semicolon
    let draft := ((ImportDraft.withName {} name).withStatic isStatic).withWildcard isWildcard
    return { built := draft.build }

/-! ### Annotations -/

/-- Lets the tokens of an annotation value pass, where `depth` brackets are open: up to a comma or
a closing parenthesis outside of them. -/
def insideAnnotationValue (depth : Nat) (token : Token) : Option Nat :=
  if token.kind ∈ [.openParen, .openBrace, .openBracket] then some (depth + 1)
  else if depth = 0 ∧ token.kind ∈ [.comma, .closeParen] then none
  else if token.kind ∈ [.closeParen, .closeBrace, .closeBracket] then some (depth - 1)
  else some depth

/-- The text of an annotation value, up to what ends it. -/
def annotationValue (scope : Scope) : Reading Text := do
  skipTrivia
  let value ← scan insideAnnotationValue 0
  if (← current).isEnd then
    fail scope [.unclosedParameterList]
  else
    return collapseTokens value

/-- One more value of an annotation, and the comma or the closing parenthesis behind it. -/
def annotationParam (scope : Scope) (draft : AnnotationDraft) :
    Reading (Turn AnnotationDraft) := do
  let draft ←
    if (← peek 0).kind = .identifier ∧ (← peek 1).kind = .equals then do
      let name ← bump
      let _ ← bump
      pure (draft.addParam name.text (← annotationValue scope))
    else do
      pure (draft.addValue (← annotationValue scope))
  let closing ← bump
  if closing.kind = .comma then return .again draft
  else if closing.kind = .closeParen then return .last draft
  else unexpected scope .commaOrCloseParen

/-- An at sign, a qualified name and possibly values in parentheses. -/
def annotationUse : Reading Annotation := do
  let scope ← scopeHere .annotationUse
  finish scope do
    expect scope .atSign .atSign
    if (← peek 0).keyword? = some .interface then
      fail scope [.annotationType]
    let draft := AnnotationDraft.withName {} (← qualifiedName scope .annotationName)
    let draft ←
      if (← peek 0).kind = .openParen then do
        let _ ← bump
        if ← accept .closeParen then pure draft
        else iterate (annotationParam scope) draft
      else pure draft
    return { examined := draft.examined, built := draft.build }

end Reading

end JavaUnit
