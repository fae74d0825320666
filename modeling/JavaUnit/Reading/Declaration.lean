/-
Module: JavaUnit.Reading.Declaration
Purpose: What stands in front of a declaration, and telling fields, methods and classes apart by
  the tokens that follow it.
Main exports: Preface, Reading.modifierRun, classifyDeclaration, classifyTarget,
  precedesDeclaration
-/
import JavaUnit.Reading.Comment
import JavaUnit.Reading.Statement

namespace JavaUnit

/-! ### Telling declarations apart -/

/-- Decides whether tokens declare a field or a method by the first one that settles it, outside of
the `depth` angle brackets that are open: a parenthesis means a method; an equals sign, a semicolon
or a comma means a field. A brace ends the search, so it never leaves the block. -/
def classifyDeclaration (depth : Nat) : List Token → Option DeclarationKind
  | [] => none
  | token :: rest =>
    match token.kind with
    | .whitespace | .lineComment | .blockComment => classifyDeclaration depth rest
    | .less => classifyDeclaration (depth + 1) rest
    | .greater => classifyDeclaration (depth - 1) rest
    | .openParen => if depth = 0 then some .method else classifyDeclaration depth rest
    | .equals | .semicolon | .comma =>
      if depth = 0 then some .field else classifyDeclaration depth rest
    | .openBrace | .closeBrace | .eof => none
    | _ => classifyDeclaration depth rest

/-- What is declared behind the modifiers that have been read, if anything is. -/
def classifyTarget (tokens : List Token) : Option DeclarationKind :=
  let ahead := significantFrom 0 tokens
  match (currentToken ahead).kind with
  | .keyword .class | .keyword .interface => some .classDecl
  | .identifier | .less => classifyDeclaration 0 ahead
  | .keyword word => if word.isType then classifyDeclaration 0 ahead else none
  | _ => none

/-- Whether a token may start a declaration that a comment in front of it belongs to. Inside a class
that is any declaration, at the head of a file only one that starts with a keyword. -/
def startsDeclaration (inBody : Bool) (token : Token) : Bool :=
  match token.kind with
  | .docComment | .atSign => true
  | .keyword word =>
    word.modifier?.isSome || word = .class || word = .interface || (inBody && word.isType)
  | .identifier | .less => inBody
  | _ => false

/-- Whether the tokens behind a comment start a declaration that the comment belongs to: there must
be no blank line between the two. -/
def precedesDeclaration (inBody : Bool) : List Token → Bool
  | [] => false
  | token :: rest =>
    if token.isWhitespace then
      token.text.count '\n' ≤ 1 && rest.head?.any (startsDeclaration inBody)
    else startsDeclaration inBody token

/-! ### In front of a declaration -/

/-- What has been read in front of a declaration, the tokens that were left where it began, and
what is wrong with it. -/
structure Preface extends LeadDraft where
  start : List Token
  defects : List Defect := []

namespace Preface

/-- The scope of the declaration. -/
def scope (preface : Preface) (kind : NodeKind) : Scope :=
  ⟨.node kind, preface.start⟩

/-- What is wrong with the preface and its modifiers. -/
def allDefects (preface : Preface) : List Defect :=
  modifierRunDefects preface.modifiers ++ preface.defects

/-- The preface with one more comment; a declaration has room for one. -/
def addComment (preface : Preface) (comment : Comment) : Preface :=
  if preface.sectionComment.isSome then
    { preface with defects := preface.defects ++ [.secondComment comment.render] }
  else { preface with sectionComment := some comment }

def addAnnotation (preface : Preface) (used : Annotation) : Preface :=
  { preface with annotations := preface.annotations ++ [used] }

def addModifier (preface : Preface) (modifier : Modifier) : Preface :=
  { preface with modifiers := preface.modifiers ++ [modifier] }

end Preface

namespace Reading

/-- An empty preface that begins here. -/
def emptyPreface : Reading Preface := do
  return { start := ← left }

/-- Whether a static block begins here: the word `static` is not a modifier then. -/
def atStaticBlock : Reading Bool := do
  return (← peek 0).keyword? = some .static && (← peek 1).kind = .openBrace

/-- One more comment, annotation or modifier of a preface, if there is one. -/
def prefaceItem (preface : Preface) : Reading (Turn Preface) := do
  skipWhitespace
  let token ← current
  if token.isPlainComment then
    return .again (preface.addComment (← comment))
  else if token.kind = .atSign then
    return .again (preface.addAnnotation (← annotationUse))
  else if ← atStaticBlock then
    return .last preface
  else
    match token.keyword?.bind Keyword.modifier? with
    | some modifier =>
      let _ ← advance
      return .again (preface.addModifier modifier)
    | none => return .last preface

/-- The rest of a preface: comments, annotations and modifiers in any order. -/
def modifierRun (preface : Preface) : Reading Preface :=
  iterate prefaceItem preface

/-- The comment and the Javadoc at the very beginning of a preface. -/
def preface : Reading Preface := do
  skipWhitespace
  let preface ← emptyPreface
  let preface ←
    if (← current).isPlainComment then do
      let comment ← comment
      skipWhitespace
      pure { preface with sectionComment := some comment }
    else pure preface
  if (← current).kind = .docComment then
    return { preface with javadoc := some (← javadoc) }
  else
    return preface

end Reading

end JavaUnit
