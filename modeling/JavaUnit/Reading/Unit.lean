/-
Module: JavaUnit.Reading.Unit
Purpose: Reading whole files: comments, a package declaration, import statements and one class, in
  that order. Items out of order are reported together once the file is read; stray semicolons
  between items are passed over.
Main exports: FileState, Reading.compilationUnit
-/
import JavaUnit.Reading.Class

namespace JavaUnit

/-- What has been read of a file. -/
structure FileState where
  headerComments : List Comment := []
  trailingComments : List Comment := []
  /-- A comment that stands in front of the next declaration. -/
  sectionComment : Option Comment := none
  package : Option Package := none
  imports : List Import := []
  outer : Option ClassDecl := none
  /-- The items out of order. -/
  defects : List Defect := []

namespace FileState

def report (state : FileState) (defect : Defect) : FileState :=
  { state with defects := state.defects ++ [defect] }

/-- A waiting comment moves to the head of the file. -/
def releaseComment (state : FileState) : FileState :=
  { state with
    headerComments := state.headerComments ++ state.sectionComment.toList
    sectionComment := none }

/-- A comment that stands on its own at the head of the file. -/
def addHeaderComment (state : FileState) (comment : Comment) : FileState :=
  let state := state.releaseComment
  { state with headerComments := state.headerComments ++ [comment] }

/-- A comment that may belong to the declaration behind it. Behind the class it never does. -/
def addComment (state : FileState) (attaches : Bool) (comment : Comment) : FileState :=
  if state.outer.isSome then
    { state with trailingComments := state.trailingComments ++ [comment] }
  else if attaches then { state.releaseComment with sectionComment := some comment }
  else state.addHeaderComment comment

/-- A package declaration has its place before the imports, and there is only one. -/
def addPackage (state : FileState) (package : Package) : FileState :=
  if state.outer.isSome then state.report .packageAfterClass
  else if state.package.isSome then state.report .secondPackage
  else if !state.imports.isEmpty then state.report .packageAfterImport
  else { state with package := some package }

/-- Imports have their place before the class. -/
def addImport (state : FileState) (node : Import) : FileState :=
  if state.outer.isSome then state.report .importAfterClass
  else { state with imports := state.imports ++ [node] }

/-- There is one class, and no field or method outside of it. -/
def addDeclaration (state : FileState) : Declaration → FileState
  | .classDecl node =>
    if state.outer.isSome then state.report .secondClass else { state with outer := some node }
  | declared => state.report (.outsideClass declared.kind)

/-- The class with the file around it. -/
def attachFile (state : FileState) (outer : ClassDecl) : Except BuildError ClassDecl := do
  let outer ← outer.setPackage state.package
  let outer ← outer.setImports state.imports
  let outer ← outer.setHeaderComments (state.headerComments ++ state.sectionComment.toList)
  outer.setTrailingComments state.trailingComments

end FileState

namespace Reading

/-- Further comments behind the Javadoc of an outermost declaration: the last one stays in front of
the declaration, those before it move to the head of the file. -/
def prefaceComment (state : FileState × Preface) : Reading (Turn (FileState × Preface)) := do
  skipWhitespace
  if (← current).isPlainComment then
    let comment ← comment
    let (file, preface) := state
    let file := { file with
      headerComments := file.headerComments ++ preface.sectionComment.toList }
    return .again (file, { preface with sectionComment := some comment })
  else
    return .last state

/-- A declaration at the outermost level, with the comment that waits for it. -/
def outerDeclaration (state : FileState) : Reading FileState := do
  let preface := { ← emptyPreface with sectionComment := state.sectionComment }
  let state := { state with sectionComment := none }
  let preface ←
    if (← current).kind = .docComment then do
      pure { preface with javadoc := some (← javadoc) }
    else pure preface
  let (state, preface) ← iterate prefaceComment (state, preface)
  return state.addDeclaration (← declaration preface false)

/-- One more item of a file, unless the input ends. -/
def fileItem (state : FileState) : Reading (Turn FileState) := do
  skipWhitespace
  let next ← current
  if next.isEnd then
    return .last state
  else if next.kind = .semicolon then
    let _ ← advance
    return .again state
  else if next.isPlainComment then
    let attaches := precedesDeclaration false ((← left).drop 1)
    return .again (state.addComment attaches (← comment))
  else if next.kind = .docComment
      ∧ (← peek 1).keyword? ∈ [some Keyword.package, some Keyword.import] then
    return .again (state.addHeaderComment (← comment))
  else if next.kind = .keyword .package then
    return .again (state.addPackage (← packageStatement))
  else if next.kind = .keyword .import then
    return .again (state.addImport (← importStatement))
  else
    return .again (← outerDeclaration state)

/-- Fails because the items of a file are not in order. -/
def outOfOrder (scope : Scope) (defects : List Defect) : Reading α := do
  note (defects.map .misplaced)
  fail scope defects

/-- A file with exactly one class at the outermost level. -/
def compilationUnit : Reading ClassDecl := do
  let scope : Scope := ⟨.compilationUnit, ← left⟩
  let state ← iterate fileItem {}
  match state.outer with
  | none => outOfOrder scope (state.defects ++ [.missingClass])
  | some outer =>
    if state.defects = [] then
      finish scope (return { built := state.attachFile outer })
    else
      outOfOrder scope state.defects

end Reading

end JavaUnit
