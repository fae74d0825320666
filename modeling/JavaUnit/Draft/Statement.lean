/-
Module: JavaUnit.Draft.Statement
Purpose: Drafts of package declarations and import statements.
Main exports: PackageDraft, ImportDraft
-/
import JavaUnit.Draft.Requirement
import JavaUnit.Node.Statement

namespace JavaUnit

structure PackageDraft where
  name : Option Text := none
deriving DecidableEq, Repr

namespace PackageDraft

def ofNode (node : Package) : PackageDraft where
  name := some node.name

def withName (draft : PackageDraft) (name : Text) : PackageDraft :=
  { draft with name := some name.trim }

def defects (draft : PackageDraft) : List Defect :=
  requirePart .name draft.name ++ requireName .packageStatement isQualifiedName draft.name

def node (draft : PackageDraft) : Package where
  name := draft.name.getD []

def build (draft : PackageDraft) : Except BuildError Package :=
  settle .packageStatement draft.defects draft.node

end PackageDraft

structure ImportDraft where
  name : Option Text := none
  isStatic : Bool := false
  isWildcard : Bool := false
deriving DecidableEq, Repr

namespace ImportDraft

def ofNode (node : Import) : ImportDraft where
  name := some node.name
  isStatic := node.isStatic
  isWildcard := node.isWildcard

/-- A star behind the last dot makes the import a wildcard, whatever it was before. -/
def withName (draft : ImportDraft) (name : Text) : ImportDraft :=
  match Text.beforeTail? ".*".toList name.trim with
  | some container => { draft with name := some container, isWildcard := true }
  | none => { draft with name := some name.trim }

def withStatic (draft : ImportDraft) (isStatic : Bool) : ImportDraft :=
  { draft with isStatic }

def withWildcard (draft : ImportDraft) (isWildcard : Bool) : ImportDraft :=
  { draft with isWildcard }

def defects (draft : ImportDraft) : List Defect :=
  requirePart .name draft.name ++ requireName .importStatement isQualifiedName draft.name

def node (draft : ImportDraft) : Import where
  name := draft.name.getD []
  isStatic := draft.isStatic
  isWildcard := draft.isWildcard

def build (draft : ImportDraft) : Except BuildError Import :=
  settle .importStatement draft.defects draft.node

end ImportDraft

end JavaUnit
