/-
Module: JavaUnit.Draft.Requirement
Purpose: What drafts of nodes have in common. A draft holds what a node is to be made of; building
  it either yields the node or lists every defect of the draft, in a fixed order.
Main exports: settle, requirement, given, typeDefects, canonicalType, LeadDraft
-/
import JavaUnit.Defect
import JavaUnit.Name
import JavaUnit.Node.Lead
import JavaUnit.Token.Spelling

namespace JavaUnit

/-- The node of a draft without defects. -/
def settle (kind : NodeKind) (defects : List Defect) (node : α) : Except BuildError α :=
  if defects = [] then .ok node else .error ⟨kind, defects⟩

/-- A draft yields its node exactly if nothing is wrong with it. -/
theorem settle_eq_ok_iff {kind : NodeKind} {defects : List Defect} {node result : α} :
    settle kind defects node = .ok result ↔ defects = [] ∧ node = result := by
  unfold settle
  split <;> simp_all

theorem settle_eq_error_iff {kind : NodeKind} {defects : List Defect} {node : α}
    {error : BuildError} :
    settle kind defects node = .error error ↔ defects ≠ [] ∧ error = ⟨kind, defects⟩ := by
  unfold settle
  split <;> simp_all [eq_comm]

/-- The defect that is reported unless `ok` holds. -/
def requirement (ok : Bool) (defect : Defect) : List Defect :=
  if ok then [] else [defect]

/-- A requirement that is met is no defect. -/
@[simp] theorem requirement_eq_nil {ok : Bool} {defect : Defect} :
    requirement ok defect = [] ↔ ok = true := by
  cases ok <;> simp [requirement]

/-- Whether a text is there and not blank. -/
def given (text : Option Text) : Bool :=
  text.any (!·.isBlank)

/-- The requirement that a part is there, and that it meets `rule` if it is. -/
def requirePart (part : RequiredPart) (value : Option Text) : List Defect :=
  requirement (given value) (.missing part)

/-- The requirement on a name that is there. -/
def requireName (role : NameRole) (rule : Text → Bool) (name : Option Text) : List Defect :=
  if given name then requirement (rule (name.getD [])) (.invalidName role (name.getD [])) else []

/-- Only the head of a file may hold doc-style comments: elsewhere they read back as Javadoc. -/
def plainComment (comment : Comment) : List Defect :=
  requirement (!comment.isDoc) .docCommentPlacement

/-! ### Types -/

/-- The requirement that a text is a type. -/
def typeDefects (role : TypeRole) (text : Text) : List Defect :=
  requirement (normalizeType text).isSome (.invalidType role text)

/-- The canonical spelling of a type; a text that is none stays as it is. -/
def canonicalType (text : Text) : Text :=
  (normalizeType text).getD text

/-- Type parameters are a type in angle brackets. -/
def typeParameterDefects (text : Text) : List Defect :=
  let canonical := canonicalType text
  typeDefects .typeParameters text
    ++ requirement (canonical.head? = some '<' && canonical.getLast? = some '>')
      (.invalidType .typeParameters text)

/-! ### Modifiers -/

/-- What is wrong with a run of modifiers whatever it stands in front of: each repeated one, and
more than one visibility. -/
def modifierRunDefects (modifiers : List Modifier) : List Defect :=
  (Modifier.repeats modifiers).map .duplicateModifier
    ++ requirement ((Modifier.visibilities modifiers).length ≤ 1)
      (.manyVisibilities (Modifier.visibilities modifiers))

/-- What is wrong with the modifiers of a kind of node that accepts only some of them. -/
def modifierDefects (kind : NodeKind) (allowed modifiers : List Modifier) : List Defect :=
  modifierRunDefects modifiers
    ++ ((Modifiers.ofList modifiers).toList.filter (· ∉ allowed)).map (.forbiddenModifier · kind)

/-- The modifiers of a list that cannot stand beside a given one that is there too. -/
def conflictDefects (modifiers : List Modifier) (left : Modifier) (others : List Modifier) :
    List Defect :=
  if left ∈ modifiers then (others.filter (· ∈ modifiers)).map (.conflictingModifiers left ·)
  else []

/-! ### In front of declarations -/

/-- What is to stand in front of a declaration, with modifiers as they were given. -/
structure LeadDraft where
  sectionComment : Option Comment := none
  javadoc : Option Javadoc := none
  annotations : List Annotation := []
  modifiers : List Modifier := []
deriving DecidableEq

namespace LeadDraft

def ofLead (lead : Lead) : LeadDraft where
  sectionComment := lead.sectionComment
  javadoc := lead.javadoc
  annotations := lead.annotations
  modifiers := lead.modifiers.toList

/-- What will stand in front of the node. -/
def lead (draft : LeadDraft) : Lead where
  sectionComment := draft.sectionComment
  javadoc := draft.javadoc
  annotations := draft.annotations
  modifiers := Modifiers.ofList draft.modifiers

def withSectionComment (draft : LeadDraft) (comment : Comment) : LeadDraft :=
  { draft with sectionComment := some comment }

def withJavadoc (draft : LeadDraft) (javadoc : Javadoc) : LeadDraft :=
  { draft with javadoc := some javadoc }

def addAnnotations (draft : LeadDraft) (annotations : List Annotation) : LeadDraft :=
  { draft with annotations := draft.annotations ++ annotations }

def addModifiers (draft : LeadDraft) (modifiers : List Modifier) : LeadDraft :=
  { draft with modifiers := draft.modifiers ++ modifiers }

/-- The requirement on the comment in front. -/
def commentDefects (draft : LeadDraft) : List Defect :=
  draft.sectionComment.toList.flatMap plainComment

@[simp] theorem lead_ofLead (lead : Lead) : (ofLead lead).lead = lead := by
  simp [ofLead, LeadDraft.lead]

end LeadDraft

end JavaUnit
