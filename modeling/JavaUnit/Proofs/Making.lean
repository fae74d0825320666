/-
Module: JavaUnit.Proofs.Making
Purpose: The ways in which reading makes nodes. A node is what its draft builds; a declaration may
  then get other things in front of it, and a class its file. Everything else in a tree is made in
  the same way, so a fact about all nodes that are read is proved along these few steps.
Main exports: Built, Made, Made.parts, Made.plain, Node.Fresh, Made.fresh
-/
import JavaUnit.Proofs.ClassRules
import JavaUnit.Proofs.CommentText
import JavaUnit.Proofs.Ownership

namespace JavaUnit

/-! ### Steps -/

/-- The result of building a draft. -/
inductive Built : Node → Prop where
  | packageStatement {draft : PackageDraft} {node : Package} (built : draft.build = .ok node) :
      Built (.packageStatement node)
  | importStatement {draft : ImportDraft} {node : Import} (built : draft.build = .ok node) :
      Built (.importStatement node)
  | annotationUse {draft : AnnotationDraft} {node : Annotation} (built : draft.build = .ok node) :
      Built (.annotationUse node)
  | javadoc {draft : JavadocDraft} {node : Javadoc} (built : draft.build = .ok node) :
      Built (.javadoc node)
  | comment {draft : CommentDraft} {node : Comment} (built : draft.build = .ok node) :
      Built (.comment node)
  | field {draft : FieldDraft} {node : Field} (built : draft.build = .ok node) :
      Built (.field node)
  | method {draft : MethodDraft} {node : Method} (built : draft.build = .ok node) :
      Built (.method node)
  | staticBlock {draft : StaticBlockDraft} {node : StaticBlock} (built : draft.build = .ok node) :
      Built (.staticBlock node)
  | classDecl {draft : ClassDraft} {node : ClassDecl} (built : draft.build = .ok node) :
      Built (.classDecl node)

/-- Whether the canonical name of a node is unknown, or the node can have none. -/
def Node.Unnamed : Node → Prop
  | .annotationUse node => node.canonicalName = []
  | _ => True

/-- What reading makes of its own: an annotation whose canonical name is unknown, or a comment that
is made of lines. Of other nodes nothing is asked here. -/
def Node.AsRead : Node → Prop
  | .annotationUse node => node.canonicalName = []
  | .comment node => node.Lined
  | _ => True

theorem Node.AsRead.unnamed {node : Node} (h : node.AsRead) : node.Unnamed := by
  cases node with
  | annotationUse => exact h
  | _ => trivial

/-- Other things in front of a declaration: its modifiers are the same, and no doc-style comment
stands there. -/
structure Lead.Replaces (lead before : Lead) : Prop where
  plain : lead.sectionComment.any Comment.isDoc = false
  modifiers : lead.modifiers = before.modifiers

/-- The node that a class member is. -/
def Member.toNode : Member → Node
  | .field node => .field node
  | .method node => .method node
  | .staticBlock node => .staticBlock node
  | .classDecl head members => .classDecl ⟨head, members⟩
  | .comment node => .comment node

/-- The node is made in the way in which reading makes nodes. -/
inductive Made : Node → Prop where
  | built {node : Node} (built : Built node) (asRead : node.AsRead)
      (parts : ∀ part ∈ node.owned, Made part) : Made node
  | field {node : Field} {lead : Lead} (made : Made (.field node))
      (replaces : lead.Replaces node.toLead) (parts : ∀ part ∈ lead.owned, Made part) :
      Made (.field { node with toLead := lead })
  | method {node : Method} {lead : Lead} (made : Made (.method node))
      (replaces : lead.Replaces node.toLead) (parts : ∀ part ∈ lead.owned, Made part) :
      Made (.method { node with toLead := lead })
  | classDecl {node : ClassDecl} {lead : Lead} (made : Made (.classDecl node))
      (replaces : lead.Replaces node.toLead) (parts : ∀ part ∈ lead.owned, Made part) :
      Made (.classDecl { node with toLead := lead })
  /-- A class with the file around it. -/
  | file {node : ClassDecl} {headerComments trailingComments : List Comment}
      {package : Option Package} {imports : List Import} (made : Made (.classDecl node))
      (headers : ∀ comment ∈ headerComments, Made (.comment comment))
      (packages : ∀ statement ∈ package, Made (.packageStatement statement))
      (importing : ∀ statement ∈ imports, Made (.importStatement statement))
      (trailing : ∀ comment ∈ trailingComments, Made (.comment comment)) :
      Made (.classDecl { node with headerComments, package, imports, trailingComments })
  | member {node : Member} (made : Made node.toNode) : Made (.member node)

/-! ### What is made -/

@[simp] theorem Member.owned_toNode (node : Member) : node.toNode.owned = node.owned := by
  cases node <;> rfl

@[simp] theorem Member.editable_toNode (node : Member) : node.toNode.editable = node.editable := by
  cases node <;> rfl

/-- What stands in front of a class is not what its file holds. -/
theorem ClassDecl.mem_owned {node : ClassDecl} {part : Node} :
    part ∈ node.owned ↔ part ∈ node.toLead.owned ∨
      (∃ comment ∈ node.headerComments, part = .comment comment) ∨
      (∃ statement ∈ node.package, part = .packageStatement statement) ∨
      (∃ statement ∈ node.imports, part = .importStatement statement) ∨
      (∃ comment ∈ node.trailingComments, part = .comment comment) ∨
      ∃ member ∈ node.members, part = .member member := by
  simp [owned, ClassHead.owned, eq_comm]

/-- What stands in front of a declaration. -/
def Node.lead? : Node → Option Lead
  | .field node => some node.toLead
  | .method node => some node.toLead
  | .classDecl node => some node.toLead
  | _ => none

theorem LeadDraft.commentDefects_eq_nil_iff {draft : LeadDraft} :
    draft.commentDefects = [] ↔ draft.sectionComment.any Comment.isDoc = false := by
  cases comment : draft.sectionComment <;> simp [commentDefects, comment, plainComment_eq_nil]

namespace Built

variable {node : Node}

theorem editable (h : Built node) : node.editable = true := by
  cases h with
  | packageStatement built | importStatement built | annotationUse built | javadoc built
  | comment built | field built | method built | staticBlock built | classDecl built =>
      obtain ⟨-, rfl⟩ := settle_eq_ok_iff.1 built
      rfl

/-- No declaration is built behind a doc-style comment. -/
theorem plain (h : Built node) {lead : Lead} (front : node.lead? = some lead) :
    lead.sectionComment.any Comment.isDoc = false := by
  cases h with
  | field built =>
      obtain ⟨clean, rfl⟩ := settle_eq_ok_iff.1 built
      obtain rfl := Option.some.inj front
      simp only [FieldDraft.defects, List.append_eq_nil_iff, and_assoc] at clean
      exact LeadDraft.commentDefects_eq_nil_iff.1 clean.1
  | method built =>
      obtain ⟨clean, rfl⟩ := settle_eq_ok_iff.1 built
      obtain rfl := Option.some.inj front
      simp only [MethodDraft.defects, List.append_eq_nil_iff, and_assoc] at clean
      exact LeadDraft.commentDefects_eq_nil_iff.1 clean.1
  | classDecl built =>
      obtain rfl := Option.some.inj front
      exact (ClassDraft.sound_of_build built).plain
  | _ => cases front

end Built

namespace Made

variable {node : Node}

/-- What is built of nothing is made. -/
theorem of_built (h : Built node) (alone : node.owned = []) (asRead : node.AsRead) :
    Made node :=
  .built h asRead (by simp [alone])

theorem member_iff {node : Member} : Made (.member node) ↔ Made node.toNode := by
  constructor
  · intro h
    cases h with
    | built built => cases built
    | member made => exact made
  · exact .member

/-- Whatever a made node owns is made. -/
theorem parts (h : Made node) : ∀ part ∈ node.owned, Made part := by
  induction h with
  | built _ _ parts => exact parts
  | field _ _ parts => exact parts
  | @method node lead _ _ parts ih =>
      intro part mem
      rcases List.mem_append.1 mem with front | inside
      · exact parts part front
      · exact ih part (List.mem_append_right _ inside)
  | @classDecl node lead _ _ parts ih =>
      intro part mem
      rcases ClassDecl.mem_owned.1 mem with front | inside
      · exact parts part front
      · exact ih part (ClassDecl.mem_owned.2 (.inr inside))
  | file _ headers packages importing trailing ih =>
      intro part mem
      rcases ClassDecl.mem_owned.1 mem with front | ⟨comment, here, rfl⟩ | ⟨statement, here, rfl⟩ |
        ⟨statement, here, rfl⟩ | ⟨comment, here, rfl⟩ | inside
      · exact ih part (ClassDecl.mem_owned.2 (.inl front))
      · exact headers comment here
      · exact packages statement here
      · exact importing statement here
      · exact trailing comment here
      · exact ih part (ClassDecl.mem_owned.2 (.inr (.inr (.inr (.inr (.inr inside))))))
  | @member node _ ih => rwa [Member.owned_toNode] at ih

theorem of_holds (h : Made node) {part : Node} (holds : node.Holds part) : Made part := by
  induction holds with
  | refl => exact h
  | tail _ owns ih => exact ih.parts _ owns

theorem editable (h : Made node) : node.editable = true := by
  induction h with
  | built built => exact built.editable
  | field _ _ _ ih | method _ _ _ ih | classDecl _ _ _ ih => exact ih
  | file _ _ _ _ _ ih => exact ih
  | member _ ih => rwa [Member.editable_toNode] at ih

theorem unnamed (h : Made node) : node.Unnamed := by
  cases h with
  | built _ asRead => exact asRead.unnamed
  | _ => trivial

/-- A made comment is made of lines. -/
theorem lined {node : Comment} (h : Made (.comment node)) : node.Lined := by
  cases h with
  | built _ asRead => exact asRead

/-- No made declaration stands behind a doc-style comment. -/
theorem plain (h : Made node) {lead : Lead} (front : node.lead? = some lead) :
    lead.sectionComment.any Comment.isDoc = false := by
  induction h with
  | built built => exact built.plain front
  | field _ replaces | method _ replaces | classDecl _ replaces =>
      obtain rfl := Option.some.inj front
      exact replaces.plain
  | file _ _ _ _ _ ih => exact ih front
  | member => cases front

end Made

/-! ### Nodes that nothing was done to -/

namespace Node

/-- Nothing was done to a tree: every node of it can be changed, and no annotation has a canonical
name. -/
def Fresh : Node → Prop :=
  Throughout fun part => part.editable = true ∧ part.Unnamed

end Node

/-- Whatever is made by reading can be changed throughout and has no canonical names. -/
theorem Made.fresh {node : Node} (h : Made node) : node.Fresh :=
  fun _ holds => ⟨(h.of_holds holds).editable, (h.of_holds holds).unnamed⟩

end JavaUnit
