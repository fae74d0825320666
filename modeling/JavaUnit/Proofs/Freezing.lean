/-
Module: JavaUnit.Proofs.Freezing
Purpose: The nodes that a program can come by: read, built of others, copied out of their owners,
  frozen, validated and changed by setters in any order. A frozen one among them holds nothing that
  can be changed, although frozen parts may be put into owners that can.
Main exports: Node.Sets, Reachable, Reachable.sealed, Node.Sets.refused, frozen_throughout
-/
import JavaUnit.Proofs.Origins

namespace JavaUnit

/-! ### Setters -/

/-- A change to what stands in front of a field or a method. -/
inductive LeadEdit where
  | sectionComment (comment : Option Comment)
  | javadoc (node : Option Javadoc)
  | annotations (nodes : List Annotation)

namespace LeadEdit

/-- The nodes that the change brings in. -/
def parts : LeadEdit → List Node
  | .sectionComment comment => comment.toList.map .comment
  | .javadoc node => node.toList.map .javadoc
  | .annotations nodes => nodes.map .annotationUse

def onField (node : Field) : LeadEdit → Except BuildError Field
  | .sectionComment comment => node.setSectionComment comment
  | .javadoc doc => node.setJavadoc doc
  | .annotations uses => node.setAnnotations uses

def onMethod (node : Method) : LeadEdit → Except BuildError Method
  | .sectionComment comment => node.setSectionComment comment
  | .javadoc doc => node.setJavadoc doc
  | .annotations uses => node.setAnnotations uses

/-- The lead with the change. -/
def result (lead : Lead) : LeadEdit → Lead
  | .sectionComment comment => { lead with sectionComment := comment }
  | .javadoc doc => { lead with javadoc := doc }
  | .annotations uses => { lead with annotations := uses }

end LeadEdit

/-- The nodes that the change brings in. -/
def ClassEdit.parts : ClassEdit → List Node
  | .sectionComment comment => comment.toList.map .comment
  | .javadoc node => node.toList.map .javadoc
  | .annotations nodes => nodes.map .annotationUse
  | .package node => node.toList.map .packageStatement
  | .imports nodes => nodes.map .importStatement
  | .headerComments comments => comments.map .comment
  | .trailingComments comments => comments.map .comment
  | .member added => [.member added]

/-- A setter is called on a node, with parts that it is to own; this is what the call comes to. -/
inductive Node.Sets : Node → List Node → Except BuildError Node → Prop where
  | canonicalName (node : Annotation) (name : Text) :
      Sets (.annotationUse node) [] ((node.setCanonicalName name).map .annotationUse)
  | field (node : Field) (edit : LeadEdit) :
      Sets (.field node) edit.parts ((edit.onField node).map .field)
  | method (node : Method) (edit : LeadEdit) :
      Sets (.method node) edit.parts ((edit.onMethod node).map .method)
  | classDecl (node : ClassDecl) (edit : ClassEdit) :
      Sets (.classDecl node) edit.parts ((edit.apply node).map .classDecl)

/-- The node after a call of a setter: a call that fails leaves it as it is. -/
def Node.after (node : Node) : Except BuildError Node → Node
  | .ok changed => changed
  | .error _ => node

/-- The nodes that a program can come by. -/
inductive Reachable : Node → Prop where
  | read {goal : Goal} {tokens rest : List Token} {node : Node}
      (read : goal.entry.read tokens = .ok (node, rest)) : Reachable node
  /-- A draft takes parts from anywhere, frozen ones too. -/
  | built {node : Node} (built : Built node) (parts : ∀ part ∈ node.owned, Reachable part) :
      Reachable node
  /-- A part is copied out of its owner. -/
  | part {node part : Node} (from_ : Reachable node) (owns : node.Owns part) : Reachable part
  | member {node : Member} (from_ : Reachable node.toNode) : Reachable (.member node)
  | ofMember {node : Member} (from_ : Reachable (.member node)) : Reachable node.toNode
  | freeze {node : Node} (from_ : Reachable node) : Reachable node.freeze
  | set {node : Node} {parts : List Node} {outcome : Except BuildError Node}
      (from_ : Reachable node) (given : ∀ part ∈ parts, Reachable part)
      (call : node.Sets parts outcome) : Reachable (node.after outcome)
  /-- Names that are found before a pass stops are written. -/
  | validate {node : ClassDecl} (from_ : Reachable (.classDecl node)) (imports : List Import) :
      Reachable (.classDecl (node.resolve imports).node)

/-! ### What setters do -/

namespace Node

variable {node : Node}

/-- Every setter refuses to change a frozen node. -/
theorem Sets.refused {parts : List Node} {outcome : Except BuildError Node}
    (call : node.Sets parts outcome) (frozen : node.editable = false) :
    outcome = .error ⟨node.kind, [.frozen node.kind]⟩ := by
  cases call with
  | canonicalName node name =>
      have refused : node.setCanonicalName name = .error ⟨.annotationUse, [.frozen .annotationUse]⟩ :=
        ifEditable_of_frozen frozen
      rw [refused]
      rfl
  | field node edit =>
      have refused : edit.onField node = .error ⟨.field, [.frozen .field]⟩ := by
        cases edit <;> exact ifEditable_of_frozen frozen
      rw [refused]
      rfl
  | method node edit =>
      have refused : edit.onMethod node = .error ⟨.method, [.frozen .method]⟩ := by
        cases edit <;> exact ifEditable_of_frozen frozen
      rw [refused]
      rfl
  | classDecl node edit =>
      have refused : edit.apply node = .error ⟨.classDecl, [.frozen .classDecl]⟩ := by
        cases edit <;> exact ifEditable_of_frozen frozen
      rw [refused]
      rfl

end Node

namespace LeadEdit

/-- A changed lead owns what it owned before and the parts of the change, and nothing else. -/
theorem mem_owned_result {lead : Lead} {edit : LeadEdit} {part : Node}
    (h : part ∈ (edit.result lead).owned) : part ∈ lead.owned ∨ part ∈ edit.parts := by
  simp only [Lead.owned, List.mem_append] at h ⊢
  cases edit with
  | sectionComment comment => exact h.elim (·.elim .inr (.inl ∘ .inl ∘ .inr)) (.inl ∘ .inr)
  | javadoc node => exact h.elim (·.elim (.inl ∘ .inl ∘ .inl) .inr) (.inl ∘ .inr)
  | annotations nodes => exact h.elim (.inl ∘ .inl) .inr

/-- The change on any node with a lead, which `put` puts in front of it. -/
def onLead (kind : NodeKind) (editable : Bool) (put : Lead → α) (lead : Lead) :
    LeadEdit → Except BuildError α
  | .sectionComment comment =>
    ifEditable kind editable
      (ifPlain kind comment (.ok (put { lead with sectionComment := comment })))
  | .javadoc doc => ifEditable kind editable (.ok (put { lead with javadoc := doc }))
  | .annotations uses => ifEditable kind editable (.ok (put { lead with annotations := uses }))

theorem onLead_eq_ok {edit : LeadEdit} {kind : NodeKind} {editable : Bool} {put : Lead → α}
    {lead : Lead} {changed : α} (h : edit.onLead kind editable put lead = .ok changed) :
    editable = true ∧ changed = put (edit.result lead) := by
  cases edit with
  | sectionComment comment =>
      obtain ⟨editable, inside⟩ := ifEditable_eq_ok_iff.1 h
      obtain ⟨-, same⟩ := ifPlain_eq_ok_iff.1 inside
      exact ⟨editable, (Except.ok.inj same).symm⟩
  | javadoc node =>
      obtain ⟨editable, same⟩ := ifEditable_eq_ok_iff.1 h
      exact ⟨editable, (Except.ok.inj same).symm⟩
  | annotations nodes =>
      obtain ⟨editable, same⟩ := ifEditable_eq_ok_iff.1 h
      exact ⟨editable, (Except.ok.inj same).symm⟩

theorem onField_eq (edit : LeadEdit) (node : Field) :
    edit.onField node =
      edit.onLead .field node.editable (fun lead => { node with toLead := lead }) node.toLead := by
  cases edit <;> rfl

theorem onMethod_eq (edit : LeadEdit) (node : Method) :
    edit.onMethod node =
      edit.onLead .method node.editable (fun lead => { node with toLead := lead }) node.toLead := by
  cases edit <;> rfl

end LeadEdit

theorem ClassEdit.mem_owned_result {node : ClassDecl} {edit : ClassEdit} {part : Node}
    (h : part ∈ (edit.result node).owned) : part ∈ node.owned ∨ part ∈ edit.parts := by
  have lead : ∀ edit : LeadEdit, part ∈ ClassDecl.owned
      { node with toLead := edit.result node.toLead } → part ∈ node.owned ∨ part ∈ edit.parts := by
    intro edit h
    rcases ClassDecl.mem_owned.1 h with front | others
    · exact (LeadEdit.mem_owned_result front).imp_left fun own => ClassDecl.mem_owned.2 (.inl own)
    · exact .inl (ClassDecl.mem_owned.2 (.inr others))
  cases edit with
  | sectionComment comment => exact lead (.sectionComment comment) h
  | javadoc doc => exact lead (.javadoc doc) h
  | annotations uses => exact lead (.annotations uses) h
  | member added =>
      simp only [result, ClassDecl.owned, List.map_append, ← List.append_assoc] at h
      exact List.mem_append.1 h
  | _ =>
      simp only [result, ClassDecl.owned, ClassHead.owned, parts, List.mem_append] at h ⊢
      tauto

namespace Node

variable {node : Node}

/-- What a setter has changed could be changed and still can be; it owns what it did or what the
setter was given. -/
theorem Sets.changed {parts : List Node} {changed : Node} (call : node.Sets parts (.ok changed)) :
    changed.editable = true ∧ ∀ part ∈ changed.owned, part ∈ node.owned ∨ part ∈ parts := by
  generalize comes : Except.ok changed = outcome at call
  cases call with
  | canonicalName node name =>
      obtain ⟨other, set, rfl⟩ := map_eq_ok_iff.1 comes.symm
      obtain ⟨editable, same⟩ := ifEditable_eq_ok_iff.1 set
      obtain rfl := Except.ok.inj same
      exact ⟨editable, fun _ mem => absurd mem List.not_mem_nil⟩
  | field node edit =>
      obtain ⟨other, set, rfl⟩ := map_eq_ok_iff.1 comes.symm
      obtain ⟨editable, rfl⟩ := LeadEdit.onLead_eq_ok (edit.onField_eq node ▸ set)
      exact ⟨editable, fun part => LeadEdit.mem_owned_result⟩
  | method node edit =>
      obtain ⟨other, set, rfl⟩ := map_eq_ok_iff.1 comes.symm
      obtain ⟨editable, rfl⟩ := LeadEdit.onLead_eq_ok (edit.onMethod_eq node ▸ set)
      refine ⟨editable, fun part mem => ?_⟩
      rcases List.mem_append.1 mem with front | inside
      · exact (LeadEdit.mem_owned_result front).imp_left (List.mem_append_left _)
      · exact .inl (List.mem_append_right _ inside)
  | classDecl node edit =>
      obtain ⟨other, set, rfl⟩ := map_eq_ok_iff.1 comes.symm
      obtain ⟨editable, -, rfl⟩ := ClassEdit.apply_eq_ok_iff.1 set
      refine ⟨?_, fun part => ClassEdit.mem_owned_result⟩
      cases edit <;> exact editable

/-! ### Sealed nodes -/

/-- An editable node is sealed if each node that it owns is. -/
theorem sealed_of_editable (editable : node.editable = true)
    (parts : ∀ part ∈ node.owned, part.Sealed) : node.Sealed :=
  throughout_iff.2 ⟨fun frozen => by simp [editable] at frozen, parts⟩

theorem Sealed.parts (h : node.Sealed) : ∀ part ∈ node.owned, part.Sealed :=
  (throughout_iff.1 h).2

/-- A member is sealed exactly if the node that it is is. -/
theorem sealed_member {node : Member} : (Node.member node).Sealed ↔ node.toNode.Sealed := by
  have frozen : (Node.member node).Frozen ↔ node.toNode.Frozen := by
    rw [Frozen, throughout_iff, throughout_iff, Member.owned_toNode, Member.editable_toNode]
    rfl
  rw [Sealed, throughout_iff, throughout_iff, frozen, Member.owned_toNode, Member.editable_toNode]
  rfl

end Node

/-- Reading makes no frozen nodes, so that nothing under one could be open. -/
theorem Made.sealed {node : Node} (h : Made node) : node.Sealed :=
  fun part holds frozen => by simp [(h.fresh part holds).1] at frozen

/-- Writing canonical names makes nothing editable and freezes nothing. -/
theorem ClassDecl.sealed_resolve {node : ClassDecl} (imports : List Import)
    (h : (Node.classDecl node).Sealed) : (Node.classDecl (node.resolve imports).node).Sealed := by
  by_cases editable : node.editable = true
  · rwa [← Node.sealed_unnamed, Node.mapAnnotations_resolve imports editable, Node.sealed_unnamed]
  · have same : (node.resolve imports).node = node := by simp [resolve, editable]
    rwa [same]

theorem Reachable.of_built {node : Node} (h : Built node) (alone : node.owned = []) :
    Reachable node :=
  .built h (by simp [alone])

/-- A node that cannot be changed holds nothing that can be, however it came about. -/
theorem Reachable.sealed {node : Node} (h : Reachable node) : node.Sealed := by
  induction h with
  | read read => exact (Goal.made_of_read read).sealed
  | built built _ ih => exact Node.sealed_of_editable built.editable ih
  | part _ owns ih => exact ih.parts _ owns
  | member _ ih => exact Node.sealed_member.2 ih
  | ofMember _ ih => exact Node.sealed_member.1 ih
  | @freeze node _ _ => exact node.frozen_freeze.sealed
  | @set node parts outcome _ _ call ih given =>
      cases outcome with
      | error => exact ih
      | ok changed =>
          obtain ⟨editable, owned⟩ := call.changed
          refine Node.sealed_of_editable editable fun part mem => ?_
          exact (owned part mem).elim (ih.parts part) (given part)
  | validate _ imports ih => exact ClassDecl.sealed_resolve imports ih

/-- A node that cannot be changed holds nothing that can be, however it came about. Freezing makes
any tree such a node and does not show in its text; from then on every setter is refused, and says
so. -/
theorem frozen_throughout (node : Node) :
    (Reachable node → node.Sealed) ∧
    (node.freeze.Frozen ∧ node.freeze.render = node.render) ∧
    ∀ parts outcome, node.Sets parts outcome → node.editable = false →
      (∃ error, outcome = .error error ∧ error.kind = node.kind ∧
        error.defects.map Defect.message = ["Cannot modify a frozen ".toList ++ node.kind.text]) ∧
      node.after outcome = node := by
  refine ⟨Reachable.sealed, ⟨node.frozen_freeze, node.render_freeze⟩, ?_⟩
  intro parts outcome call frozen
  obtain rfl := call.refused frozen
  exact ⟨⟨_, rfl, rfl, rfl⟩, rfl⟩

/-- The draft of a class behind a frozen comment and an annotation that can be changed. -/
def mixedSample : ClassDraft where
  sectionComment := some ⟨.line, [['c']], false⟩
  annotations := [{ name := ['A'], params := [] }]
  name := some ['C']

theorem frozen_throughout_mixedSample :
    ∃ node, mixedSample.build = .ok node ∧ Reachable (.classDecl node) ∧
      (Node.classDecl node).Sealed ∧ (Node.classDecl node.freeze).Frozen ∧
      node.freeze.render = node.render ∧ node.freeze.editable = false ∧
      ∃ error, (node.freeze.setPackage none).map Node.classDecl = .error error ∧
        error.kind = .classDecl ∧
        error.defects.map Defect.message = ["Cannot modify a frozen class".toList] := by
  have comment : Reachable (.comment ⟨.line, [['c']], false⟩) :=
    .freeze (.of_built (@Built.comment ⟨.line, [['c']]⟩ ⟨.line, [['c']], true⟩ (by decide)) rfl)
  have used : Reachable (.annotationUse { name := ['A'], params := [] }) :=
    .of_built (@Built.annotationUse { name := some ['A'] } _ (by decide)) rfl
  have built : mixedSample.build = .ok mixedSample.node := settle_eq_ok_iff.2 ⟨by decide, rfl⟩
  have reachable : Reachable (.classDecl mixedSample.node) := by
    refine .built (.classDecl built) fun part mem => ?_
    have parts : (Node.classDecl mixedSample.node).owned =
        [.comment ⟨.line, [['c']], false⟩, .annotationUse { name := ['A'], params := [] }] := rfl
    rw [parts] at mem
    rcases List.mem_cons.1 mem with rfl | mem
    · exact comment
    · exact List.mem_singleton.1 mem ▸ used
  obtain ⟨held, ⟨frozen, same⟩, -⟩ := frozen_throughout (.classDecl mixedSample.node)
  obtain ⟨error, is, kind, message⟩ := ((frozen_throughout (.classDecl mixedSample.node.freeze)).2.2 _
    _ (.classDecl mixedSample.node.freeze (.package none)) rfl).1
  exact ⟨_, built, reachable, held reachable, frozen, same, rfl, error, is, kind, message⟩

end JavaUnit
