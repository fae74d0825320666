/-
Module: JavaUnit.Proofs.Setters
Purpose: What setters come to. A change is made if its node can be changed and nothing speaks
  against the change, and one that is not made is refused for a reason. What stands in front of a
  declaration is set in the same way in all of them; so what waits for a declaration comes to stand
  in front of it in one step, whatever kind of declaration it is.
Main exports: ifEditable_eq_ok_iff, Explains, Pending.onLead, LeadSetters, LeadSetters.eq_ok_iff,
  Pending.onMember_eq_ok_iff
-/
import JavaUnit.Draft.Requirement
import JavaUnit.Proofs.Scan
import JavaUnit.Reading.Unit

namespace JavaUnit

/-! ### Changes that are made -/

section

variable {kind : NodeKind} {editable : Bool} {change : Except BuildError α} {node : α}

/-- A change is made if its node is editable and the change itself succeeds. -/
theorem ifEditable_eq_ok_iff :
    ifEditable kind editable change = .ok node ↔ editable = true ∧ change = .ok node := by
  cases editable <;> simp [ifEditable]

theorem ifEditable_of_frozen (frozen : editable = false) :
    ifEditable kind editable change = .error ⟨kind, [.frozen kind]⟩ := by
  simp [ifEditable, frozen]

theorem ifPlain_eq_ok_iff {comment : Option Comment} :
    ifPlain kind comment change = .ok node ↔
      comment.any Comment.isDoc = false ∧ change = .ok node := by
  rw [ifPlain]
  split <;> simp_all

theorem ClassDecl.ifOuter_eq_ok_iff {node result : ClassDecl} {change : Except BuildError ClassDecl} :
    node.ifOuter change = .ok result ↔
      node.editable = true ∧ node.inner = false ∧ change = .ok result := by
  rw [ifOuter, ifEditable_eq_ok_iff]
  cases node.inner <;> simp

end

/-! ### Changes that are refused -/

/-- Whatever is refused is refused for a reason. -/
def Explains (outcome : Except BuildError α) : Prop :=
  ∀ error, outcome = .error error → error.defects ≠ []

namespace Explains

variable {kind : NodeKind} {change : Except BuildError α}

theorem ok (value : α) : Explains (.ok value) :=
  nofun

theorem error {defect : Defect} {others : List Defect} :
    Explains (.error ⟨kind, defect :: others⟩ : Except BuildError α) := by
  rintro error ⟨⟩
  exact List.cons_ne_nil defect others

/-- A draft is refused only if something is wrong with it. -/
theorem settle {defects : List Defect} {node : α} : Explains (settle kind defects node) := by
  intro error refused
  obtain ⟨some, rfl⟩ := settle_eq_error_iff.1 refused
  exact some

theorem ifEditable {editable : Bool} (h : Explains change) :
    Explains (ifEditable kind editable change) := by
  rw [JavaUnit.ifEditable]
  split
  · exact h
  · exact error

theorem ifPlain {comment : Option Comment} (h : Explains change) :
    Explains (ifPlain kind comment change) := by
  rw [JavaUnit.ifPlain]
  split
  · exact error
  · exact h

theorem ifOuter {node : ClassDecl} {change : Except BuildError ClassDecl} (h : Explains change) :
    Explains (node.ifOuter change) := by
  refine ifEditable ?_
  split
  · exact error
  · exact h

/-- What is done in two steps is refused by one of them. -/
theorem bind {outcome : Except BuildError α} {next : α → Except BuildError β}
    (h : Explains outcome) (later : ∀ value, Explains (next value)) :
    Explains (outcome >>= next) := by
  cases outcome with
  | ok value => exact later value
  | error fault =>
      rintro _ ⟨⟩
      exact h fault rfl

theorem map {outcome : Except BuildError α} {f : α → β} (h : Explains outcome) :
    Explains (outcome.map f) := by
  cases outcome with
  | ok value => exact ok (f value)
  | error fault =>
      rintro _ ⟨⟩
      exact h fault rfl

theorem setIfSome {change : α → Option β → Except BuildError α} {value : Option β} {node : α}
    (h : Explains (change node value)) : Explains (setIfSome change value node) := by
  rw [JavaUnit.setIfSome]
  split
  · exact h
  · exact ok node

theorem gainAnnotations {change : α → List Annotation → Except BuildError α}
    {gained own : List Annotation} {node : α} (h : Explains (change node (gained ++ own))) :
    Explains (gainAnnotations change gained own node) := by
  rw [JavaUnit.gainAnnotations]
  split
  · exact ok node
  · exact h

/-- A member that cannot take what waits says why. -/
theorem onMember (pending : Pending) (member : Member) :
    Explains (pending.onMember member) := by
  cases member with
  | field node =>
      exact ((Explains.ok _).ifPlain.ifEditable.setIfSome.bind fun _ =>
        (Explains.ok _).ifEditable.setIfSome.bind fun _ =>
          (Explains.ok _).ifEditable.gainAnnotations).map
  | method node =>
      exact ((Explains.ok _).ifPlain.ifEditable.setIfSome.bind fun _ =>
        (Explains.ok _).ifEditable.setIfSome.bind fun _ =>
          (Explains.ok _).ifEditable.gainAnnotations).map
  | classDecl head members =>
      exact ((Explains.ok _).ifPlain.ifEditable.setIfSome.bind fun _ =>
        (Explains.ok _).ifEditable.setIfSome.bind fun _ =>
          (Explains.ok _).ifEditable.gainAnnotations).map
  | staticBlock node => exact .ok _
  | comment node => exact .ok _

/-- The file around an outermost class is attached by setters, each of which says why it refuses. -/
theorem attachFile (state : FileState) (outer : ClassDecl) : Explains (state.attachFile outer) :=
  (Explains.ok _).ifOuter.bind fun _ => (Explains.ok _).ifOuter.bind fun _ =>
    (Explains.ok _).ifEditable.bind fun _ => (Explains.ok _).ifEditable

end Explains

/-! ### In front of a declaration -/

/-- A lead with what waits in front of it. -/
def Pending.onLead (pending : Pending) (lead : Lead) : Lead where
  sectionComment := pending.sectionComment.or lead.sectionComment
  javadoc := pending.javadoc.or lead.javadoc
  annotations := pending.annotations ++ lead.annotations
  modifiers := lead.modifiers

/-- What stands in front of a field, method or class. -/
def Member.lead? : Member → Option Lead
  | .field node => some node.toLead
  | .method node => some node.toLead
  | .classDecl head _ => some head.toLead
  | .staticBlock _ | .comment _ => none

/-- A field, method or class with something else in front of it. -/
def Member.withLead (lead : Lead) : Member → Member
  | .field node => .field { node with toLead := lead }
  | .method node => .method { node with toLead := lead }
  | .classDecl head members => .classDecl { head with toLead := lead } members
  | .staticBlock node => .staticBlock node
  | .comment node => .comment node

/-- Setters that put another lead in front of a declaration; the declaration is told by what `put`
makes of its lead. -/
structure LeadSetters (kind : NodeKind) (editable : Bool) (put : Lead → α)
    (setComment : α → Option Comment → Except BuildError α)
    (setJavadoc : α → Option Javadoc → Except BuildError α)
    (setAnnotations : α → List Annotation → Except BuildError α) : Prop where
  comment : ∀ lead comment, setComment (put lead) comment =
    ifEditable kind editable
      (ifPlain kind comment (.ok (put { lead with sectionComment := comment })))
  javadoc : ∀ lead javadoc, setJavadoc (put lead) javadoc =
    ifEditable kind editable (.ok (put { lead with javadoc }))
  annotations : ∀ lead annotations, setAnnotations (put lead) annotations =
    ifEditable kind editable (.ok (put { lead with annotations }))

theorem Field.leadSetters (node : Field) :
    LeadSetters .field node.editable (fun lead => { node with toLead := lead })
      setSectionComment setJavadoc setAnnotations :=
  ⟨fun _ _ => rfl, fun _ _ => rfl, fun _ _ => rfl⟩

theorem Method.leadSetters (node : Method) :
    LeadSetters .method node.editable (fun lead => { node with toLead := lead })
      setSectionComment setJavadoc setAnnotations :=
  ⟨fun _ _ => rfl, fun _ _ => rfl, fun _ _ => rfl⟩

theorem ClassDecl.leadSetters (node : ClassDecl) :
    LeadSetters .classDecl node.editable (fun lead => { node with toLead := lead })
      setSectionComment setJavadoc setAnnotations :=
  ⟨fun _ _ => rfl, fun _ _ => rfl, fun _ _ => rfl⟩

namespace LeadSetters

variable {kind : NodeKind} {editable : Bool} {put : Lead → α}
  {setComment : α → Option Comment → Except BuildError α}
  {setJavadoc : α → Option Javadoc → Except BuildError α}
  {setAnnotations : α → List Annotation → Except BuildError α} {lead : Lead} {result : α}

theorem setComment_eq_ok_iff
    (h : LeadSetters kind editable put setComment setJavadoc setAnnotations)
    {comment : Option Comment} :
    setIfSome setComment comment (put lead) = .ok result ↔
      (comment = none ∨ editable = true) ∧ comment.any Comment.isDoc = false ∧
        result = put { lead with sectionComment := comment.or lead.sectionComment } := by
  cases comment with
  | none => simp [setIfSome, eq_comm]
  | some value =>
      rw [setIfSome, if_pos (by rfl), h.comment, ifEditable_eq_ok_iff, ifPlain_eq_ok_iff,
        Except.ok.injEq, eq_comm (b := result)]
      simp

theorem setJavadoc_eq_ok_iff
    (h : LeadSetters kind editable put setComment setJavadoc setAnnotations)
    {javadoc : Option Javadoc} :
    setIfSome setJavadoc javadoc (put lead) = .ok result ↔
      (javadoc = none ∨ editable = true) ∧
        result = put { lead with javadoc := javadoc.or lead.javadoc } := by
  cases javadoc with
  | none => simp [setIfSome, eq_comm]
  | some value =>
      rw [setIfSome, if_pos (by rfl), h.javadoc, ifEditable_eq_ok_iff, Except.ok.injEq,
        eq_comm (b := result)]
      simp

theorem setAnnotations_eq_ok_iff
    (h : LeadSetters kind editable put setComment setJavadoc setAnnotations)
    {gained : List Annotation} :
    gainAnnotations setAnnotations gained lead.annotations (put lead) = .ok result ↔
      (gained = [] ∨ editable = true) ∧
        result = put { lead with annotations := gained ++ lead.annotations } := by
  by_cases none : gained = []
  · simp [gainAnnotations, none, eq_comm]
  · rw [gainAnnotations, if_neg none, h.annotations, ifEditable_eq_ok_iff, Except.ok.injEq,
      eq_comm (b := result)]
    simp [none]

/-- What waits is set in front of a declaration that can be changed, unless a doc-style comment
waits; where nothing waits, nothing is asked of the declaration. -/
theorem eq_ok_iff (h : LeadSetters kind editable put setComment setJavadoc setAnnotations)
    {own : α → List Annotation} (same : ∀ lead, own (put lead) = lead.annotations)
    {pending : Pending} :
    (do
      let node ← setIfSome setComment pending.sectionComment (put lead)
      let node ← setIfSome setJavadoc pending.javadoc node
      gainAnnotations setAnnotations pending.annotations (own node) node) = Except.ok result ↔
      (pending = {} ∨ editable = true) ∧ pending.sectionComment.any Comment.isDoc = false ∧
        result = put (pending.onLead lead) := by
  constructor
  · intro made
    obtain ⟨_, first, made⟩ := bind_eq_ok_iff.1 made
    obtain ⟨here, plain, rfl⟩ := h.setComment_eq_ok_iff.1 first
    obtain ⟨_, second, made⟩ := bind_eq_ok_iff.1 made
    obtain ⟨there, rfl⟩ := h.setJavadoc_eq_ok_iff.1 second
    rw [same] at made
    obtain ⟨last, rfl⟩ := h.setAnnotations_eq_ok_iff.1 made
    refine ⟨?_, plain, rfl⟩
    by_cases can : editable = true
    · exact .inr can
    · refine .inl ?_
      obtain ⟨comment, javadoc, annotations⟩ := pending
      cases here.resolve_right can
      cases there.resolve_right can
      cases last.resolve_right can
      rfl
  · rintro ⟨can, plain, rfl⟩
    refine bind_eq_ok_iff.2 ⟨_, h.setComment_eq_ok_iff.2 ⟨?_, plain, rfl⟩,
      bind_eq_ok_iff.2 ⟨_, h.setJavadoc_eq_ok_iff.2 ⟨?_, rfl⟩, ?_⟩⟩
    · exact can.imp_left (congrArg Pending.sectionComment)
    · exact can.imp_left (congrArg Pending.javadoc)
    · rw [same]
      exact h.setAnnotations_eq_ok_iff.2 ⟨can.imp_left (congrArg Pending.annotations), rfl⟩

/-- The same for the member that the declaration is. -/
theorem map_eq_ok_iff (h : LeadSetters kind editable put setComment setJavadoc setAnnotations)
    {own : α → List Annotation} (same : ∀ lead, own (put lead) = lead.annotations)
    {pending : Pending} (wrap : α → Member) {member : Member} :
    (do
      let node ← setIfSome setComment pending.sectionComment (put lead)
      let node ← setIfSome setJavadoc pending.javadoc node
      gainAnnotations setAnnotations pending.annotations (own node) node).map wrap = .ok member ↔
      (pending = {} ∨ editable = true) ∧ pending.sectionComment.any Comment.isDoc = false ∧
        member = wrap (put (pending.onLead lead)) := by
  rw [JavaUnit.map_eq_ok_iff]
  simp only [h.eq_ok_iff same]
  constructor
  · rintro ⟨_, ⟨can, plain, rfl⟩, rfl⟩
    exact ⟨can, plain, rfl⟩
  · rintro ⟨can, plain, rfl⟩
    exact ⟨_, ⟨can, plain, rfl⟩, rfl⟩

end LeadSetters

namespace Pending

variable {pending : Pending} {member result : Member}

/-- A field, method or class that takes what waits has all of it in front of it. -/
theorem onMember_eq_ok_iff {lead : Lead} (leads : member.lead? = some lead) :
    pending.onMember member = .ok result ↔
      (pending = {} ∨ member.editable = true) ∧
        pending.sectionComment.any Comment.isDoc = false ∧
        result = member.withLead (pending.onLead lead) := by
  cases member with
  | field node =>
      obtain rfl := Option.some.inj leads
      exact node.leadSetters.map_eq_ok_iff (fun _ => rfl) Member.field
  | method node =>
      obtain rfl := Option.some.inj leads
      exact node.leadSetters.map_eq_ok_iff (fun _ => rfl) Member.method
  | classDecl head members =>
      obtain rfl := Option.some.inj leads
      exact (ClassDecl.leadSetters ⟨head, members⟩).map_eq_ok_iff (fun _ => rfl) Member.ofClass
  | staticBlock node => cases leads
  | comment node => cases leads

end Pending

/-! ### Around the class of a file -/

/-- What a file holds around its class is set on an outermost class that can be changed. -/
theorem FileState.attachFile_eq_ok_iff {state : FileState} {outer node : ClassDecl} :
    state.attachFile outer = .ok node ↔
      outer.editable = true ∧ outer.inner = false ∧ node = { outer with
        package := state.package
        imports := state.imports
        headerComments := state.headerComments ++ state.sectionComment.toList
        trailingComments := state.trailingComments } := by
  constructor
  · intro made
    obtain ⟨_, packaged, made⟩ := bind_eq_ok_iff.1 made
    obtain ⟨editable, outside, ⟨⟩⟩ := ClassDecl.ifOuter_eq_ok_iff.1 packaged
    obtain ⟨_, imported, made⟩ := bind_eq_ok_iff.1 made
    obtain ⟨-, -, ⟨⟩⟩ := ClassDecl.ifOuter_eq_ok_iff.1 imported
    obtain ⟨_, headed, made⟩ := bind_eq_ok_iff.1 made
    obtain ⟨-, ⟨⟩⟩ := ifEditable_eq_ok_iff.1 headed
    obtain ⟨-, ⟨⟩⟩ := ifEditable_eq_ok_iff.1 made
    exact ⟨editable, outside, rfl⟩
  · rintro ⟨editable, outside, rfl⟩
    refine bind_eq_ok_iff.2 ⟨_, ClassDecl.ifOuter_eq_ok_iff.2 ⟨editable, outside, rfl⟩,
      bind_eq_ok_iff.2 ⟨_, ClassDecl.ifOuter_eq_ok_iff.2 ⟨editable, outside, rfl⟩,
      bind_eq_ok_iff.2 ⟨_, ifEditable_eq_ok_iff.2 ⟨editable, rfl⟩, ?_⟩⟩⟩
    exact ifEditable_eq_ok_iff.2 ⟨editable, rfl⟩

end JavaUnit
