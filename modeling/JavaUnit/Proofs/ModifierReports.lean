/-
Module: JavaUnit.Proofs.ModifierReports
Purpose: What is reported about the modifiers of a declaration. Reading a declaration looks at its
  modifiers twice, at their run and when the node is built, and joins the two reports. The joint
  report is told here from the modifiers alone: every repetition, visibilities that differ,
  modifiers that are refused, pairs that exclude each other, and those that exclude a body. A
  declaration that is read without modifiers fails behind modifiers with exactly that report, or is
  the same declaration with those modifiers.
Main exports: Declaration.modifierReport, Reading.Settles, Modified, modifiers_reported
-/
import JavaUnit.Proofs.FileText
import JavaUnit.Proofs.Statements
import Mathlib.Data.List.Induction

namespace JavaUnit

/-! ### The report -/

namespace Modifier

/-- The modifiers at the positions where one stands that stood further in front already. -/
def repeated (given : List Modifier) : List Modifier :=
  (given.zipIdx.filter fun (modifier, position) => modifier ∈ given.take position).map (·.1)

end Modifier

namespace DeclarationKind

/-- The modifiers that a kind of declaration accepts. -/
def modifiersAllowed : DeclarationKind → List Modifier
  | .classDecl => ClassDraft.modifiersAllowed
  | .field => FieldDraft.modifiersAllowed
  | .method => MethodDraft.modifiersAllowed

/-- The modifiers that cannot stand together, in the order of their reports. -/
def conflicts : DeclarationKind → List (Modifier × Modifier)
  | .classDecl => [(.abstract, .final)]
  | .field => [(.final, .volatile)]
  | .method =>
    [(.abstract, .final), (.abstract, .static), (.abstract, .«private»),
      (.abstract, .synchronized), (.abstract, .native)]

/-- What can be read on its own as a kind of declaration: a class is read as a file. -/
def goal : DeclarationKind → Goal
  | .classDecl => .file
  | .field => .field
  | .method => .method

end DeclarationKind

/-- What is wrong with a run of modifiers wherever it stands. -/
def runReport (given : List Modifier) : List Defect :=
  (Modifier.repeated given).map .duplicateModifier
    ++ if 2 ≤ (Modifier.visibilities given).length then
        [.manyVisibilities (Modifier.visibilities given)]
      else []

/-- What a kind of declaration has against modifiers. -/
def kindReport (kind : DeclarationKind) (given : List Modifier) : List Defect :=
  ((Modifier.all.filter fun modifier => modifier ∈ given ∧ modifier ∉ kind.modifiersAllowed).map
      (.forbiddenModifier · kind.nodeKind))
    ++ (kind.conflicts.filter fun (left, right) => left ∈ given ∧ right ∈ given).map
      fun (left, right) => .conflictingModifiers left right

namespace Declaration

/-- What a body has against modifiers. -/
def bodyReport (given : List Modifier) : Declaration → List Defect
  | .method node =>
    if node.body.isSome then
      ([Modifier.abstract, .native].filter (· ∈ given)).map (.bodyOf · node.name)
    else []
  | .classDecl _ | .field _ => []

/-- All that is wrong with modifiers in front of a declaration. -/
def modifierReport (declared : Declaration) (given : List Modifier) : List Defect :=
  runReport given ++ (kindReport declared.kind given ++ declared.bodyReport given)

/-- The declaration with modifiers in place of its own. -/
def withModifiers (set : Modifiers) : Declaration → Declaration
  | .classDecl node => .classDecl { node with modifiers := set }
  | .field node => .field { node with modifiers := set }
  | .method node => .method { node with modifiers := set }

def toNode : Declaration → Node
  | .classDecl node => .classDecl node
  | .field node => .field node
  | .method node => .method node

end Declaration

/-! ### The report of a draft -/

namespace Modifier

variable {given : List Modifier} {modifier : Modifier}

theorem repeatsAfter_concat (earlier : List Modifier) :
    repeatsAfter earlier (given ++ [modifier]) =
      repeatsAfter earlier given ++
        if modifier ∈ earlier ∨ modifier ∈ given then [modifier] else [] := by
  induction given generalizing earlier with
  | nil => by_cases known : modifier ∈ earlier <;> simp [repeatsAfter, known]
  | cons first rest ih =>
      rw [List.cons_append, repeatsAfter, repeatsAfter]
      by_cases known : first ∈ earlier
      · rw [if_pos known, if_pos known, ih, List.cons_append]
        by_cases same : modifier = first
        · simp [same, known]
        · simp [same]
      · rw [if_neg known, if_neg known, ih]
        simp [or_assoc, or_left_comm]

theorem repeated_concat :
    repeated (given ++ [modifier]) =
      repeated given ++ if modifier ∈ given then [modifier] else [] := by
  have front : (given.zipIdx.filter fun (other, position) =>
        other ∈ (given ++ [modifier]).take position) =
      given.zipIdx.filter fun (other, position) => other ∈ given.take position := by
    refine List.filter_congr fun (other, position) mem => ?_
    have inside : position < given.length := by
      have := List.snd_lt_of_mem_zipIdx mem
      simpa using this
    show decide (other ∈ (given ++ [modifier]).take position) = _
    rw [List.take_append_of_le_length (Nat.le_of_lt inside)]
  rw [repeated, repeated, List.zipIdx_append, List.filter_append, List.map_append, front]
  by_cases known : modifier ∈ given <;> simp [known]

/-- Going through the modifiers with those that have been seen finds the repeated ones. -/
theorem repeats_eq (given : List Modifier) : repeats given = repeated given := by
  induction given using List.reverseRecOn with
  | nil => rfl
  | append_singleton given modifier ih =>
      rw [repeated_concat, ← ih, repeats, repeatsAfter_concat, repeats]
      simp

end Modifier

theorem modifierRunDefects_eq (given : List Modifier) :
    modifierRunDefects given = runReport given := by
  rw [modifierRunDefects, runReport, Modifier.repeats_eq, requirement]
  congr 1
  by_cases many : 2 ≤ (Modifier.visibilities given).length
  · rw [if_pos many, if_neg (by simp; omega)]
  · rw [if_neg many, if_pos (by simp; omega)]

theorem conflictDefects_eq (given : List Modifier) (left : Modifier) (others : List Modifier) :
    conflictDefects given left others =
      (((others.map (left, ·)).filter fun (left, right) => left ∈ given ∧ right ∈ given).map
        fun (left, right) => .conflictingModifiers left right) := by
  rw [conflictDefects, List.filter_map, List.map_map]
  by_cases present : left ∈ given
  · simp [present, Function.comp_def]
  · simp [present, Function.comp_def]

theorem modifierDefects_eq (kind : NodeKind) (allowed given : List Modifier) :
    modifierDefects kind allowed given = runReport given ++
      ((Modifier.all.filter fun modifier => modifier ∈ given ∧ modifier ∉ allowed).map
        (.forbiddenModifier · kind)) := by
  rw [modifierDefects, modifierRunDefects_eq, Modifiers.ofList, List.filter_filter]
  simp [and_comm]

/-- What is wrong with a run is not reported again among what a declaration has against it. -/
theorem Declaration.mergeAfter_modifierReport (declared : Declaration) (given : List Modifier) :
    mergeAfter (runReport given) (declared.modifierReport given) =
      declared.modifierReport given := by
  have apart : ∀ defect ∈ kindReport declared.kind given ++ declared.bodyReport given,
      defect ∉ runReport given := by
    intro defect mem run
    have repeats : (∃ modifier, defect = .duplicateModifier modifier) ∨
        ∃ modifiers, defect = .manyVisibilities modifiers := by
      rcases List.mem_append.1 run with run | run
      · obtain ⟨modifier, -, rfl⟩ := List.mem_map.1 run
        exact .inl ⟨modifier, rfl⟩
      · split_ifs at run
        · exact .inr ⟨_, List.mem_singleton.1 run⟩
        · cases run
    rcases List.mem_append.1 mem with mem | mem
    · rcases List.mem_append.1 mem with mem | mem
      · obtain ⟨modifier, -, rfl⟩ := List.mem_map.1 mem
        simp at repeats
      · obtain ⟨pair, -, rfl⟩ := List.mem_map.1 mem
        simp at repeats
    · cases declared with
      | method node =>
          rw [bodyReport] at mem
          split_ifs at mem
          · obtain ⟨modifier, -, rfl⟩ := List.mem_map.1 mem
            simp at repeats
          · cases mem
      | classDecl | field => cases mem
  have none : (runReport given).filter (· ∉ runReport given) = [] :=
    List.filter_eq_nil_iff.2 fun defect mem => by simpa using mem
  have all : (kindReport declared.kind given ++ declared.bodyReport given).filter
      (· ∉ runReport given) = kindReport declared.kind given ++ declared.bodyReport given :=
    List.filter_eq_self.2 fun defect mem => by simpa using apart defect mem
  rw [mergeAfter, modifierReport, List.filter_append, none, all, List.nil_append]

/-- What building looks at first is what a kind of declaration has against its modifiers. -/
theorem modifierDefects_append (kind : DeclarationKind) {left : Modifier} {others : List Modifier}
    (pairs : kind.conflicts = others.map (left, ·)) (given : List Modifier) :
    modifierDefects kind.nodeKind kind.modifiersAllowed given ++ conflictDefects given left others =
      runReport given ++ kindReport kind given := by
  rw [modifierDefects_eq, conflictDefects_eq, kindReport, pairs, List.append_assoc]

/-- A change of what stands in front of a declaration, in its draft and in the node that is built,
that puts modifiers in place of those there and no comment that may not stand there. -/
structure LeadChange where
  draft : LeadDraft → LeadDraft
  node : Lead → Lead
  modifiers : List Modifier
  lead_draft : ∀ lead, (draft lead).lead = node lead.lead
  commentDefects_draft : ∀ {lead}, lead.commentDefects = [] → (draft lead).commentDefects = []
  modifiers_draft : ∀ lead, (draft lead).modifiers = modifiers

namespace LeadChange

/-- Nothing but the modifiers is changed. -/
def ofModifiers (given : List Modifier) : LeadChange where
  draft lead := { lead with modifiers := given }
  node lead := { lead with modifiers := Modifiers.ofList given }
  modifiers := given
  lead_draft _ := rfl
  commentDefects_draft clean := clean
  modifiers_draft _ := rfl

end LeadChange

/-- The draft with something else in front of it. -/
def FieldDraft.changed (change : LeadChange) (draft : FieldDraft) : FieldDraft :=
  { draft with toLeadDraft := change.draft draft.toLeadDraft }

def MethodDraft.changed (change : LeadChange) (draft : MethodDraft) : MethodDraft :=
  { draft with toLeadDraft := change.draft draft.toLeadDraft }

def ClassDraft.changed (change : LeadChange) (draft : ClassDraft) : ClassDraft :=
  { draft with toLeadDraft := change.draft draft.toLeadDraft }

/-- The declaration with something else in front of it. -/
def Declaration.changed (change : LeadChange) : Declaration → Declaration
  | .classDecl node => .classDecl { node with toLead := change.node node.toLead }
  | .field node => .field { node with toLead := change.node node.toLead }
  | .method node => .method { node with toLead := change.node node.toLead }

theorem Declaration.changed_ofModifiers (declared : Declaration) (given : List Modifier) :
    declared.changed (.ofModifiers given) = declared.withModifiers (Modifiers.ofList given) := by
  cases declared <;> rfl

theorem FieldDraft.node_changed (change : LeadChange) (draft : FieldDraft) :
    (draft.changed change).node =
      { draft.node with toLead := change.node draft.node.toLead } := by
  simp only [node, changed, change.lead_draft]

theorem MethodDraft.node_changed (change : LeadChange) (draft : MethodDraft) :
    (draft.changed change).node =
      { draft.node with toLead := change.node draft.node.toLead } := by
  simp only [node, changed, change.lead_draft]
  rfl

theorem ClassDraft.node_changed (change : LeadChange) (draft : ClassDraft) :
    (draft.changed change).node =
      { draft.node with toLead := change.node draft.node.toLead } := by
  simp only [node, changed, change.lead_draft]

theorem MethodDraft.addParameter_changed {change : LeadChange} {draft : MethodDraft}
    (parameters : List Parameter) :
    (parameters.foldl addParameter draft).changed change =
      parameters.foldl addParameter (draft.changed change) :=
  (List.foldl_hom (changed change) fun _ _ => rfl).symm

theorem MethodDraft.addThrows_changed {change : LeadChange} {draft : MethodDraft}
    (types : List Text) :
    (types.foldl addThrows draft).changed change = types.foldl addThrows (draft.changed change) :=
  (List.foldl_hom (changed change) fun _ _ => rfl).symm

/-- The draft of a class with what its head says besides its name. -/
def ClassDraft.ofParts (draft : ClassDraft) (parameters superclass : Option Text)
    (interfaces : List Text) : ClassDraft :=
  let draft := parameters.elim draft draft.withTypeParameters
  let draft := superclass.elim draft draft.withSuperclass
  interfaces.foldl addInterface draft

theorem ClassDraft.ofParts_changed (change : LeadChange) (draft : ClassDraft)
    (parameters superclass : Option Text) (interfaces : List Text) :
    (draft.ofParts parameters superclass interfaces).changed change =
      (draft.changed change).ofParts parameters superclass interfaces := by
  have extended : ∀ draft : ClassDraft, interfaces.foldl addInterface (draft.changed change) =
      (interfaces.foldl addInterface draft).changed change :=
    fun draft => List.foldl_hom (changed change) fun _ _ => rfl
  rw [ofParts, ← extended]
  cases parameters <;> cases superclass <;> rfl

/-- A draft of a field without defects has, with other modifiers, those of the modifiers. -/
theorem FieldDraft.defects_changed {draft : FieldDraft} (clean : draft.defects = [])
    (change : LeadChange) :
    (draft.changed change).defects =
      (Declaration.field draft.node).modifierReport change.modifiers := by
  simp only [defects, List.append_eq_nil_iff] at clean
  obtain ⟨⟨⟨⟨⟨⟨⟨comment, type⟩, name⟩, -⟩, -⟩, typed⟩, named⟩, value⟩ := clean
  have comment' := change.commentDefects_draft comment
  have given := change.modifiers_draft draft.toLeadDraft
  have own : modifierDefects .field modifiersAllowed change.modifiers ++
        conflictDefects change.modifiers .final [.volatile] =
      runReport change.modifiers ++ kindReport .field change.modifiers :=
    modifierDefects_append .field rfl change.modifiers
  rw [changed]
  simp only [defects, comment', given, type, name, typed, named, value, List.nil_append,
    List.append_nil]
  rw [own]
  simp [Declaration.modifierReport, Declaration.bodyReport, Declaration.kind]

/-- The same for a method, whose body has something against modifiers, too. -/
theorem MethodDraft.defects_changed {draft : MethodDraft} (clean : draft.defects = [])
    (change : LeadChange) :
    (draft.changed change).defects =
      (Declaration.method draft.node).modifierReport change.modifiers := by
  simp only [defects, List.append_eq_nil_iff] at clean
  obtain ⟨⟨⟨⟨⟨⟨⟨⟨⟨⟨comment, name⟩, returns⟩, -⟩, -⟩, named⟩, -⟩, bounds⟩, type⟩, parameters⟩,
    throws⟩ := clean
  have comment' := change.commentDefects_draft comment
  have given := change.modifiers_draft draft.toLeadDraft
  have returns' : (draft.changed change).returnTypeDefects = [] := returns
  have type' : (draft.changed change).declaredReturnType.toList.flatMap
      (typeDefects .returnType) = [] := type
  have own : modifierDefects .method modifiersAllowed change.modifiers ++
        conflictDefects change.modifiers .abstract neverAbstract =
      runReport change.modifiers ++ kindReport .method change.modifiers :=
    modifierDefects_append .method rfl change.modifiers
  have body : (draft.changed change).bodyDefects =
      (Declaration.method draft.node).bodyReport change.modifiers := by
    simp [bodyDefects, Declaration.bodyReport, node, changed, given]
  rw [changed] at returns' type' body ⊢
  simp only [defects, comment', given, name, returns', named, bounds, type', parameters, throws,
    List.nil_append, List.append_nil]
  rw [own, body, Declaration.modifierReport, List.append_assoc]
  rfl

/-- The same for a class. -/
theorem ClassDraft.defects_changed {draft : ClassDraft} (clean : draft.defects = [])
    (change : LeadChange) :
    (draft.changed change).defects =
      (Declaration.classDecl draft.node).modifierReport change.modifiers := by
  simp only [defects, List.append_eq_nil_iff] at clean
  obtain ⟨⟨⟨⟨⟨⟨⟨⟨⟨⟨⟨⟨comment, trailing⟩, header⟩, name⟩, named⟩, -⟩, -⟩, inner⟩, ancestor⟩, bounds⟩,
    superclass⟩, interfaces⟩, members⟩ := clean
  have comment' := change.commentDefects_draft comment
  have given := change.modifiers_draft draft.toLeadDraft
  have header' : requirement ((draft.changed change).hasFileScope ||
      !draft.headerComments.any Comment.isDoc) .docHeaderAlone = [] := header
  have inner' : (draft.changed change).innerDefects = [] := inner
  have own : modifierDefects .classDecl modifiersAllowed change.modifiers ++
        conflictDefects change.modifiers .abstract [.final] =
      runReport change.modifiers ++ kindReport .classDecl change.modifiers :=
    modifierDefects_append .classDecl rfl change.modifiers
  rw [changed] at header' inner' ⊢
  simp only [defects, comment', given, trailing, header', name, named, inner', ancestor, bounds,
    superclass, interfaces, members, List.nil_append, List.append_nil]
  rw [own]
  simp [Declaration.modifierReport, Declaration.bodyReport, Declaration.kind]

/-! ### The same declaration with other modifiers -/

namespace Reading

/-- The reading comes to the node if there are no defects, and else fails with them all. -/
def Settles (reading : Reading α) (tokens : List Token) (construct : Construct)
    (defects : List Defect) (node : α) (rest : List Token) : Prop :=
  (defects = [] → reading.Reads tokens node rest []) ∧
    (defects ≠ [] → ∃ failure, reading.Fails tokens failure ∧ failure.construct = construct ∧
      failure.defects = defects)

variable {tokens rest skipped : List Token} {construct : Construct} {defects : List Defect}
  {scope scope' : Scope}

theorem Settles.bind_pure {reading : Reading α} {node : α}
    (h : reading.Settles tokens construct defects node rest) (f : α → β) :
    (reading >>= fun node => pure (f node)).Settles tokens construct defects (f node) rest := by
  refine ⟨fun clean => ?_, fun wrong => ?_⟩
  · exact reads_bind_nil.2 ⟨node, rest, h.1 clean, reads_pure.2 ⟨rfl, rfl, rfl⟩⟩
  · obtain ⟨failure, fails, reported⟩ := h.2 wrong
    exact ⟨failure, fails_bind.2 (.inl fails), reported⟩

/-- What comes in front of a reading that settles. -/
theorem Settles.behind {reading : Reading α} {next : α → Reading β} {value : α} {mid : List Token}
    {node : β} (h : (next value).Settles mid construct defects node rest)
    (reads : reading.Reads tokens value mid []) :
    (reading >>= next).Settles tokens construct defects node rest :=
  ⟨fun clean => reads_bind_nil.2 ⟨value, mid, reads, h.1 clean⟩, fun wrong =>
    let ⟨failure, fails, reported⟩ := h.2 wrong
    ⟨failure, (fails_bind_of reads).2 fails, reported⟩⟩

/-- A construct whose parts are read settles as its draft does. -/
theorem settles_finish {parts : Reading (Attempt α)} {attempt : Attempt α} {kind : NodeKind}
    {node : α} (reads : parts.Reads tokens attempt rest []) (clean : attempt.defects = [])
    (built : attempt.built = settle kind defects node) :
    (finish scope parts).Settles tokens scope.construct defects node rest := by
  refine ⟨fun none => ?_, fun wrong => ?_⟩
  · exact reads_finish.2 ⟨rfl, attempt, reads, clean, built.trans (settle_eq_ok_iff.2 ⟨none, rfl⟩)⟩
  · have both : parts.withSkipped.Reads tokens (attempt, []) rest [] :=
      reads_withSkipped.2 ⟨rfl, reads⟩
    have failed := built.trans (settle_eq_error_iff.2 ⟨wrong, rfl⟩)
    refine ⟨⟨scope, defects, rest⟩, ?_, rfl, rfl⟩
    rw [finish, fails_bind_of both, fails_note_bind]
    simp only [failed, clean]
    exact fails_fail.2 (by simp [mergeAfter])

/-- Attempts at the nodes of two drafts of which the second one is the first one changed. -/
def Apart (build : δ → Except BuildError α) (change : δ → δ) (left right : Attempt α) : Prop :=
  right.defects = left.defects ∧ ∃ draft, left.built = build draft ∧
    right.built = build (change draft)

theorem apart_build {build : δ → Except BuildError α} {change : δ → δ} {draft : δ}
    {noticed : List Defect} {examined examined' : List Text} :
    Apart build change ⟨noticed, examined, build draft⟩ ⟨noticed, examined', build (change draft)⟩ :=
  ⟨rfl, draft, rfl, rfl⟩

/-- Where a construct is read, the same construct of a changed draft settles. -/
theorem settles_of_apart {parts parts' : Reading (Attempt α)} {kind : NodeKind}
    {defects : δ → List Defect} {node : δ → α} {change : δ → δ} {result : α}
    (ends : Ends rest rest (Apart (fun draft => settle kind (defects draft) (node draft)) change)
      parts parts')
    (h : (finish scope parts).Reads tokens result rest skipped) :
    ∃ draft, defects draft = [] ∧ node draft = result ∧
      (finish scope' parts').Settles tokens scope'.construct (defects (change draft))
        (node (change draft)) rest := by
  obtain ⟨-, attempt, reads, clean, built⟩ := reads_finish.1 h
  obtain ⟨front, rfl, -⟩ := reads.advances
  obtain ⟨-, attempt', ⟨same, draft, own, changed⟩, reads'⟩ := @ends front [] attempt [] reads
  obtain ⟨none, is⟩ := settle_eq_ok_iff.1 (own.symm.trans built)
  exact ⟨draft, none, is, settles_finish reads' (same.trans clean) changed⟩

variable {preface preface' : Preface} {change : LeadChange}

/-- A field settles with anything in front of it if it is read with something. -/
theorem settles_field {node : Field} (h : (field preface).Reads tokens node rest skipped)
    (own : preface'.toLeadDraft = change.draft preface.toLeadDraft) :
    (field preface').Settles tokens (.node .field)
      ((Declaration.field node).modifierReport change.modifiers)
      { node with toLead := change.node node.toLead } rest := by
  obtain ⟨parts, parts', whole, whole', ends⟩ : ∃ parts parts',
      field preface = finish (preface.scope .field) parts ∧
      field preface' = finish (preface'.scope .field) parts' ∧
      Ends rest rest (Apart FieldDraft.build (FieldDraft.changed change)) parts parts' := by
    refine ⟨_, _, rfl, rfl, ?_⟩
    rw [own]
    refine steady_type.ends fun type => steady_identifier.ends fun name => ?_
    refine steady_arrayDims.ends fun dims => steady_skipTrivia.ends fun _ => .current fun next => ?_
    refine .ite (fun semicolon => ?_) fun _ => .ite (fun equals => ?_) fun _ => ?_
    · have closes : next.closes = true := Token.closes_iff.2 (.inl semicolon)
      exact (endsAt_advance closes).pure fun _ _ _ => apart_build
    · refine .advance (by simp [Token.isEnd, equals]) ?_
      exact ends_initializer.pure fun _ _ same => same ▸ apart_build
    · exact .ite (fun _ => ends_fail_bind.at next) fun _ => ends_unexpected_bind.at next
  rw [whole] at h
  rw [whole']
  obtain ⟨draft, clean, rfl, settles⟩ := settles_of_apart ends h
  rw [FieldDraft.defects_changed clean, FieldDraft.node_changed] at settles
  exact settles

theorem returnType_changed (draft : MethodDraft) :
    Steady rest rest (fun left right => right = left.changed change) (returnType scope draft)
      (returnType scope' (draft.changed change)) := by
  refine .peekTwo (fun closes second second' => ?_) fun next second =>
    .ite (fun _ => ?_) fun _ => ?_
  · rcases Token.closes_iff.1 closes with kind | kind | kind | kind | kind <;> simp [kind]
  · exact steady_pure rfl
  · exact steady_type.bind fun type => steady_pure rfl

theorem methodBody_changed (name : Text) (draft : MethodDraft) :
    Ends rest rest (fun left right => right = left.changed change)
      (methodBody scope name draft) (methodBody scope' name (draft.changed change)) := by
  refine steady_skipTrivia.ends fun _ => .current fun next => .ite (fun opens => ?_) fun _ => ?_
  · exact (ends_block opens).pure fun _ _ same => same ▸ rfl
  · refine .ite (fun semicolon => ?_) fun _ => ends_unexpected.at next
    exact (endsAt_advance (Token.closes_iff.2 (.inl semicolon))).pure fun _ _ _ => rfl

/-- The same for a method. -/
theorem settles_method {node : Method} (h : (method preface).Reads tokens node rest skipped)
    (own : preface'.toLeadDraft = change.draft preface.toLeadDraft) :
    (method preface').Settles tokens (.node .method)
      ((Declaration.method node).modifierReport change.modifiers)
      { node with toLead := change.node node.toLead } rest := by
  obtain ⟨parts, parts', whole, whole', ends⟩ : ∃ parts parts',
      method preface = finish (preface.scope .method) parts ∧
      method preface' = finish (preface'.scope .method) parts' ∧
      Ends rest rest (Apart MethodDraft.build (MethodDraft.changed change)) parts parts' := by
    refine ⟨_, _, rfl, rfl, ?_⟩
    rw [own]
    refine steady_typeParameters.ends fun bounds => ?_
    let fresh : MethodDraft := { toLeadDraft := preface.toLeadDraft }
    have bounded : (bounds.elim fresh fresh.withTypeParameters).changed change =
        bounds.elim (fresh.changed change) (fresh.changed change).withTypeParameters := by
      cases bounds <;> rfl
    have returned := @returnType_changed rest (preface.scope .method)
      (preface'.scope .method) change (bounds.elim fresh fresh.withTypeParameters)
    rw [bounded] at returned
    refine returned.ends_of (fun draft => ⟨_, rfl⟩) fun draft _ same => ?_
    subst same
    refine steady_identifier.ends fun name => steady_parameters.ends fun parameters => ?_
    refine steady_throwsClause.ends fun types => ?_
    have listed : types.foldl MethodDraft.addThrows (parameters.foldl MethodDraft.addParameter
          ((draft.changed change).withName name)) =
        (types.foldl MethodDraft.addThrows (parameters.foldl MethodDraft.addParameter
          (draft.withName name))).changed change := by
      rw [MethodDraft.addThrows_changed, MethodDraft.addParameter_changed]
      rfl
    rw [listed]
    exact (methodBody_changed name _).pure fun _ _ same => same ▸ apart_build
  rw [whole] at h
  rw [whole']
  obtain ⟨draft, clean, rfl, settles⟩ := settles_of_apart ends h
  rw [MethodDraft.defects_changed clean, MethodDraft.node_changed] at settles
  exact settles

/-- Where two readings read alike, what is made of it may differ. -/
theorem Ends.followed {x y : List Token} {left right : Reading α} {S : γ → δ → Prop}
    {next : α → Reading γ} {next' : α → Reading δ} (h : Ends x y Eq left right)
    (each : ∀ value, ∃ result result', next value = Pure.pure result ∧
      next' value = Pure.pure result' ∧ S result result') :
    Ends x y S (left >>= next) (right >>= next') := by
  intro front back result skipped reads
  obtain ⟨value, mid, first, second, one, two, rfl⟩ := reads_bind.1 reads
  obtain ⟨own, other, is, is', related⟩ := each value
  rw [is] at two
  obtain ⟨rfl, rfl, rfl⟩ := reads_pure.1 two
  obtain ⟨closed, _, rfl, one'⟩ := h one
  refine ⟨closed, other, related, reads_bind.2 ⟨value, _, first, [], one', ?_, rfl⟩⟩
  rw [is']
  exact reads_pure.2 ⟨rfl, rfl, rfl⟩

/-- The same for a class. -/
theorem settles_classRest {nested : Reading Declaration} {inner : Bool} {node : ClassDecl}
    (same : Ends rest rest Eq nested nested)
    (h : (classRest nested preface inner).Reads tokens node rest skipped)
    (own : preface'.toLeadDraft = change.draft preface.toLeadDraft) :
    (classRest nested preface' inner).Settles tokens (.node .classDecl)
      ((Declaration.classDecl node).modifierReport change.modifiers)
      { node with toLead := change.node node.toLead } rest := by
  obtain ⟨parts, parts', whole, whole', ends⟩ : ∃ parts parts',
      classRest nested preface inner = finish (preface.scope .classDecl) parts ∧
      classRest nested preface' inner = finish (preface'.scope .classDecl) parts' ∧
      Ends rest rest (Apart ClassDraft.build (ClassDraft.changed change)) parts parts' := by
    refine ⟨_, _, rfl, rfl, ?_⟩
    rw [own]
    refine steady_bump.ends fun word => steady_identifier.ends fun name => ?_
    refine steady_note.ends fun _ => steady_typeParameters.ends fun parameters => ?_
    refine (Steady.iterate (steady_ancestryClause _ name) _).ends fun ancestry => ?_
    refine (ends_body same name).followed fun items => ?_
    obtain ⟨members, defects⟩ := attach items
    let bare : ClassDraft :=
      { toLeadDraft := preface.toLeadDraft
        kind := if word.keyword? = some .interface then .interface else .class
        inner, members }
    have drawn := (bare.withName name).ofParts_changed change parameters ancestry.superclass
      ancestry.interfaces
    refine ⟨_, _, rfl, rfl, rfl,
      (bare.withName name).ofParts parameters ancestry.superclass ancestry.interfaces, ?_, ?_⟩
    · dsimp only [ClassDraft.ofParts, bare]
    · rw [drawn]
      dsimp only [ClassDraft.ofParts, ClassDraft.changed, bare, ClassDraft.withName]
  rw [whole] at h
  rw [whole']
  obtain ⟨draft, clean, rfl, settles⟩ := settles_of_apart ends h
  rw [ClassDraft.defects_changed clean, ClassDraft.node_changed] at settles
  exact settles

/-- A declaration settles with anything in front of it if it is read with something. -/
theorem settles_declarationOf {inner : Bool} {kind : DeclarationKind} {declared : Declaration}
    (h : (declarationOf nestedDeclaration preface inner kind).Reads tokens declared rest skipped)
    (own : preface'.toLeadDraft = change.draft preface.toLeadDraft) :
    declared.kind = kind ∧
      (declarationOf nestedDeclaration preface' inner kind).Settles tokens (.node kind.nodeKind)
        (declared.modifierReport change.modifiers) (declared.changed change) rest := by
  cases kind with
  | classDecl =>
      obtain ⟨node, mid, first, second, reads, same, -⟩ := reads_bind.1 h
      obtain ⟨rfl, rfl, -⟩ := reads_pure.1 same
      have settles := settles_classRest ends_nestedDeclaration reads own
      exact ⟨rfl, settles.bind_pure Declaration.classDecl⟩
  | field =>
      obtain ⟨node, mid, first, second, reads, same, -⟩ := reads_bind.1 h
      obtain ⟨rfl, rfl, -⟩ := reads_pure.1 same
      exact ⟨rfl, (settles_field reads own).bind_pure Declaration.field⟩
  | method =>
      obtain ⟨node, mid, first, second, reads, same, -⟩ := reads_bind.1 h
      obtain ⟨rfl, rfl, -⟩ := reads_pure.1 same
      exact ⟨rfl, (settles_method reads own).bind_pure Declaration.method⟩

/-! ### Reading modifiers -/

/-- The tokens begin with one that is no white space and no comment, and begins neither an
annotation nor a modifier. -/
structure Unmodified (tokens : List Token) : Prop where
  ink : (currentToken tokens).isWhitespace = false
  clear : (currentToken tokens).isComment = false
  sign : (currentToken tokens).kind ≠ .atSign
  word : (currentToken tokens).keyword?.bind Keyword.modifier? = none

theorem Unmodified.append {tokens : List Token} (h : Unmodified tokens) (present : tokens ≠ [])
    (behind : List Token) : Unmodified (tokens ++ behind) := by
  constructor <;> rw [currentToken_append present]
  exacts [h.ink, h.clear, h.sign, h.word]

theorem Unmodified.matters {tokens : List Token} (h : Unmodified tokens) :
    (currentToken tokens).isTrivia = false :=
  isTrivia_of_clear h.ink h.clear

theorem exists_kind_of_modifier {token : Token} {modifier : Modifier}
    (word : token.keyword?.bind Keyword.modifier? = some modifier) :
    ∃ keyword, token.kind = .keyword keyword := by
  obtain ⟨keyword, found, -⟩ := Option.bind_eq_some_iff.1 word
  exact ⟨keyword, Token.kind_of_keyword? found⟩

section

variable {blanks tokens : List Token} {preface : Preface}

/-- A preface ends where no annotation or modifier begins. -/
theorem reads_prefaceItem_last (blank : ∀ token ∈ blanks, token.isWhitespace = true)
    (bare : Unmodified tokens) :
    (prefaceItem preface).Reads (blanks ++ tokens) (.last preface) tokens [] := by
  have clear := (Bool.or_eq_false_iff.1 bare.clear).1
  rw [prefaceItem, reads_skipWhitespace_bind, List.dropWhile_append_of_pos blank,
    dropWhile_of_current bare.ink, reads_current_bind, if_neg (by simp [clear]),
    if_neg bare.sign, reads_atStaticBlock_bind, reads_ite, bare.word]
  simp [em]

/-- A modifier is added to the preface, unless it is the word in front of a block. -/
theorem reads_prefaceItem_modifier (blank : ∀ token ∈ blanks, token.isWhitespace = true)
    {token : Token} {modifier : Modifier}
    (word : token.keyword?.bind Keyword.modifier? = some modifier)
    (noBlock : (currentToken (significantFrom 0 tokens)).kind ≠ .openBrace) :
    (prefaceItem preface).Reads (blanks ++ token :: tokens) (.again (preface.addModifier modifier))
      tokens [] := by
  obtain ⟨keyword, kind⟩ := exists_kind_of_modifier word
  have matters : token.isTrivia = false := by
    simp [Token.isTrivia, Token.isWhitespace, Token.isPlainComment, kind]
  have inside : token.isEnd = false := by simp [Token.isEnd, kind]
  have ahead : significantFrom 1 (token :: tokens) = significantFrom 0 tokens := by
    simp [significantFrom, matters, inside]
  have here : currentToken (token :: tokens) = token := rfl
  rw [prefaceItem, reads_skipWhitespace_bind, List.dropWhile_append_of_pos blank,
    List.dropWhile_cons_of_neg (by simp [Token.isWhitespace, kind]), reads_current_bind, here,
    if_neg (by simp [Token.isPlainComment, kind]), if_neg (by simp [kind]),
    reads_atStaticBlock_bind, ahead, if_neg (by simp [noBlock]), word, reads_advance_bind, here,
    if_neg (by simp [inside])]
  exact reads_pure.2 ⟨rfl, rfl, rfl⟩

end

end Reading

/-- Tokens of modifiers, with white space around them. -/
inductive Modified : List Modifier → List Token → Prop where
  | nil {blanks} (blank : ∀ token ∈ blanks, token.isWhitespace = true) : Modified [] blanks
  | cons {blanks token modifier given tokens}
      (blank : ∀ token ∈ blanks, token.isWhitespace = true)
      (word : token.keyword?.bind Keyword.modifier? = some modifier)
      (later : Modified given tokens) : Modified (modifier :: given) (blanks ++ token :: tokens)

namespace Modified

variable {given : List Modifier} {front here : List Token}

/-- No modifier stands in front of a block. -/
theorem peek_ne (h : Modified given front) (bare : Reading.Unmodified here)
    (noBlock : (currentToken here).kind ≠ .openBrace) :
    (currentToken (significantFrom 0 (front ++ here))).kind ≠ .openBrace := by
  have skips : ∀ {blanks tokens : List Token}, (∀ token ∈ blanks, token.isWhitespace = true) →
      significantFrom 0 (blanks ++ tokens) = tokens.dropWhile Token.isTrivia := by
    intro blanks tokens blank
    rw [significantFrom_zero_eq, List.dropWhile_append_of_pos fun token mem =>
      Token.isTrivia_iff.2 (.inl (blank token mem))]
  cases h with
  | nil blank => rwa [skips blank, Reading.dropWhile_of_current bare.matters]
  | cons blank word later =>
      obtain ⟨keyword, kind⟩ := Reading.exists_kind_of_modifier word
      rw [List.append_assoc, List.cons_append, skips blank,
        List.dropWhile_cons_of_neg (by simp [Token.isTrivia, Token.isWhitespace,
          Token.isPlainComment, kind])]
      simp [currentToken, kind]

/-- All the modifiers are added to a preface, one by one. -/
theorem reads_modifierRun (h : Modified given front) (bare : Reading.Unmodified here)
    (noBlock : (currentToken here).kind ≠ .openBrace) (preface : Preface) :
    (Reading.modifierRun preface).Reads (front ++ here)
      { preface with modifiers := preface.modifiers ++ given } here [] := by
  induction h generalizing preface with
  | @nil blanks blank =>
      rw [Reading.modifierRun, List.append_nil]
      exact Reading.reads_iterate_last (Reading.reads_prefaceItem_last blank bare)
  | @cons blanks token modifier given tokens blank word later ih =>
      have step := @Reading.reads_prefaceItem_modifier _ (tokens ++ here) preface blank _ _ word
        (later.peek_ne bare noBlock)
      rw [Reading.modifierRun, List.append_assoc, List.cons_append]
      have whole := Reading.reads_iterate_again step (by simp; omega) (ih _)
      simpa [Preface.addModifier] using whole

/-- Behind white space, a declaration and the modifiers in front of it begin with a token that
matters. -/
theorem exists_split (h : Modified given front) (bare : Reading.Unmodified here)
    (starts : Reading.startsOther (currentToken here) = false) :
    ∃ blanks front', front = blanks ++ front' ∧ Modified given front' ∧
      (∀ token ∈ blanks, token.isWhitespace = true) ∧
      (currentToken (front' ++ here)).isWhitespace = false ∧
      (currentToken (front' ++ here)).isComment = false ∧
      Reading.startsOther (currentToken (front' ++ here)) = false := by
  cases h with
  | nil blank => exact ⟨front, [], by simp, .nil (by simp), blank, bare.ink, bare.clear, starts⟩
  | @cons blanks token modifier given tokens blank word later =>
      have alone := @Modified.cons [] token modifier given tokens (by simp) word later
      obtain ⟨keyword, found, spells⟩ := Option.bind_eq_some_iff.1 word
      have kind := Token.kind_of_keyword? found
      refine ⟨blanks, token :: tokens, rfl, alone, blank, ?_, ?_, ?_⟩
      · simp [currentToken, Token.isWhitespace, kind]
      · simp [currentToken, Token.isComment, Token.isPlainComment, kind]
      · simp only [Reading.startsOther, currentToken, List.cons_append, List.head?_cons,
          Option.getD_some, kind]
        cases keyword <;> first | rfl | cases spells

end Modified

namespace Reading

variable {here rest skipped : List Token} {given : List Modifier} {front : List Token}
  {declared : Declaration} {inner : Bool}

/-- What is declared where no modifiers stand begins with something else than a block. -/
theorem exists_declarationOf (bare : Unmodified here) {preface : Preface}
    (h : (declaration preface inner).Reads here declared rest skipped) :
    (currentToken here).kind ≠ .openBrace ∧ classifyTarget here = some declared.kind ∧
      (declarationOf nestedDeclaration preface inner declared.kind).Reads here declared rest
        skipped := by
  obtain ⟨run, mid, passed, later, kind, modified, target, -, reads, rfl⟩ :=
    reads_declarationWith.1 h
  obtain rfl := reads_modifierRun_of_stop bare.matters bare.sign bare.word modified
  have noBlock : (currentToken mid).kind ≠ .openBrace := by
    intro opens
    rw [classifyTarget, significantFrom_zero_eq, dropWhile_of_current bare.matters, opens] at target
    cases target
  have stays := @Modified.reads_modifierRun [] [] mid (.nil (by simp)) bare noBlock preface
  rw [List.append_nil] at stays
  obtain ⟨rfl, -, rfl⟩ := stays.unique modified
  have unchanged : preface.toLeadDraft =
      (LeadChange.ofModifiers preface.modifiers).draft preface.toLeadDraft := rfl
  rw [(settles_declarationOf reads unchanged).1]
  exact ⟨noBlock, target, reads⟩

/-- What is wrong with the run of modifiers is a part of what settling the declaration reports. -/
theorem settles_declared {preface : Preface} {reading : Reading Declaration}
    {result : Declaration} {construct : Construct} {scope : Scope}
    (h : reading.Settles here construct (declared.modifierReport given) result rest)
    (run : preface.allDefects = runReport given) :
    (after preface.allDefects reading >>= fun declared =>
      if preface.allDefects = [] then pure declared
      else fail scope preface.allDefects).Settles here construct (declared.modifierReport given)
      result rest := by
  refine ⟨fun clean => ?_, fun wrong => ?_⟩
  · have none : runReport given = [] := (List.append_eq_nil_iff.1 clean).1
    exact reads_declared.2 ⟨run.trans none, h.1 clean⟩
  · obtain ⟨failure, fails, construct, reported⟩ := h.2 wrong
    refine ⟨failure.mergedAfter preface.allDefects,
      fails_bind.2 (.inl (fails_after.2 ⟨failure, fails, rfl⟩)), construct, ?_⟩
    rw [Failure.mergedAfter, reported, run]
    exact declared.mergeAfter_modifierReport given

/-- Behind modifiers, a declaration settles by what is wrong with them. -/
theorem settles_declaration (modified : Modified given front) (bare : Unmodified here)
    (h : (declaration { start := here } inner).Reads here declared rest skipped)
    (start : List Token) :
    (declaration { start } inner).Settles (front ++ here) (.node declared.kind.nodeKind)
      (declared.modifierReport given) (declared.withModifiers (Modifiers.ofList given)) rest := by
  obtain ⟨noBlock, target, reads⟩ := exists_declarationOf bare h
  let run : Preface := { start, modifiers := given }
  have settles := (@settles_declarationOf _ _ _ _ run (.ofModifiers given) _ _ _ reads rfl).2
  rw [declared.changed_ofModifiers] at settles
  have reported : run.allDefects = runReport given := by
    rw [Preface.allDefects, modifierRunDefects_eq, List.append_nil]
  refine Settles.behind ?_ (modified.reads_modifierRun bare noBlock { start })
  refine Settles.behind ?_ (reads_left.2 ⟨rfl, rfl, rfl⟩)
  refine Settles.behind ?_ ((@reads_note here here [] _ ()).2 ⟨rfl, rfl⟩)
  rw [target]
  exact settles_declared settles reported

/-- The same for a declaration of a kind on its own. -/
theorem settles_declarationAs (modified : Modified given front) (bare : Unmodified here)
    (h : (declaration { start := here } true).Reads here declared rest skipped)
    {wanted : DeclarationKind} {part : Declaration → Option α} {node : α}
    (is : part (declared.withModifiers (Modifiers.ofList given)) = some node) :
    (declarationAs wanted part).Settles (front ++ here) (.node declared.kind.nodeKind)
      (declared.modifierReport given) node rest := by
  obtain ⟨blanks, front', rfl, modified', blank, ink, clear, -⟩ :=
    modified.exists_split bare (start_of_declaration h)
  rw [Token.isComment, Bool.or_eq_false_iff] at clear
  have noDoc : (currentToken (front' ++ here)).kind ≠ .docComment := by simpa using clear.2
  have prefaced : preface.Reads (blanks ++ (front' ++ here)) { start := front' ++ here }
      (front' ++ here) [] := by
    rw [preface, reads_skipWhitespace_bind, List.dropWhile_append_of_pos blank,
      dropWhile_of_current ink, reads_emptyPreface_bind, reads_current_bind,
      if_neg (by simp [clear.1]), reads_pure_bind, reads_current_bind, if_neg noDoc]
    exact reads_pure.2 ⟨rfl, rfl, rfl⟩
  rw [List.append_assoc]
  refine Settles.behind ?_ prefaced
  have settles := settles_declaration modified' bare h (front' ++ here)
  refine ⟨fun clean => reads_bind_nil.2 ⟨_, rest, settles.1 clean, ?_⟩, fun wrong => ?_⟩
  · rw [is]
    exact reads_pure.2 ⟨rfl, rfl, rfl⟩
  · obtain ⟨failure, fails, reported⟩ := settles.2 wrong
    exact ⟨failure, fails_bind.2 (.inl fails), reported⟩

theorem fails_skipWhitespace_bind {next : Unit → Reading α} {tokens : List Token}
    {failure : Failure} :
    (skipWhitespace >>= next).Fails tokens failure ↔
      (next ()).Fails (tokens.dropWhile Token.isWhitespace) failure := by
  have reads : (skipWhitespace >>= pure).Reads tokens () (tokens.dropWhile Token.isWhitespace) [] :=
    reads_skipWhitespace_bind.2 (reads_pure.2 ⟨rfl, rfl, rfl⟩)
  obtain ⟨_, _, reads, same⟩ := reads_bind_nil.1 reads
  obtain ⟨-, rfl, -⟩ := reads_pure.1 same
  exact fails_bind_of reads

theorem fails_current_bind {next : Token → Reading α} {tokens : List Token} {failure : Failure} :
    (current >>= next).Fails tokens failure ↔ (next (currentToken tokens)).Fails tokens failure :=
  fails_bind_of (reads_current.2 ⟨rfl, rfl, rfl⟩)

/-- A file fails as the declaration does that it begins with. -/
theorem fails_compilationUnit_of_declaration {blanks tokens : List Token} {failure : Failure}
    (blank : ∀ token ∈ blanks, token.isWhitespace = true)
    (ink : (currentToken tokens).isWhitespace = false)
    (clear : (currentToken tokens).isComment = false)
    (starts : startsOther (currentToken tokens) = false)
    (h : (declaration { start := tokens } false).Fails tokens failure) :
    compilationUnit.Fails (blanks ++ tokens) failure := by
  rw [Token.isComment, Bool.or_eq_false_iff] at clear
  have noDoc : (currentToken tokens).kind ≠ .docComment := by simpa using clear.2
  simp only [startsOther, List.mem_cons, List.not_mem_nil, or_false, decide_eq_false_iff_not,
    not_or] at starts
  obtain ⟨noSemicolon, noPackage, noImport, inside⟩ := starts
  have outer : (outerDeclaration {}).Fails tokens failure := by
    have begins : emptyPreface.Reads tokens { start := tokens } tokens [] := by
      simp [emptyPreface]
    have only : ∀ both, (iterate prefaceComment both).Reads tokens both tokens [] := by
      intro both
      refine reads_iterate_last ?_
      rw [prefaceComment, reads_skipWhitespace_bind, dropWhile_of_current ink, reads_current_bind,
        if_neg (by simp [clear.1])]
      exact reads_pure.2 ⟨rfl, rfl, rfl⟩
    rw [outerDeclaration, fails_bind_of begins, fails_current_bind, if_neg noDoc,
      fails_bind_of (reads_pure.2 ⟨rfl, rfl, rfl⟩), fails_bind_of (only _)]
    exact fails_bind.2 (.inl h)
  refine fails_compilationUnit_of_item .here ?_
  rw [fileItem, fails_skipWhitespace_bind, List.dropWhile_append_of_pos blank,
    dropWhile_of_current ink, fails_current_bind, if_neg (by simpa [Token.isEnd] using inside),
    if_neg noSemicolon, if_neg (by simp [clear.1]),
    fails_bind_of (reads_peek.2 ⟨rfl, rfl, rfl⟩), if_neg (by simp [noDoc]), if_neg noPackage,
    if_neg noImport]
  exact fails_bind.2 (.inl outer)

/-- The same for a class as a file, with semicolons behind it. -/
theorem settles_compilationUnit {node : ClassDecl} {core others trail : List Token}
    (modified : Modified given front) (bare : Unmodified core) (present : core ≠ [])
    (h : ∀ behind, (declaration { start := core ++ behind } false).Reads (core ++ behind)
      (.classDecl node) behind [])
    (later : Runs others []) (blank : ∀ token ∈ trail, token.isWhitespace = true) :
    compilationUnit.Settles (front ++ (core ++ (others ++ (trail ++ [Token.endOfInput]))))
      (.node .classDecl) ((Declaration.classDecl node).modifierReport given)
      { node with modifiers := Modifiers.ofList given } [Token.endOfInput] := by
  have starts : startsOther (currentToken core) = false := by
    rw [← currentToken_append present []]
    exact start_of_declaration (h [])
  obtain ⟨blanks, front', rfl, modified', blank', ink, clear, starts⟩ :=
    modified.exists_split bare starts
  have same : ∀ behind, currentToken (front' ++ (core ++ behind)) = currentToken (front' ++ core) :=
    fun behind => by
      rw [← List.append_assoc, currentToken_append (List.append_ne_nil_of_right_ne_nil _ present)]
  have settles := fun behind => settles_declaration modified'
    (bare.append present behind) (h behind) (front' ++ (core ++ behind))
  refine ⟨fun clean => ?_, fun wrong => ?_⟩
  · let changed : ClassDecl := { node with modifiers := Modifiers.ofList given }
    obtain ⟨first, last, whole⟩ :=
      List.exists_cons_of_ne_nil (List.append_ne_nil_of_right_ne_nil front' present)
    have alone : ∀ behind, (FileItem.declaration (.classDecl changed)).Read
        (first :: last ++ behind) behind := by
      intro behind
      rw [← whole, List.append_assoc]
      exact (settles behind).1 clean
    rw [whole] at ink clear
    have runs : Runs (blanks ++ (first :: last ++ others)) [.declaration (.classDecl changed)] :=
      .item blank' ink clear alone later
    obtain ⟨unfiled, outside, editable⟩ := @Runs.bare_of_mem _ _ runs changed (by simp)
    have ends : (iterate fileItem
        ([.declaration (.classDecl changed)].foldl FileState.add {})).Reads
          (trail ++ [Token.endOfInput]) { outer := some changed } [Token.endOfInput] [] := by
      refine reads_iterate_last ?_
      rw [reads_fileItem, List.dropWhile_append_of_pos blank]
      exact ⟨rfl, .ends rfl⟩
    have reads := runs.reads_iterate (show FileState.Plain {} from rfl) ends
    rw [← whole] at reads
    refine reads_compilationUnit.2 ⟨_, changed, by simpa using reads, rfl, rfl, ?_⟩
    rw [FileState.attachFile_of_bare unfiled outside editable, unfiled.eq]
  · obtain ⟨failure, fails, reported⟩ := (settles _).2 wrong
    refine ⟨failure, ?_, reported⟩
    rw [List.append_assoc]
    refine fails_compilationUnit_of_declaration blank' ?_ ?_ ?_ fails <;> rwa [same]

end Reading

/-! ### Modifiers in front of a text -/

/-- Modifiers, each with white space behind it. -/
def modifierText (given : List (Modifier × Text)) : Text :=
  given.flatMap fun (modifier, gap) => modifier.text ++ gap

/-- Whether a text begins with the declaration that it holds, and not with an annotation, a modifier
or a stray semicolon. -/
def StartsPlain (text : Text) : Prop :=
  ∀ tokens, lex text = .ok tokens →
    let first := currentToken (tokens.dropWhile Token.isWhitespace)
    first.kind ≠ .atSign ∧ first.kind ≠ .semicolon ∧
      first.keyword?.bind Keyword.modifier? = none

instance (text : Text) : Decidable (StartsPlain text) :=
  decidable_of_iff ((lex text).toOption.all (fun tokens =>
      let first := currentToken (tokens.dropWhile Token.isWhitespace)
      first.kind ≠ .atSign ∧ first.kind ≠ .semicolon ∧
        first.keyword?.bind Keyword.modifier? = none) = true) (by
    cases lexed : lex text <;> simp [StartsPlain, lexed, Except.toOption])

theorem Modifier.exists_keyword (modifier : Modifier) :
    ∃ word : Keyword, word.text = modifier.text ∧ word.modifier? = some modifier := by
  cases modifier
  exacts [⟨.«public», rfl, rfl⟩, ⟨.«protected», rfl, rfl⟩, ⟨.«private», rfl, rfl⟩,
    ⟨.abstract, rfl, rfl⟩, ⟨.default, rfl, rfl⟩, ⟨.static, rfl, rfl⟩, ⟨.final, rfl, rfl⟩,
    ⟨.transient, rfl, rfl⟩, ⟨.volatile, rfl, rfl⟩, ⟨.synchronized, rfl, rfl⟩, ⟨.native, rfl, rfl⟩,
    ⟨.strictfp, rfl, rfl⟩]

/-- Modifiers with white space behind each of them are cut into words and white space. -/
theorem exists_cuts_modifierText {given : List (Modifier × Text)} {lead text blanks : Text}
    (gaps : ∀ pair ∈ given, pair.2 ≠ [] ∧ pair.2.isBlank = true) (leads : lead.isBlank = true)
    (ink : text.head?.all (!isBlank ·) = true) (blank : blanks.isBlank = true) :
    ∃ front, Cuts (blanks ++ (modifierText given ++ (lead ++ text))) front text ∧
      Modified (given.map (·.1)) front := by
  induction given generalizing blanks with
  | nil =>
      have before : Text.isBlank (blanks ++ lead) = true := by
        rw [Text.isBlank_append, blank, leads]
        rfl
      refine ⟨blankTokens (blanks ++ lead), ?_,
        .nil fun _ mem => isWhitespace_of_mem_blankTokens mem⟩
      rw [modifierText, List.flatMap_nil, List.nil_append, ← List.append_assoc]
      exact cuts_blanks before ink
  | cons pair others ih =>
      obtain ⟨modifier, gap⟩ := pair
      rw [List.forall_mem_cons] at gaps
      obtain ⟨⟨some, gapped⟩, gaps⟩ := gaps
      obtain ⟨front, cuts, modified⟩ := ih gaps gapped
      obtain ⟨word, spells, is⟩ := modifier.exists_keyword
      have stops : (gap ++ (modifierText others ++ (lead ++ text))).head?.all (!isWordPart ·) =
          true := by
        obtain ⟨first, rest, rfl⟩ := List.exists_cons_of_ne_nil some
        have white := List.all_eq_true.1 gapped first List.mem_cons_self
        simp [not_isWordPart_of_isBlank white]
      have cut := cut_keyword word stops
      refine ⟨blankTokens blanks ++ ⟨.keyword word, word.text⟩ :: front, ?_,
        .cons (fun _ mem => isWhitespace_of_mem_blankTokens mem) is modified⟩
      have whole : modifierText ((modifier, gap) :: others) ++ (lead ++ text) =
          word.text ++ (gap ++ (modifierText others ++ (lead ++ text))) := by
        simp [modifierText, spells]
      rw [whole]
      exact (cuts_blanks blank (head_of_cut cut rfl)).append (.cons cut cuts)

/-- A text that holds a declaration without modifiers, and else only white space and, behind a
class, semicolons. -/
inductive HoldsOnly (declared : Declaration) : Text → Prop where
  | intro {lead trail core others} (leads : lead.isBlank = true) (trails : trail.isBlank = true)
      (cuts : Cuts (textOf (core ++ others) ++ trail) (core ++ others) trail)
      (present : core ≠ []) (bare : Reading.Unmodified core)
      (reads : ∀ behind, (FileItem.declaration declared).Read (core ++ behind) behind)
      (later : Runs others []) (ends : declared.kind ≠ .classDecl → others = []) :
      HoldsOnly declared (lead ++ (textOf (core ++ others) ++ trail))

section

variable {declared : Declaration} {source : Text}

/-- A declaration that is read behind white space is held by its text. -/
theorem holdsOnly_of_read {tokens rest : List Token} (lexed : lex source = .ok tokens)
    (clear : CommentFree source) (plain : StartsPlain source)
    (reads : (FileItem.declaration declared).Read (tokens.dropWhile Token.isWhitespace) rest)
    (ends : isFinished rest = true) : HoldsOnly declared source := by
  obtain ⟨sign, -, word⟩ := plain tokens lexed
  have noComment := isComment_of_dropWhile (clear tokens lexed)
  have ink := Reading.isWhitespace_of_dropWhile tokens
  have lexed := lex_eq_ok_iff.1 lexed
  rw [← List.takeWhile_append_dropWhile (p := Token.isWhitespace) (l := tokens)] at lexed
  obtain ⟨core, whole, inside⟩ := reads.advances
  rw [whole] at reads lexed sign word noComment ink
  obtain ⟨closed, anywhere⟩ := reads.ends
  obtain ⟨lead, trail, rfl, leads, trails, cuts⟩ := lexed.exists_around
    (fun token mem => List.all_eq_true.1 List.all_takeWhile token mem) inside ends
  rw [currentToken_append closed.ne_nil] at sign word noComment ink
  rw [← List.append_nil core] at cuts ⊢
  exact .intro leads trails cuts closed.ne_nil ⟨ink, noComment, sign, word⟩ anywhere .nil
    fun _ => rfl

/-- A class that is read as a file without anything around it is held by its text. -/
theorem holdsOnly_of_runs {tokens blanks rest : List Token}
    (lexed : lex source = .ok (tokens ++ (blanks ++ rest))) (plain : StartsPlain source)
    (runs : Runs tokens [.declaration declared]) (ends : Trails blanks rest)
    (class_ : declared.kind = .classDecl) : HoldsOnly declared source := by
  obtain ⟨sign, noSemicolon, word⟩ := plain _ lexed
  have lexed := lex_eq_ok_iff.1 lexed
  cases runs with
  | @semicolon before token others _ blank kind later =>
      rw [List.append_assoc, List.dropWhile_append_of_pos blank, List.cons_append,
        List.dropWhile_cons_of_neg (by simp [Token.isWhitespace, kind])] at noSemicolon
      exact absurd kind noSemicolon
  | @item before first front others _ _ blank ink clear reads later =>
      rw [List.append_assoc, List.dropWhile_append_of_pos blank, List.cons_append,
        List.cons_append, List.dropWhile_cons_of_neg (by simp [ink])] at sign word
      have inside : ∀ token ∈ first :: front ++ others, token.isEnd = false := fun token mem =>
        (Runs.item blank ink clear reads later).isEnd_eq_false (List.mem_append_right _ mem)
      have finished : isFinished (blanks ++ rest) = true := by
        have white : (currentToken rest).isWhitespace = false := by
          have ended : (currentToken rest).kind = .eof := by simpa [Token.isEnd] using ends.ends
          simp [Token.isWhitespace, ended]
        rw [isFinished, List.dropWhile_append_of_pos ends.blank, Reading.dropWhile_of_current white]
        exact ends.ends
      rw [List.append_assoc] at lexed
      obtain ⟨lead, trail, rfl, leads, trails, cuts⟩ := lexed.exists_around blank inside finished
      exact .intro leads trails cuts (by simp) ⟨ink, clear, sign, word⟩ reads later
        fun other => absurd class_ other

theorem FileItem.Spells.holdsOnly (h : (FileItem.declaration declared).Spells source)
    (clear : CommentFree source) (plain : StartsPlain source) : HoldsOnly declared source := by
  cases declared with
  | classDecl node =>
      obtain ⟨parsed, package, imports⟩ := h
      obtain ⟨tokens, rest, skipped, lexed, reads, -⟩ := exists_reads_of_parseText parsed
      obtain ⟨front, blanks, rfl, runs, trails⟩ :=
        Reading.exists_runs_of_compilationUnit (clear tokens lexed) package imports reads
      exact holdsOnly_of_runs lexed plain runs trails rfl
  | field node =>
      obtain ⟨tokens, rest, skipped, lexed, reads, ends⟩ := exists_reads_of_parseText h
      obtain ⟨declared, found, declares⟩ := Reading.exists_declared (clear tokens lexed) reads
      obtain rfl : declared = .field node := by
        cases declared <;> simp_all
      obtain ⟨rfl, -⟩ := Reading.accounted_declarationWith Reading.keeps_nestedDeclaration declares
      exact holdsOnly_of_read lexed clear plain
        (Reading.reads_declaration_outside (by simp) declares false) ends
  | method node =>
      obtain ⟨tokens, rest, skipped, lexed, reads, ends⟩ := exists_reads_of_parseText h
      obtain ⟨declared, found, declares⟩ := Reading.exists_declared (clear tokens lexed) reads
      obtain rfl : declared = .method node := by
        cases declared <;> simp_all
      obtain ⟨rfl, -⟩ := Reading.accounted_declarationWith Reading.keeps_nestedDeclaration declares
      exact holdsOnly_of_read lexed clear plain
        (Reading.reads_declaration_outside (by simp) declares false) ends

/-- Behind modifiers, what a text holds is read or reported as its kind of declaration is. -/
theorem HoldsOnly.exists_settles (h : HoldsOnly declared source) {given : List (Modifier × Text)}
    (gaps : ∀ pair ∈ given, pair.2 ≠ [] ∧ pair.2.isBlank = true) :
    ∃ tokens rest, lex (modifierText given ++ source) = .ok tokens ∧ isFinished rest = true ∧
      declared.kind.goal.entry.reading.Settles tokens (.node declared.kind.nodeKind)
        (declared.modifierReport (given.map (·.1)))
        (declared.withModifiers (Modifiers.ofList (given.map (·.1)))).toNode rest := by
  obtain ⟨leads, trails, cuts, present, bare, reads, later, ends⟩ := h
  rename_i lead trail core others
  have ink := (bare.append present others).ink
  have head := cuts.head_of_ink (List.append_ne_nil_of_left_ne_nil present _) ink
  obtain ⟨front, before, modified⟩ := @exists_cuts_modifierText given lead _ [] gaps leads head rfl
  have white : ∀ token ∈ blankTokens trail, token.isWhitespace = true :=
    fun _ mem => isWhitespace_of_mem_blankTokens mem
  have behind : Cuts (trail ++ []) (blankTokens trail) [] := cuts_blanks trails rfl
  rw [List.append_nil] at behind
  have lexed := ((before.append cuts).append behind).lexed .nil
  simp only [List.append_assoc, List.nil_append] at lexed
  have finished : isFinished (blankTokens trail ++ [Token.endOfInput]) = true := by
    rw [isFinished, List.dropWhile_append_of_pos white]
    rfl
  have alone := bare.append present (blankTokens trail ++ [Token.endOfInput])
  cases declared with
  | classDecl node =>
      have settles := Reading.settles_compilationUnit modified bare present reads later white
      exact ⟨_, _, lex_eq_ok_iff.2 lexed, rfl, settles.bind_pure Node.classDecl⟩
  | field node =>
      obtain rfl := ends (by simp [Declaration.kind])
      have declares := Reading.reads_declaration_outside (by simp)
        (reads (blankTokens trail ++ [Token.endOfInput])) true
      have settles : Reading.wholeField.Settles _ _ _ _ _ :=
        Reading.settles_declarationAs modified alone declares rfl
      exact ⟨_, _, lex_eq_ok_iff.2 lexed, finished, settles.bind_pure Node.field⟩
  | method node =>
      obtain rfl := ends (by simp [Declaration.kind])
      have declares := Reading.reads_declaration_outside (by simp)
        (reads (blankTokens trail ++ [Token.endOfInput])) true
      have settles : Reading.wholeMethod.Settles _ _ _ _ _ :=
        Reading.settles_declarationAs modified alone declares rfl
      exact ⟨_, _, lex_eq_ok_iff.2 lexed, finished, settles.bind_pure Node.method⟩

end

/-- Modifiers in front of a declaration that has none are all checked, and what is wrong with them
is reported once: the declaration is read with them if nothing is, and else fails with the whole
report. -/
theorem modifiers_reported {declared : Declaration} {source : Text}
    (spells : (FileItem.declaration declared).Spells source) (clear : CommentFree source)
    (plain : StartsPlain source) {given : List (Modifier × Text)}
    (gaps : ∀ pair ∈ given, pair.2 ≠ [] ∧ pair.2.isBlank = true) (name : Text) :
    let modifiers := given.map (·.1)
    let report := declared.modifierReport modifiers
    let parsed := declared.kind.goal.entry.parseText name (modifierText given ++ source)
    (report = [] →
      parsed = .ok (declared.withModifiers (Modifiers.ofList modifiers)).toNode) ∧
    (report ≠ [] →
      ∃ span, parsed = .error (.parse (.node declared.kind.nodeKind) report span name)) := by
  intro modifiers report parsed
  obtain ⟨tokens, rest, lexed, finished, settles⟩ :=
    (spells.holdsOnly clear plain).exists_settles gaps
  refine ⟨fun clean => ?_, fun wrong => ?_⟩
  · exact Entry.parseText_eq_ok_iff.2 ⟨tokens, lexed,
      Entry.readAll_eq_ok_iff.2 ⟨rest, [], settles.1 clean, finished⟩⟩
  · obtain ⟨failure, fails, construct, defects⟩ := settles.2 wrong
    obtain ⟨span, reported⟩ := Entry.parseText_eq_error lexed fails
    rw [construct, defects] at reported
    exact ⟨span, reported⟩

/-- Modifiers with nearly everything wrong with them that can be. -/
def crowdedModifiers : List (Modifier × Text) :=
  [(.abstract, [' ']), (.«public», ['\t']), (.final, [' ']), (.abstract, ['\n', ' ']),
    (.«private», [' ']), (.transient, [' ']), (.abstract, ['\n'])]

/-- What is wrong with them in front of a method with a body. -/
def crowdedReport : List Defect :=
  [.duplicateModifier .abstract, .duplicateModifier .abstract,
    .manyVisibilities [.«public», .«private»], .forbiddenModifier .transient .method,
    .conflictingModifiers .abstract .final, .conflictingModifiers .abstract .«private»,
    .bodyOf .abstract ['f']]

/-- A method behind them, and a field behind modifiers that it accepts. -/
theorem modifiers_reported_crowded :
    (∀ pair ∈ crowdedModifiers, pair.2 ≠ [] ∧ Text.isBlank pair.2 = true) ∧
    (∃ node span, Entry.method.parseText defaultName "void f() \x7b \x7d".toList = .ok node ∧
      Goal.method.entry.parseText [] ("abstract public\tfinal abstract\n private ".toList
          ++ "transient abstract\nvoid f() \x7b \x7d".toList) =
        .error (.parse (.node .method) crowdedReport span [])) ∧
    (∃ node : Field, Entry.field.parseText defaultName " int x = 1;".toList = .ok node ∧
      Goal.field.entry.parseText [] "final static  int x = 1;".toList =
        .ok (.field { node with modifiers := Modifiers.ofList [.static, .final] })) := by
  have gaps : ∀ pair ∈ crowdedModifiers, pair.2 ≠ [] ∧ Text.isBlank pair.2 = true := by
    decide +kernel
  refine ⟨gaps, ?_, ?_⟩
  · have parsed : ((Entry.method.parseText defaultName "void f() \x7b \x7d".toList).toOption.map
        fun node => (node.name, node.body.isSome)) = some (['f'], true) := by decide +kernel
    obtain ⟨node, is, parts⟩ := Option.map_eq_some_iff.1 parsed
    obtain ⟨name, body⟩ := Prod.mk.inj parts
    have report : (Declaration.method node).modifierReport (crowdedModifiers.map (·.1)) =
        crowdedReport := by
      rw [Declaration.modifierReport, Declaration.bodyReport, body, name]
      show _ ++ (kindReport .method _ ++ _) = _
      decide +kernel
    have spells : (FileItem.declaration (.method node)).Spells "void f() \x7b \x7d".toList :=
      eq_ok_of_toOption is
    obtain ⟨span, reported⟩ :=
      (modifiers_reported spells (by decide +kernel) (by decide +kernel) gaps []).2
        (by rw [report]; decide)
    rw [report] at reported
    exact ⟨node, span, eq_ok_of_toOption is, reported⟩
  · have parsed : ((Entry.field.parseText defaultName " int x = 1;".toList).toOption.map
        fun _ => ()) = some () := by decide +kernel
    obtain ⟨node, is, -⟩ := Option.map_eq_some_iff.1 parsed
    let accepted : List (Modifier × Text) := [(.final, [' ']), (.static, [' '])]
    have gaps : ∀ pair ∈ accepted, pair.2 ≠ [] ∧ Text.isBlank pair.2 = true := by decide +kernel
    have report : (Declaration.field node).modifierReport (accepted.map (·.1)) = [] := by
      show runReport [.final, .static] ++ (kindReport .field [.final, .static] ++ []) = []
      decide +kernel
    have spells : (FileItem.declaration (.field node)).Spells " int x = 1;".toList :=
      eq_ok_of_toOption is
    have read :=
      (modifiers_reported spells (by decide +kernel) (by decide +kernel) gaps []).1 report
    exact ⟨node, eq_ok_of_toOption is, read⟩

end JavaUnit
