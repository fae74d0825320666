/-
Module: JavaUnit.Proofs.Origins
Purpose: Whatever is read is made in the ways of reading. What a reading gives is told along the
  combinators that it is made of, without looking at the tokens in front of it.
Main exports: Reading.Gives, Reading.Gives.bind, Reading.Gives.finish, Reading.Gives.iterate,
  Reading.gives_declaration, Reading.gives_compilationUnit, Goal.made_of_read
-/
import JavaUnit.Proofs.CommentAccounting
import JavaUnit.Proofs.FileOrder
import JavaUnit.Proofs.Making

namespace JavaUnit

namespace Reading

/-! ### What a reading gives -/

/-- Whatever the reading reads has a property. -/
def Gives (reading : Reading α) (P : α → Prop) : Prop :=
  ∀ ⦃tokens value rest skipped⦄, reading.Reads tokens value rest skipped → P value

section

variable {reading : Reading α} {P : α → Prop} {R : β → Prop} {scope : Scope}

theorem gives_pure {value : α} (h : P value) : (pure value : Reading α).Gives P := by
  intro tokens result rest skipped reads
  obtain ⟨rfl, -, -⟩ := reads_pure.1 reads
  exact h

theorem gives_fail {defects : List Defect} : (fail scope defects : Reading α).Gives P :=
  fun _ _ _ _ reads => absurd reads not_reads_fail

theorem gives_unexpected {what : Expectation} : (unexpected scope what : Reading α).Gives P :=
  fun _ _ _ _ reads => absurd reads not_reads_unexpected

/-- Two readings in a row give what the second gives for anything that the first can give. -/
theorem Gives.bind {next : α → Reading β} (h : reading.Gives P)
    (later : ∀ value, P value → (next value).Gives R) : (reading >>= next).Gives R := by
  intro tokens result rest skipped reads
  obtain ⟨value, mid, first, second, one, other, -⟩ := reads_bind.1 reads
  exact later value (h one) other

/-- Behind a reading of which nothing need be known. -/
theorem gives_bind {next : α → Reading β} (later : ∀ value, (next value).Gives R) :
    (reading >>= next).Gives R :=
  Gives.bind (P := fun _ => True) (fun _ _ _ _ _ => trivial) fun value _ => later value

theorem gives_fail_bind {defects : List Defect} {next : α → Reading β} :
    (fail scope defects >>= next).Gives R :=
  fun _ _ _ _ reads => absurd reads not_reads_fail_bind

theorem gives_unexpected_bind {what : Expectation} {next : α → Reading β} :
    (unexpected scope what >>= next).Gives R :=
  fun _ _ _ _ reads => absurd reads not_reads_unexpected_bind

theorem Gives.ite {condition : Prop} [Decidable condition] {other : Reading α}
    (h : reading.Gives P) (h' : other.Gives P) : (if condition then reading else other).Gives P := by
  split
  · exact h
  · exact h'

/-- What is read is changed, not how it is read. -/
theorem reads_map {f : α → β} {tokens rest skipped : List Token} {value : β} :
    (f <$> reading).Reads tokens value rest skipped ↔
      ∃ inner, reading.Reads tokens inner rest skipped ∧ f inner = value := by
  constructor
  · intro reads
    obtain ⟨inner, mid, first, second, one, other, rfl⟩ := reads_bind.1 reads
    obtain ⟨rfl, rfl, rfl⟩ := reads_pure.1 other
    exact ⟨inner, by rwa [List.append_nil], rfl⟩
  · rintro ⟨inner, one, rfl⟩
    exact reads_bind.2 ⟨inner, rest, skipped, [], one, reads_pure.2 ⟨rfl, rfl, rfl⟩,
      (List.append_nil _).symm⟩

theorem Gives.map (f : α → β) (h : reading.Gives fun value => R (f value)) :
    (f <$> reading).Gives R :=
  h.bind fun _ holds => gives_pure holds

/-- Reports in front of a failure do not change what is read when there is none. -/
theorem Gives.after {leading : List Defect} (h : reading.Gives P) :
    (Reading.after leading reading).Gives P :=
  fun _ _ _ _ reads => h (reads_after.1 reads)

/-- A construct is what its draft builds. -/
theorem Gives.finish {parts : Reading (Attempt α)}
    (h : parts.Gives fun attempt => ∀ node, attempt.built = .ok node → P node) :
    (Reading.finish scope parts).Gives P := by
  intro tokens node rest skipped reads
  obtain ⟨-, attempt, one, -, built⟩ := reads_finish.1 reads
  exact h one node built

/-- What every step of a repetition preserves holds at its end. -/
theorem Gives.iterate {step : α → Reading (Turn α)} {state : α} (start : P state)
    (h : ∀ state, P state → (step state).Gives fun turn => P turn.state) :
    (Reading.iterate step state).Gives P := by
  intro tokens last rest skipped reads
  obtain ⟨before, mid, _, _, inv, -, last⟩ := reads_iterate reads
    (fun state _ _ => P state) start (fun inv one => h _ inv one)
  rcases last with ends | ⟨stalls, -⟩
  · exact h before inv ends
  · exact h before inv stalls

/-- What contains itself is told from its body. -/
theorem Gives.recurse {stalled : Reading α} {body : Reading α → Reading α}
    (blocked : ∀ {tokens value rest skipped}, ¬ stalled.Reads tokens value rest skipped)
    (h : ∀ nested : Reading α, nested.Gives P → (body nested).Gives P) :
    (Reading.recurse stalled body).Gives P := by
  intro tokens value rest skipped reads
  refine reads_recurse (fun _ value _ _ => P value) blocked ?_ reads
  intro nested inside tokens value rest skipped
  exact @h nested (fun _ _ _ _ reads => inside reads) tokens value rest skipped

end

/-! ### Statements, comments and annotations -/

/-- A statement that is read is one that its builder builds. -/
theorem gives_packageStatement : packageStatement.Gives fun node => Made (.packageStatement node) :=
  gives_bind fun _ => .finish <| gives_bind fun _ => gives_bind fun _ => gives_bind fun _ =>
    gives_pure fun _ built => .of_built (.packageStatement built) rfl trivial

theorem gives_importStatement : importStatement.Gives fun node => Made (.importStatement node) := by
  -- Whatever stands in front of the semicolon, an import is built behind it.
  have built : ∀ (scope : Scope) (isWildcard isStatic : Bool) (name : Text),
      (do
        expect scope .semicolon .semicolon
        let draft := ((ImportDraft.withName {} name).withStatic isStatic).withWildcard isWildcard
        return { built := draft.build } : Reading (Attempt Import)).Gives fun attempt =>
          ∀ node, attempt.built = .ok node → Made (.importStatement node) :=
    fun _ _ _ _ => gives_bind fun _ => gives_pure fun _ built =>
      .of_built (.importStatement built) rfl trivial
  refine gives_bind fun scope => .finish <| gives_bind fun _ => gives_bind fun _ =>
    .ite (gives_bind fun _ => ?_) ?_
  all_goals
    exact gives_bind fun name => gives_bind fun _ => gives_bind fun _ => .ite
      (gives_bind fun _ => gives_bind fun _ => built scope _ _ name) (built scope _ _ name)

theorem gives_comment : comment.Gives fun node => Made (.comment node) := by
  intro tokens node rest skipped reads
  obtain ⟨-, token, draft, -, draws, built⟩ := reads_comment.1 reads
  have lined := CommentDraft.lined_of_build (CommentDraft.plain_of_draws draws) built
  exact .of_built (.comment built) rfl lined

theorem gives_javadoc : javadoc.Gives fun node => Made (.javadoc node) := by
  intro tokens node rest skipped reads
  obtain ⟨-, _, -, -, -, built⟩ := reads_javadoc.1 reads
  exact .of_built (.javadoc built) rfl trivial

end Reading

def AnnotationDraft.Unnamed (draft : AnnotationDraft) : Prop :=
  draft.canonicalName = []

namespace Reading

/-- Reading values does not name an annotation. -/
theorem gives_annotationParam {scope : Scope} {draft : AnnotationDraft} (unnamed : draft.Unnamed) :
    (annotationParam scope draft).Gives fun turn => turn.state.Unnamed := by
  have closed : ∀ draft : AnnotationDraft, draft.Unnamed →
      (do
        let closing ← bump
        if closing.kind = .comma then return .again draft
        else if closing.kind = .closeParen then return .last draft
        else unexpected scope .commaOrCloseParen : Reading (Turn AnnotationDraft)).Gives
          fun turn => turn.state.Unnamed :=
    fun _ unnamed => gives_bind fun _ => .ite (gives_pure unnamed)
      (.ite (gives_pure unnamed) gives_unexpected)
  have added : ∀ param : AnnotationParam,
      AnnotationDraft.Unnamed { draft with params := draft.params ++ [param] } := fun _ => unnamed
  exact gives_bind fun _ => gives_bind fun _ => .ite
    (gives_bind fun _ => gives_bind fun _ => gives_bind fun _ => (gives_pure (added _)).bind closed)
    (gives_bind fun _ => (gives_pure (added _)).bind closed)

/-- An annotation is read without a canonical name, which only a pass over its class gives it. -/
theorem gives_annotationUse : annotationUse.Gives fun node => Made (.annotationUse node) := by
  have built : ∀ draft : AnnotationDraft, draft.Unnamed →
      (pure { examined := draft.examined, built := draft.build } :
        Reading (Attempt Annotation)).Gives fun attempt =>
          ∀ node, attempt.built = .ok node → Made (.annotationUse node) := by
    refine fun draft unnamed => gives_pure fun node built => ?_
    obtain ⟨-, rfl⟩ := settle_eq_ok_iff.1 built
    exact .of_built (.annotationUse built) rfl unnamed
  refine gives_bind fun scope => .finish <| gives_bind fun _ => gives_bind fun _ => .ite
    gives_fail_bind ?_
  refine gives_bind fun name => ?_
  have plain : (AnnotationDraft.withName {} name).Unnamed := rfl
  exact gives_bind fun _ => .ite
    (gives_bind fun _ => gives_bind fun _ => .ite ((gives_pure plain).bind built)
      (.bind (.iterate plain fun _ => gives_annotationParam) built))
    ((gives_pure plain).bind built)

end Reading

/-! ### In front of a declaration -/

/-- What stands in front of a declaration, or waits for one, is made. -/
structure FrontMade (sectionComment : Option Comment) (javadoc : Option Javadoc)
    (annotations : List Annotation) : Prop where
  comment : ∀ node ∈ sectionComment, Made (.comment node)
  javadoc : ∀ node ∈ javadoc, Made (.javadoc node)
  annotations : ∀ node ∈ annotations, Made (.annotationUse node)

namespace FrontMade

variable {sectionComment : Option Comment} {javadoc : Option Javadoc}
  {annotations : List Annotation}

/-- Nothing at all is in front of the declaration. -/
theorem none : FrontMade none none [] :=
  ⟨nofun, nofun, nofun⟩

theorem withComment (h : FrontMade sectionComment javadoc annotations) {node : Comment}
    (made : Made (.comment node)) : FrontMade (some node) javadoc annotations :=
  ⟨fun _ mem => Option.some.inj mem ▸ made, h.javadoc, h.annotations⟩

theorem withJavadoc (h : FrontMade sectionComment javadoc annotations) {node : Javadoc}
    (made : Made (.javadoc node)) : FrontMade sectionComment (some node) annotations :=
  ⟨h.comment, fun _ mem => Option.some.inj mem ▸ made, h.annotations⟩

theorem addAnnotation (h : FrontMade sectionComment javadoc annotations) {node : Annotation}
    (made : Made (.annotationUse node)) :
    FrontMade sectionComment javadoc (annotations ++ [node]) :=
  ⟨h.comment, h.javadoc,
    List.forall_mem_append.2 ⟨h.annotations, List.forall_mem_singleton.2 made⟩⟩

end FrontMade

/-- What stands in front of a declaration is what its lead owns. -/
theorem Lead.frontMade_iff {lead : Lead} :
    FrontMade lead.sectionComment lead.javadoc lead.annotations ↔
      ∀ part ∈ lead.owned, Made part := by
  constructor
  · rintro ⟨comment, javadoc, annotations⟩ part mem
    simp only [Lead.owned, List.mem_append, List.mem_map, Option.mem_toList] at mem
    rcases mem with (⟨node, mem, rfl⟩ | ⟨node, mem, rfl⟩) | ⟨node, mem, rfl⟩
    · exact comment node mem
    · exact javadoc node mem
    · exact annotations node mem
  · intro parts
    exact ⟨fun node mem => parts _ (by simpa [Lead.owned] using mem),
      fun node mem => parts _ (by simpa [Lead.owned] using mem),
      fun node mem => parts _ (by simpa [Lead.owned] using mem)⟩

/-- What stands in front of the preface of a declaration is made. -/
def Preface.FrontMade (preface : Preface) : Prop :=
  JavaUnit.FrontMade preface.sectionComment preface.javadoc preface.annotations

theorem Preface.FrontMade.addComment {preface : Preface} (h : preface.FrontMade) {node : Comment}
    (made : Made (.comment node)) : (preface.addComment node).FrontMade := by
  rw [Preface.addComment]
  split
  · exact h
  · exact h.withComment made

namespace Reading

/-- Whatever a turn adds to a preface is a node that was read. -/
theorem gives_prefaceItem {preface : Preface} (front : preface.FrontMade) :
    (prefaceItem preface).Gives fun turn => turn.state.FrontMade := by
  refine gives_bind fun _ => gives_bind fun token => .ite
    (gives_comment.bind fun node made => gives_pure (front.addComment made)) <| .ite
    (gives_annotationUse.bind fun node made => gives_pure (front.addAnnotation made)) <|
    gives_bind fun _ => .ite (gives_pure front) ?_
  split
  · exact gives_bind fun _ => gives_pure front
  · exact gives_pure front

theorem gives_modifierRun {preface : Preface} (front : preface.FrontMade) :
    (modifierRun preface).Gives Preface.FrontMade :=
  .iterate front fun _ => gives_prefaceItem

theorem gives_emptyPreface : emptyPreface.Gives Preface.FrontMade :=
  gives_bind fun _ => gives_pure .none

/-- All that is read in front of a declaration is made in the ways of reading. -/
theorem gives_preface : preface.Gives Preface.FrontMade := by
  have documented : ∀ start : Preface, start.FrontMade →
      (do
        if (← current).kind = .docComment then
          return { start with javadoc := some (← javadoc) }
        else
          return start : Reading Preface).Gives Preface.FrontMade :=
    fun start front => gives_bind fun _ => .ite
      (gives_javadoc.bind fun _ made => gives_pure (front.withJavadoc made)) (gives_pure front)
  refine gives_bind fun _ => gives_emptyPreface.bind fun start front => gives_bind fun _ => .ite
    (gives_comment.bind fun node made => gives_bind fun _ => ?_)
    ((gives_pure front).bind documented)
  have with_ : Preface.FrontMade { start with sectionComment := some node } := front.withComment made
  exact (gives_pure with_).bind documented

end Reading

/-! ### Fields, methods and static blocks -/

def FieldDraft.PartsMade (draft : FieldDraft) : Prop :=
  FrontMade draft.sectionComment draft.javadoc draft.annotations

theorem FieldDraft.PartsMade.made {draft : FieldDraft} (h : draft.PartsMade) {node : Field}
    (built : draft.build = .ok node) : Made (.field node) := by
  refine .built (.field built) trivial ?_
  obtain ⟨-, rfl⟩ := settle_eq_ok_iff.1 built
  exact Lead.frontMade_iff.1 h

def Parameter.PartsMade (parameter : Parameter) : Prop :=
  ∀ node ∈ parameter.annotations, Made (.annotationUse node)

structure MethodDraft.PartsMade (draft : MethodDraft) : Prop where
  front : FrontMade draft.sectionComment draft.javadoc draft.annotations
  parameters : ∀ parameter ∈ draft.parameters, parameter.PartsMade

namespace MethodDraft.PartsMade

variable {draft : MethodDraft}

/-- A method is made if its annotations and comments are, and those of its parameters. -/
theorem made (h : draft.PartsMade) {node : Method} (built : draft.build = .ok node) :
    Made (.method node) := by
  refine .built (.method built) trivial fun part mem => ?_
  obtain ⟨-, rfl⟩ := settle_eq_ok_iff.1 built
  rcases List.mem_append.1 mem with front | inside
  · exact Lead.frontMade_iff.1 h.front part front
  · obtain ⟨used, used_mem, rfl⟩ := List.mem_map.1 inside
    obtain ⟨_, among, here⟩ := List.mem_flatMap.1 used_mem
    obtain ⟨parameter, given, rfl⟩ := List.mem_map.1 among
    exact h.parameters parameter given used here

theorem withTypeParameters (h : draft.PartsMade) (text : Option Text) :
    (text.elim draft draft.withTypeParameters).PartsMade := by
  cases text with
  | none => exact h
  | some => exact ⟨h.front, h.parameters⟩

theorem addParameters (h : draft.PartsMade) {parameters : List Parameter}
    (made : ∀ parameter ∈ parameters, parameter.PartsMade) :
    (parameters.foldl MethodDraft.addParameter draft).PartsMade := by
  induction parameters generalizing draft with
  | nil => exact h
  | cons first rest ih =>
      rw [List.forall_mem_cons] at made
      exact ih ⟨h.front, List.forall_mem_append.2
        ⟨h.parameters, List.forall_mem_singleton.2 made.1⟩⟩ made.2

theorem addThrows (h : draft.PartsMade) (types : List Text) :
    (types.foldl MethodDraft.addThrows draft).PartsMade := by
  induction types generalizing draft with
  | nil => exact h
  | cons first rest ih => exact ih ⟨h.front, h.parameters⟩

end MethodDraft.PartsMade

namespace Reading

/-- A field is built from what its preface holds and from texts. -/
theorem gives_field {preface : Preface} (front : preface.FrontMade) :
    (field preface).Gives fun node => Made (.field node) := by
  have built : ∀ draft : FieldDraft, draft.PartsMade →
      (pure { examined := draft.examined, built := draft.build } :
        Reading (Attempt Field)).Gives fun attempt =>
          ∀ node, attempt.built = .ok node → Made (.field node) :=
    fun _ parts => gives_pure fun _ built => parts.made built
  refine .finish <| gives_bind fun type => gives_bind fun name => gives_bind fun dims =>
    gives_bind fun _ => gives_bind fun _ => .ite
    (gives_bind fun _ => .bind (P := FieldDraft.PartsMade) (gives_pure ?_) built) <| .ite
    (gives_bind fun _ => gives_bind fun value =>
      .bind (P := FieldDraft.PartsMade) (gives_pure ?_) built) <| .ite
    gives_fail_bind gives_unexpected_bind
  · exact front
  · exact front

theorem gives_parameter {scope : Scope} : (parameter scope).Gives Parameter.PartsMade := by
  refine .bind (P := Parameter.PartsMade) (.iterate nofun fun parameter parts => ?_)
    fun parameter parts => gives_bind fun _ => gives_bind fun _ => gives_bind fun _ =>
      gives_pure parts
  refine gives_bind fun _ => gives_bind fun _ => .ite
    (gives_annotationUse.bind fun used made => gives_pure <|
      List.forall_mem_append.2 ⟨parts, List.forall_mem_singleton.2 made⟩) <| .ite
    (gives_bind fun _ => gives_pure parts) (gives_pure parts)

/-- The annotations of parameters are read, like all others. -/
theorem gives_parameters {scope : Scope} :
    (parameters scope).Gives fun parameters => ∀ parameter ∈ parameters, parameter.PartsMade := by
  refine gives_bind fun _ => gives_bind fun _ => .ite (gives_pure nofun) <|
    .iterate nofun fun parameters parts => gives_parameter.bind fun parameter made => ?_
  have both : ∀ other ∈ parameters ++ [parameter], other.PartsMade :=
    List.forall_mem_append.2 ⟨parts, List.forall_mem_singleton.2 made⟩
  exact gives_bind fun _ => .ite (gives_pure both) (gives_bind fun _ => gives_pure both)

theorem gives_returnType {scope : Scope} {draft : MethodDraft} (parts : draft.PartsMade) :
    (returnType scope draft).Gives MethodDraft.PartsMade :=
  gives_bind fun _ => gives_bind fun _ => .ite (gives_pure ⟨parts.front, parts.parameters⟩)
    (gives_bind fun _ => gives_pure ⟨parts.front, parts.parameters⟩)

theorem gives_methodBody {scope : Scope} {name : Text} {draft : MethodDraft}
    (parts : draft.PartsMade) : (methodBody scope name draft).Gives MethodDraft.PartsMade :=
  gives_bind fun _ => gives_bind fun _ => .ite
    (gives_bind fun _ => gives_pure ⟨parts.front, parts.parameters⟩) <| .ite
    (gives_bind fun _ => gives_pure ⟨parts.front, parts.parameters⟩) gives_unexpected

/-- A method is built from its preface, its parameters and texts. -/
theorem gives_method {preface : Preface} (front : preface.FrontMade) :
    (method preface).Gives fun node => Made (.method node) := by
  have start : ({ toLeadDraft := preface.toLeadDraft } : MethodDraft).PartsMade := ⟨front, nofun⟩
  refine .finish <| gives_bind fun bounds =>
    (gives_returnType (start.withTypeParameters bounds)).bind fun draft typed =>
    gives_bind fun name => gives_parameters.bind fun parameters made => gives_bind fun types => ?_
  have named : (draft.withName name).PartsMade := ⟨typed.front, typed.parameters⟩
  exact (gives_methodBody ((named.addParameters made).addThrows types)).bind fun _ whole =>
    gives_pure fun _ built => whole.made built

theorem gives_staticBlock : staticBlock.Gives fun node => Made (.staticBlock node) :=
  gives_bind fun _ => .finish <| gives_bind fun _ => gives_bind fun _ => gives_bind fun _ => .ite
    (gives_bind fun _ => gives_pure fun _ built => .of_built (.staticBlock built) rfl trivial)
    gives_unexpected

end Reading

/-! ### Members -/

/-- What waits for a member is made. -/
def Pending.FrontMade (pending : Pending) : Prop :=
  JavaUnit.FrontMade pending.sectionComment pending.javadoc pending.annotations

/-- What stands in front of a made declaration is made. -/
theorem Made.front {node : Node} (made : Made node) {lead : Lead} (leads : node.lead? = some lead) :
    JavaUnit.FrontMade lead.sectionComment lead.javadoc lead.annotations := by
  refine Lead.frontMade_iff.2 fun part mem => made.parts part ?_
  cases node with
  | field node =>
      cases leads
      exact mem
  | method node =>
      cases leads
      exact List.mem_append_left _ mem
  | classDecl node =>
      cases leads
      exact ClassDecl.mem_owned.2 (.inl mem)
  | _ => cases leads

theorem Member.lead_toNode (member : Member) : member.toNode.lead? = member.lead? := by
  cases member <;> rfl

/-- A made declaration is made with other things in front of it. -/
theorem Made.withLead {member : Member} (made : Made (.member member)) {lead after : Lead}
    (leads : member.lead? = some lead) (replaces : after.Replaces lead)
    (parts : ∀ part ∈ after.owned, Made part) : Made (.member (member.withLead after)) := by
  rw [Made.member_iff] at made ⊢
  cases member with
  | field node =>
      obtain rfl := Option.some.inj leads
      exact .field made replaces parts
  | method node =>
      obtain rfl := Option.some.inj leads
      exact .method made replaces parts
  | classDecl head members =>
      obtain rfl := Option.some.inj leads
      exact .classDecl made replaces parts
  | staticBlock | comment => cases leads

namespace Pending.FrontMade

variable {pending : Pending}

/-- What waits is made, and so it still is in front of a lead that is. -/
theorem onLead (front : pending.FrontMade) {lead : Lead}
    (own : JavaUnit.FrontMade lead.sectionComment lead.javadoc lead.annotations) :
    JavaUnit.FrontMade (pending.onLead lead).sectionComment (pending.onLead lead).javadoc
      (pending.onLead lead).annotations where
  comment node mem := by
    rcases Option.or_eq_some_iff.1 mem with waits | ⟨-, stands⟩
    · exact front.comment node waits
    · exact own.comment node stands
  javadoc node mem := by
    rcases Option.or_eq_some_iff.1 mem with waits | ⟨-, stands⟩
    · exact front.javadoc node waits
    · exact own.javadoc node stands
  annotations := List.forall_mem_append.2 ⟨front.annotations, own.annotations⟩

/-- A made member that takes what waits is made. -/
theorem onMember (front : pending.FrontMade) {member result : Member} (made : Made (.member member))
    (h : pending.onMember member = .ok result) : Made (.member result) := by
  cases leads : member.lead? with
  | some lead =>
      obtain ⟨-, plain, rfl⟩ := (Pending.onMember_eq_ok_iff leads).1 h
      have node := Made.member_iff.1 made
      have stands : member.toNode.lead? = some lead := member.lead_toNode.trans leads
      refine made.withLead leads ⟨?_, rfl⟩ (Lead.frontMade_iff.1 (front.onLead (node.front stands)))
      cases waits : pending.sectionComment with
      | none => simpa [Pending.onLead, waits] using node.plain stands
      | some comment => simpa [Pending.onLead, waits] using plain
  | none =>
      cases member with
      | staticBlock | comment =>
          cases h
          exact made
      | _ => cases leads

end Pending.FrontMade

/-- An item of a class body is made. -/
def BodyItem.Made : BodyItem → Prop
  | .sectionComment node => JavaUnit.Made (.comment node)
  | .javadoc node => JavaUnit.Made (.javadoc node)
  | .annotationUse node => JavaUnit.Made (.annotationUse node)
  | .member node => JavaUnit.Made (.member node)

namespace Attachment

/-- The members so far and what waits for the next one are made. -/
structure PartsMade (state : Attachment) : Prop where
  members : ∀ member ∈ state.members, Made (.member member)
  waiting : state.pending.FrontMade

namespace PartsMade

variable {state : Attachment}

theorem addMember (h : state.PartsMade) {member : Member} (made : Made (.member member)) :
    ∀ other ∈ state.members ++ [member], Made (.member other) :=
  List.forall_mem_append.2 ⟨h.members, List.forall_mem_singleton.2 made⟩

/-- A comment that nothing comes for becomes a member of its own. -/
theorem addComments (h : state.PartsMade) :
    (state.addComments state.pending.sectionComment).PartsMade := by
  refine ⟨fun member mem => ?_, h.waiting⟩
  rcases List.mem_append.1 mem with earlier | last
  · exact h.members member earlier
  · obtain ⟨node, waits, rfl⟩ := List.mem_map.1 last
    exact Made.member_iff.2 (h.waiting.comment node (Option.mem_toList.1 waits))

theorem addDeclaration (h : state.PartsMade) {member : Member} (made : Made (.member member)) :
    (state.addDeclaration member).PartsMade := by
  rw [Attachment.addDeclaration]
  -- The comment that waits may have become a member of its own; then it waits no more.
  generalize waits : ite (member.sectionComment?.isSome = true) _ state = waiting
  have parts : waiting.PartsMade := by
    rw [← waits]
    split
    · exact ⟨h.addComments.members, by simp, h.waiting.javadoc, h.waiting.annotations⟩
    · exact h
  split
  · next result took => exact ⟨parts.addMember (parts.waiting.onMember made took), .none⟩
  · exact ⟨parts.addMember made, .none⟩

/-- Every item of a body, if it was read, leaves the members of the class as ones that were read. -/
theorem add (h : state.PartsMade) {item : BodyItem} (made : item.Made) :
    (state.add item).PartsMade := by
  cases item with
  | sectionComment node => exact ⟨h.addComments.members, h.waiting.withComment made⟩
  | javadoc node => exact ⟨h.members, h.waiting.withJavadoc made⟩
  | annotationUse node => exact ⟨h.members, h.waiting.addAnnotation made⟩
  | member member =>
      cases member with
      | comment node => exact ⟨h.addMember made, h.waiting⟩
      | staticBlock node => exact ⟨h.addComments.addMember made, .none⟩
      | _ => exact h.addDeclaration made

end PartsMade

end Attachment

/-- Attaching makes members of made items. -/
theorem made_of_attach {items : List BodyItem} (made : ∀ item ∈ items, item.Made) :
    ∀ member ∈ (attach items).1, Made (.member member) := by
  have whole : ∀ (items : List BodyItem) (state : Attachment), state.PartsMade →
      (∀ item ∈ items, item.Made) → (items.foldl Attachment.add state).PartsMade := by
    intro items
    induction items with
    | nil => exact fun _ parts _ => parts
    | cons first rest ih =>
        exact fun state parts made => ih _ (parts.add (made first (.head _)))
          fun item mem => made item (.tail _ mem)
  exact (whole items {} ⟨nofun, .none⟩ made).addComments.members

/-! ### Classes and declarations -/

/-- The parts of a class without a file are made. -/
structure ClassDraft.PartsMade (draft : ClassDraft) : Prop where
  front : FrontMade draft.sectionComment draft.javadoc draft.annotations
  members : ∀ member ∈ draft.members, Made (.member member)
  headerComments : draft.headerComments = []
  package : draft.package = none
  imports : draft.imports = []
  trailingComments : draft.trailingComments = []

namespace ClassDraft.PartsMade

variable {draft : ClassDraft}

theorem made (h : draft.PartsMade) {node : ClassDecl} (built : draft.build = .ok node) :
    Made (.classDecl node) := by
  refine .built (.classDecl built) trivial fun part mem => ?_
  obtain ⟨-, rfl⟩ := settle_eq_ok_iff.1 built
  rcases ClassDecl.mem_owned.1 mem with front | ⟨_, header, -⟩ | ⟨_, package, -⟩ | ⟨_, import_, -⟩ |
    ⟨_, trailing, -⟩ | ⟨member, inside, rfl⟩
  · exact Lead.frontMade_iff.1 h.front part front
  · simp [ClassDraft.node, h.headerComments] at header
  · simp [ClassDraft.node, h.package] at package
  · simp [ClassDraft.node, h.imports] at import_
  · simp [ClassDraft.node, h.trailingComments] at trailing
  · exact h.members member inside

theorem withTypeParameters (h : draft.PartsMade) (text : Option Text) :
    (text.elim draft draft.withTypeParameters).PartsMade := by
  cases text with
  | none => exact h
  | some => exact { h with }

theorem withSuperclass (h : draft.PartsMade) (text : Option Text) :
    (text.elim draft draft.withSuperclass).PartsMade := by
  cases text with
  | none => exact h
  | some => exact { h with }

theorem addInterfaces (h : draft.PartsMade) (types : List Text) :
    (types.foldl ClassDraft.addInterface draft).PartsMade := by
  induction types generalizing draft with
  | nil => exact h
  | cons first rest ih => exact ih { h with }

end ClassDraft.PartsMade

/-- A declaration is made. -/
def Declaration.Made (declared : Declaration) : Prop :=
  JavaUnit.Made (.member declared.toMember)

namespace Reading

variable {nested : Reading Declaration}

/-- Each turn of a body adds an item that was read. Nested declarations are given, since they come
from a reader of less input. -/
theorem gives_bodyItem (h : nested.Gives Declaration.Made) {scope : Scope} {name : Text}
    {items : List BodyItem} (made : ∀ item ∈ items, item.Made) :
    (bodyItem nested scope name items).Gives fun turn => ∀ item ∈ turn.state, item.Made := by
  have added : ∀ item : BodyItem, item.Made → ∀ other ∈ items ++ [item], other.Made :=
    fun item one => List.forall_mem_append.2 ⟨made, List.forall_mem_singleton.2 one⟩
  refine gives_bind fun _ => gives_bind fun _ => .ite (gives_bind fun _ => gives_pure made) <| .ite
    gives_fail <| .ite (gives_bind fun _ => gives_pure made) <| .ite
    (gives_javadoc.bind fun node one => gives_pure (added _ one)) <| .ite
    (gives_bind fun _ => gives_comment.bind fun node one => gives_pure (added _ ?_)) <| .ite
    (gives_annotationUse.bind fun node one => gives_pure (added _ one)) <| gives_bind fun _ => .ite
    (gives_staticBlock.bind fun node one => gives_pure (added _ (Made.member_iff.2 one)))
    (h.bind fun declared one => gives_pure (added _ one))
  split
  · exact one
  · exact Made.member_iff.2 one

/-- A class is built from its preface, its ancestry and the items of its body. -/
theorem gives_classRest (h : nested.Gives Declaration.Made) {preface : Preface} {inner : Bool}
    (front : preface.FrontMade) :
    (classRest nested preface inner).Gives fun node => Made (.classDecl node) := by
  intro tokens node rest skipped reads
  simp only [classRest, reads_finish, reads_bind_nil, reads_note, reads_pure] at reads
  obtain ⟨-, attempt, ⟨word, _, -, name, _, -, _, _, -, bounds, _, -, ancestry, _, -, items, _,
    body, rfl, rfl, -⟩, -, built⟩ := reads
  have made : ∀ item ∈ items, item.Made :=
    Gives.iterate (P := fun items : List BodyItem => ∀ item ∈ items, item.Made) (by simp)
      (fun _ made => gives_bodyItem h made) body
  have start : ClassDraft.PartsMade (ClassDraft.withName
      { toLeadDraft := preface.toLeadDraft
        kind := if word.keyword? = some .interface then .interface else .class
        inner
        members := (attach items).1 } name) :=
    ⟨front, made_of_attach made, rfl, rfl, rfl, rfl⟩
  have whole := ((start.withTypeParameters bounds).withSuperclass ancestry.superclass).addInterfaces
    ancestry.interfaces
  dsimp only at built whole
  exact whole.made built

theorem gives_declarationOf (h : nested.Gives Declaration.Made) {preface : Preface} {inner : Bool}
    (front : preface.FrontMade) (kind : DeclarationKind) :
    (declarationOf nested preface inner kind).Gives Declaration.Made := by
  cases kind with
  | classDecl => exact (gives_classRest h front).bind fun _ made => gives_pure (.member made)
  | field => exact (gives_field front).bind fun _ made => gives_pure (.member made)
  | method => exact (gives_method front).bind fun _ made => gives_pure (.member made)

/-- Whatever kind of declaration is settled on, it is read from the same preface. -/
theorem gives_declarationWith (h : nested.Gives Declaration.Made) {preface : Preface} {inner : Bool}
    (front : preface.FrontMade) :
    (declarationWith nested preface inner).Gives Declaration.Made := by
  refine (gives_modifierRun front).bind fun run front => gives_bind fun _ => gives_bind fun _ => ?_
  split
  · exact gives_fail
  · exact (gives_declarationOf h front _).after.bind fun declared made =>
      .ite (gives_pure made) gives_fail

/-- Declarations are made at any depth. -/
theorem gives_nestedDeclaration : nestedDeclaration.Gives Declaration.Made :=
  .recurse (by simp) fun nested h => gives_emptyPreface.bind fun _ front =>
    gives_declarationWith h front

theorem gives_declaration {preface : Preface} (front : preface.FrontMade) (inner : Bool) :
    (declaration preface inner).Gives Declaration.Made :=
  gives_declarationWith gives_nestedDeclaration front

theorem gives_declarationAs {wanted : DeclarationKind} {part : Declaration → Option α}
    {P : α → Prop} (parts : ∀ declared : Declaration, declared.Made → ∀ node ∈ part declared, P node) :
    (declarationAs wanted part).Gives P := by
  refine gives_preface.bind fun preface front => (gives_declaration front true).bind
    fun declared made => ?_
  split
  · next node is => exact gives_pure (parts declared made node is)
  · exact gives_fail

theorem gives_wholeField : wholeField.Gives fun node => Made (.field node) := by
  refine gives_declarationAs fun declared made node is => ?_
  cases declared <;> cases is
  exact Made.member_iff.1 made

theorem gives_wholeMethod : wholeMethod.Gives fun node => Made (.method node) := by
  refine gives_declarationAs fun declared made node is => ?_
  cases declared <;> cases is
  exact Made.member_iff.1 made

theorem gives_member : member.Gives fun node => Made (.member node) := by
  refine gives_bind fun _ => gives_bind fun _ => .ite
    (gives_staticBlock.bind fun _ made => gives_pure (.member made)) ?_
  exact gives_bind fun _ => gives_bind fun _ => .ite
    (gives_comment.bind fun _ made => gives_pure (.member made))
    (gives_preface.bind fun _ front => (gives_declaration front true).bind
      fun _ made => gives_pure made)

end Reading

/-! ### Files -/

/-- All that has been read of a file is made. -/
structure FileState.PartsMade (state : FileState) : Prop where
  headers : ∀ node ∈ state.headerComments, Made (.comment node)
  trailing : ∀ node ∈ state.trailingComments, Made (.comment node)
  waiting : ∀ node ∈ state.sectionComment, Made (.comment node)
  package : ∀ node ∈ state.package, Made (.packageStatement node)
  imports : ∀ node ∈ state.imports, Made (.importStatement node)
  outer : ∀ node ∈ state.outer, Made (.classDecl node)

namespace FileState.PartsMade

variable {state : FileState}

theorem start : PartsMade {} := by
  constructor <;> simp

theorem report (h : state.PartsMade) (defect : Defect) : (state.report defect).PartsMade :=
  { h with }

/-- The comments at the head of the file, with the one that waits. -/
theorem headersWaiting (h : state.PartsMade) :
    ∀ node ∈ state.headerComments ++ state.sectionComment.toList, Made (.comment node) := by
  intro node mem
  rcases List.mem_append.1 mem with header | waits
  · exact h.headers node header
  · exact h.waiting node (Option.mem_toList.1 waits)

/-- Comments only change their place. -/
theorem releaseComment (h : state.PartsMade) : state.releaseComment.PartsMade :=
  { h with headers := h.headersWaiting, waiting := nofun }

theorem addHeaderComment (h : state.PartsMade) {node : Comment} (made : Made (.comment node)) :
    (state.addHeaderComment node).PartsMade :=
  { h.releaseComment with
    headers := List.forall_mem_append.2
      ⟨h.releaseComment.headers, List.forall_mem_singleton.2 made⟩ }

theorem addComment (h : state.PartsMade) (attaches : Bool) {node : Comment}
    (made : Made (.comment node)) : (state.addComment attaches node).PartsMade := by
  rw [FileState.addComment]
  split_ifs
  · exact { h with
      trailing := List.forall_mem_append.2 ⟨h.trailing, List.forall_mem_singleton.2 made⟩ }
  · exact { h.releaseComment with waiting := fun _ mem => Option.some.inj mem ▸ made }
  · exact h.addHeaderComment made

theorem addPackage (h : state.PartsMade) {node : Package} (made : Made (.packageStatement node)) :
    (state.addPackage node).PartsMade := by
  rw [FileState.addPackage]
  split_ifs
  · exact h.report _
  · exact h.report _
  · exact h.report _
  · exact { h with package := fun _ mem => Option.some.inj mem ▸ made }

theorem addImport (h : state.PartsMade) {node : Import} (made : Made (.importStatement node)) :
    (state.addImport node).PartsMade := by
  rw [FileState.addImport]
  split_ifs
  · exact h.report _
  · exact { h with
      imports := List.forall_mem_append.2 ⟨h.imports, List.forall_mem_singleton.2 made⟩ }

/-- The first class is kept as the class of the file. Any other declaration is only reported. -/
theorem addDeclaration (h : state.PartsMade) {declared : Declaration} (made : declared.Made) :
    (state.addDeclaration declared).PartsMade := by
  cases declared with
  | classDecl node =>
      rw [FileState.addDeclaration]
      split_ifs
      · exact h.report _
      · exact { h with outer := fun _ mem => Option.some.inj mem ▸ Made.member_iff.1 made }
  | field => exact h.report _
  | method => exact h.report _

/-- The class of a file is made with the file around it. -/
theorem attachFile (h : state.PartsMade) {outer node : ClassDecl} (is : state.outer = some outer)
    (attached : state.attachFile outer = .ok node) : Made (.classDecl node) := by
  obtain ⟨-, -, rfl⟩ := FileState.attachFile_eq_ok_iff.1 attached
  exact @Made.file outer _ _ _ _ (h.outer outer is) h.headersWaiting h.package h.imports h.trailing

end FileState.PartsMade

namespace Reading

/-- Comments behind a Javadoc move from the preface to the file. -/
theorem gives_prefaceComment {state : FileState × Preface} (parts : state.1.PartsMade)
    (front : state.2.FrontMade) :
    (prefaceComment state).Gives fun turn =>
      turn.state.1.PartsMade ∧ turn.state.2.FrontMade := by
  refine gives_bind fun _ => gives_bind fun _ => .ite
    (gives_comment.bind fun node made => gives_pure ⟨?_, front.withComment made⟩)
    (gives_pure ⟨parts, front⟩)
  refine { parts with headers := fun other mem => ?_ }
  rcases List.mem_append.1 mem with header | before
  · exact parts.headers other header
  · exact front.comment other (Option.mem_toList.1 before)

/-- What comes behind the Javadoc of a declaration outside a class. -/
theorem gives_prefacedDeclaration {state : FileState} {preface : Preface} (parts : state.PartsMade)
    (front : preface.FrontMade) :
    (do
      let both ← iterate prefaceComment (state, preface)
      return both.1.addDeclaration (← declaration both.2 false) : Reading FileState).Gives
        FileState.PartsMade :=
  .bind (P := fun both : FileState × Preface => both.1.PartsMade ∧ both.2.FrontMade)
    (.iterate ⟨parts, front⟩ fun _ both => gives_prefaceComment both.1 both.2)
    fun _ both => (gives_declaration both.2 false).bind
      fun _ made => gives_pure (both.1.addDeclaration made)

/-- The outermost declaration of a file is read like any other, with the comments behind its
preface. -/
theorem gives_outerDeclaration {state : FileState} (parts : state.PartsMade) :
    (outerDeclaration state).Gives FileState.PartsMade := by
  have cleared : FileState.PartsMade { state with sectionComment := none } :=
    { parts with waiting := nofun }
  refine gives_emptyPreface.bind fun empty front => gives_bind fun _ => .ite
    (gives_javadoc.bind fun node made => .bind (P := Preface.FrontMade) (gives_pure ?_)
      fun preface front => gives_prefacedDeclaration cleared front)
    (.bind (P := Preface.FrontMade) (gives_pure ?_)
      fun preface front => gives_prefacedDeclaration cleared front)
  · exact ⟨parts.waiting, (front.withJavadoc made).javadoc, front.annotations⟩
  · exact ⟨parts.waiting, front.javadoc, front.annotations⟩

/-- Each turn of a file adds a statement, a comment or a declaration that was read. -/
theorem gives_fileItem {state : FileState} (parts : state.PartsMade) :
    (fileItem state).Gives fun turn => turn.state.PartsMade :=
  gives_bind fun _ => gives_bind fun _ => .ite (gives_pure parts) <| .ite
    (gives_bind fun _ => gives_pure parts) <| .ite
    (gives_bind fun _ => gives_comment.bind fun _ made => gives_pure (parts.addComment _ made)) <|
    gives_bind fun _ => .ite
    (gives_comment.bind fun _ made => gives_pure (parts.addHeaderComment made)) <| .ite
    (gives_packageStatement.bind fun _ made => gives_pure (parts.addPackage made)) <| .ite
    (gives_importStatement.bind fun _ made => gives_pure (parts.addImport made))
    ((gives_outerDeclaration parts).bind fun _ made => gives_pure made)

/-- The class of a file is made, with all that the file puts around it. -/
theorem gives_compilationUnit : compilationUnit.Gives fun node => Made (.classDecl node) := by
  intro tokens node rest skipped reads
  obtain ⟨state, outer, run, is, -, attached⟩ := reads_compilationUnit.1 reads
  have parts : state.PartsMade := Gives.iterate .start (fun _ => gives_fileItem) run
  exact parts.attachFile is attached

end Reading

/-- Whatever is read on its own is made. -/
theorem Goal.made_of_read {goal : Goal} {tokens rest : List Token} {node : Node}
    (h : goal.entry.read tokens = .ok (node, rest)) : Made node := by
  obtain ⟨skipped, reads⟩ := Entry.read_eq_ok_iff.1 h
  have gives : goal.entry.reading.Gives Made := by
    cases goal with
    | packageStatement => exact Reading.gives_packageStatement.map _
    | importStatement => exact Reading.gives_importStatement.map _
    | annotationUse => exact Reading.gives_annotationUse.map _
    | javadoc => exact Reading.gives_javadoc.map _
    | comment => exact Reading.gives_comment.map _
    | field => exact Reading.gives_wholeField.map _
    | method => exact Reading.gives_wholeMethod.map _
    | staticBlock => exact Reading.gives_staticBlock.map _
    | file => exact Reading.gives_compilationUnit.map _
    | member => exact Reading.gives_member.map _
  exact gives reads

end JavaUnit
