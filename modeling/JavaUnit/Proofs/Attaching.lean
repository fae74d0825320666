/-
Module: JavaUnit.Proofs.Attaching
Purpose: Everything among the items of a class body has one place among its members. When nothing is
  reported is told from the order of the items alone; then the members are those of the items, each
  field, method or class with the Javadoc and the annotations that came since the one before it, and
  no comment is lost or doubled. Behind all three facts is what the waiting comment, Javadoc and
  annotations are: those of the items since the last member that is no comment.
Main exports: BodyItem.Fresh, Placed, BodyItem.groups, Receives, Attachment.Waits, attach_places
-/
import JavaUnit.Proofs.CommentAccounting

namespace JavaUnit

/-! ### Items and members -/

namespace Member

/-- The comments that a member is or has in front of it. -/
def ownComments : Member → List Comment
  | .comment node => [node]
  | member => member.sectionComment?.toList

end Member

namespace BodyItem

def sectionComment? : BodyItem → Option Comment
  | .sectionComment node => some node
  | _ => none

def javadoc? : BodyItem → Option Javadoc
  | .javadoc node => some node
  | _ => none

def annotationUse? : BodyItem → Option Annotation
  | .annotationUse node => some node
  | _ => none

/-- The member that an item is, unless it is a comment. -/
def placed? : BodyItem → Option Member
  | .member node => if node.kind = .comment then none else some node
  | _ => none

/-- Whether an item is a field, a method or a class. -/
def declares : BodyItem → Bool
  | .member node => node.lead?.isSome
  | _ => false

def isStaticBlock : BodyItem → Bool
  | .member (.staticBlock _) => true
  | _ => false

/-- The comments that an item is or has in front of it. -/
def ownComments : BodyItem → List Comment
  | .sectionComment node => [node]
  | .member node => node.ownComments
  | _ => []

/-- An item that can be attached: a section comment is not doc-style, and a field, method or class
can be changed and has no Javadoc yet. -/
def Fresh : BodyItem → Prop
  | .sectionComment node => node.isDoc = false
  | .member node => ∀ lead, node.lead? = some lead → node.editable = true ∧ lead.javadoc = none
  | _ => True

/-- The members that are no comments, each with the items since the one before it; `waiting` are
those in front of the first item. -/
def groups (waiting : List BodyItem) : List BodyItem → List (List BodyItem × Member)
  | [] => []
  | item :: rest =>
    match item.placed? with
    | some found => (waiting, found) :: groups [] rest
    | none => groups (waiting ++ [item]) rest

end BodyItem

/-- There is a field, method or class among the items, and none in front of it is one that `stops`
holds of. -/
def Reaches (stops : BodyItem → Bool) (items : List BodyItem) : Prop :=
  ∃ between declaration later, items = between ++ declaration :: later ∧
    declaration.declares = true ∧ ∀ item ∈ between, stops item = false

/-- Whatever has to stand in front of a declaration is followed by one in time: Javadoc before other
Javadoc or a static block, an annotation before a static block. -/
structure Placed (items : List BodyItem) : Prop where
  javadoc : ∀ before item after, items = before ++ item :: after → item.javadoc?.isSome = true →
    Reaches (fun item => item.javadoc?.isSome || item.isStaticBlock) after
  annotationUse : ∀ before item after, items = before ++ item :: after →
    item.annotationUse?.isSome = true → Reaches BodyItem.isStaticBlock after

/-- A member with what came since the one before it. A field, method or class gains the only Javadoc
and, ahead of its own, the annotations, and the last section comment unless it has one. -/
inductive Receives : List BodyItem × Member → Member → Prop where
  | staticBlock {waiting node} : Receives (waiting, .staticBlock node) (.staticBlock node)
  | declaration {waiting member lead javadoc} (leads : member.lead? = some lead)
      (javadocs : waiting.filterMap BodyItem.javadoc? = javadoc.toList) :
      Receives (waiting, member) (member.withLead {
        sectionComment :=
          lead.sectionComment.or (waiting.filterMap BodyItem.sectionComment?).getLast?
        javadoc
        annotations := waiting.filterMap BodyItem.annotationUse? ++ lead.annotations
        modifiers := lead.modifiers })

/-! ### Order -/

section Order

variable {stops : BodyItem → Bool} {item : BodyItem} {rest : List BodyItem}

theorem not_reaches_nil : ¬ Reaches stops [] := by
  rintro ⟨between, declaration, later, whole, -⟩
  cases between <;> cases whole

theorem reaches_cons :
    Reaches stops (item :: rest) ↔
      item.declares = true ∨ stops item = false ∧ Reaches stops rest := by
  constructor
  · rintro ⟨between, declaration, later, whole, declares, none⟩
    cases between with
    | nil =>
        cases whole
        exact .inl declares
    | cons first between =>
        cases whole
        rw [List.forall_mem_cons] at none
        exact .inr ⟨none.1, between, declaration, later, rfl, declares, none.2⟩
  · rintro (declares | ⟨stays, between, declaration, later, rfl, declares, none⟩)
    · exact ⟨[], item, rest, rfl, declares, nofun⟩
    · exact ⟨item :: between, declaration, later, rfl, declares, List.forall_mem_cons.2 ⟨stays, none⟩⟩

/-- What holds of every item and those behind it holds of the first one and of the others. -/
theorem forall_split_cons {P : BodyItem → List BodyItem → Prop} :
    (∀ before other after, item :: rest = before ++ other :: after → P other after) ↔
      P item rest ∧ ∀ before other after, rest = before ++ other :: after → P other after := by
  constructor
  · intro h
    exact ⟨h [] item rest rfl, fun before other after whole =>
      h (item :: before) other after (by rw [whole, List.cons_append])⟩
  · rintro ⟨first, others⟩ before other after whole
    cases before with
    | nil =>
        cases whole
        exact first
    | cons _ before =>
        cases whole
        exact others before other after rfl

theorem placed_nil : Placed [] := by
  constructor
  · intro before item after whole
    cases before <;> cases whole
  · intro before item after whole
    cases before <;> cases whole

theorem placed_cons :
    Placed (item :: rest) ↔
      (item.javadoc?.isSome = true →
        Reaches (fun item => item.javadoc?.isSome || item.isStaticBlock) rest) ∧
      (item.annotationUse?.isSome = true → Reaches BodyItem.isStaticBlock rest) ∧ Placed rest := by
  have javadocs := @forall_split_cons item rest fun item after => item.javadoc?.isSome = true →
    Reaches (fun item => item.javadoc?.isSome || item.isStaticBlock) after
  have annotations := @forall_split_cons item rest fun item after =>
    item.annotationUse?.isSome = true → Reaches BodyItem.isStaticBlock after
  constructor
  · rintro ⟨javadoc, used⟩
    exact ⟨(javadocs.1 javadoc).1, (annotations.1 used).1, (javadocs.1 javadoc).2,
      (annotations.1 used).2⟩
  · rintro ⟨javadoc, used, others⟩
    exact ⟨javadocs.2 ⟨javadoc, others.javadoc⟩, annotations.2 ⟨used, others.annotationUse⟩⟩

end Order

/-! ### One more item -/

namespace Attachment

variable {state : Attachment} {item : BodyItem} {waiting : List BodyItem}

/-- No doc-style comment waits. -/
def Plain (state : Attachment) : Prop :=
  state.pending.sectionComment.any Comment.isDoc = false

/-- A field, method or class takes all that waits; a comment that it has already makes one that
waits a member of its own. -/
theorem addDeclaration_eq {member : Member} {lead : Lead} (leads : member.lead? = some lead)
    (editable : member.editable = true) (javadoc : lead.javadoc = none) (plain : state.Plain) :
    state.addDeclaration member =
      { members := state.members
          ++ (if lead.sectionComment.isSome then
            state.pending.sectionComment.toList.map Member.comment else [])
          ++ [member.withLead {
            sectionComment := lead.sectionComment.or state.pending.sectionComment
            javadoc := state.pending.javadoc
            annotations := state.pending.annotations ++ lead.annotations
            modifiers := lead.modifiers }]
        pending := {}
        defects := state.defects } := by
  have own : member.sectionComment? = lead.sectionComment := by
    cases member with
    | field node | method node => exact congrArg Lead.sectionComment (Option.some.inj leads)
    | classDecl head members => exact congrArg Lead.sectionComment (Option.some.inj leads)
    | staticBlock node | comment node => cases leads
  rw [addDeclaration, own]
  cases comment : lead.sectionComment with
  | none =>
      rw [if_neg (by simp)]
      simp only [(Pending.onMember_eq_ok_iff leads).2 ⟨.inr editable, plain, rfl⟩]
      simp [Pending.onLead, comment, javadoc]
  | some value =>
      rw [if_pos (by rfl)]
      have taken : Pending.onMember { state.pending with sectionComment := none } member = _ :=
        (Pending.onMember_eq_ok_iff leads).2 ⟨.inr editable, rfl, rfl⟩
      simp only [taken, addComments]
      simp [Pending.onLead, comment, javadoc]

theorem add_declaration {member : Member} {lead : Lead} (leads : member.lead? = some lead) :
    state.add (.member member) = state.addDeclaration member := by
  cases member with
  | field | method | classDecl => rfl
  | staticBlock | comment => cases leads

theorem plain_add (fresh : item.Fresh) (plain : state.Plain) : (state.add item).Plain := by
  have declaration : ∀ {member : Member} {lead : Lead}, member.lead? = some lead →
      (BodyItem.member member).Fresh → (state.add (.member member)).Plain := by
    intro member lead leads fresh
    obtain ⟨editable, javadoc⟩ := fresh lead leads
    rw [add_declaration leads, addDeclaration_eq leads editable javadoc plain]
    rfl
  cases item with
  | sectionComment node =>
      have plain : node.isDoc = false := fresh
      simpa [Plain, add, addSectionComment] using plain
  | javadoc | annotationUse => exact plain
  | member member =>
      cases member with
      | comment => exact plain
      | staticBlock => rfl
      | field | method | classDecl => exact declaration rfl fresh

/-! ### What is reported -/

theorem report_eq_nil {p : Prop} [Decidable p] {defect : Defect} :
    (if p then [defect] else []) = [] ↔ ¬ p := by
  by_cases h : p <;> simp [h]

/-- From some state on nothing is reported if nothing was before, and all that waits and all that
is still to come is followed by a declaration in time. -/
theorem close_defects_eq_nil_iff {items : List BodyItem} (fresh : ∀ item ∈ items, item.Fresh)
    (plain : state.Plain) :
    (items.foldl add state).close.2 = [] ↔ state.defects = [] ∧
      (state.pending.javadoc.isSome = true →
        Reaches (fun item => item.javadoc?.isSome || item.isStaticBlock) items) ∧
      (state.pending.annotations ≠ [] → Reaches BodyItem.isStaticBlock items) ∧
      Placed items := by
  induction items generalizing state with
  | nil =>
      show state.close.2 = [] ↔ _
      simp only [close, List.append_eq_nil_iff, report_eq_nil, not_reaches_nil,
        iff_true_intro placed_nil, and_true, and_assoc, imp_false]
  | cons item rest ih =>
      rw [List.forall_mem_cons] at fresh
      rw [List.foldl_cons, ih fresh.2 (plain_add fresh.1 plain), placed_cons, reaches_cons,
        reaches_cons]
      cases item with
      | sectionComment node =>
          simp [add, addSectionComment, addComments, BodyItem.declares, BodyItem.javadoc?,
            BodyItem.annotationUse?, BodyItem.isStaticBlock]
      | javadoc node =>
          simp only [add, addJavadoc, List.append_eq_nil_iff, report_eq_nil]
          simp [BodyItem.declares, BodyItem.javadoc?, BodyItem.annotationUse?,
            BodyItem.isStaticBlock]
          tauto
      | annotationUse node =>
          simp [add, addAnnotation, BodyItem.declares, BodyItem.javadoc?, BodyItem.annotationUse?,
            BodyItem.isStaticBlock]
          tauto
      | member member =>
          have silent : (BodyItem.member member).javadoc? = none ∧
              (BodyItem.member member).annotationUse? = none := ⟨rfl, rfl⟩
          cases leads : member.lead? with
          | some lead =>
              obtain ⟨editable, javadoc⟩ := fresh.1 lead leads
              rw [add_declaration leads, addDeclaration_eq leads editable javadoc plain]
              simp [BodyItem.declares, leads, silent]
          | none =>
              cases member with
              | comment node =>
                  simp [add, BodyItem.declares, silent, leads, BodyItem.isStaticBlock]
              | staticBlock node =>
                  simp only [add, addStaticBlock, List.append_eq_nil_iff, report_eq_nil]
                  simp [BodyItem.declares, silent, leads, BodyItem.isStaticBlock]
                  tauto
              | field | method | classDecl => cases leads

/-! ### What waits -/

/-- What waits is what came since the last member that is no comment: the last section comment, the
only Javadoc, and all annotations. -/
structure Waits (waiting : List BodyItem) (pending : Pending) : Prop where
  comment : pending.sectionComment = (waiting.filterMap BodyItem.sectionComment?).getLast?
  javadoc : waiting.filterMap BodyItem.javadoc? = pending.javadoc.toList
  annotations : waiting.filterMap BodyItem.annotationUse? = pending.annotations

theorem waits_nil : Waits [] {} := ⟨rfl, rfl, rfl⟩

theorem filterMap_concat (f : BodyItem → Option β) :
    (waiting ++ [item]).filterMap f = waiting.filterMap f ++ (f item).toList := by
  cases found : f item <;> simp [found]

/-- An item that is no member, or a comment, waits behind the others, or needs not. -/
theorem add_waiting (none : item.placed? = none) (waits : Waits waiting state.pending)
    (single : item.javadoc?.isSome = true → state.pending.javadoc = .none) :
    (∃ comments : List Comment,
      (state.add item).members = state.members ++ comments.map .comment) ∧
      Waits (waiting ++ [item]) (state.add item).pending := by
  obtain ⟨comment, javadoc, annotations⟩ := waits
  refine ⟨?_, ?_, ?_, ?_⟩
  · cases item with
    | sectionComment => exact ⟨state.pending.sectionComment.toList, rfl⟩
    | javadoc | annotationUse => exact ⟨[], (List.append_nil _).symm⟩
    | member member =>
        cases member with
        | comment node => exact ⟨[node], rfl⟩
        | field | method | classDecl | staticBlock => cases none
  all_goals rw [filterMap_concat]
  · cases item with
    | sectionComment => simp [add, addSectionComment, BodyItem.sectionComment?]
    | javadoc | annotationUse =>
        simpa [add, addJavadoc, addAnnotation, BodyItem.sectionComment?] using comment
    | member member =>
        cases member with
        | comment => simpa [add, BodyItem.sectionComment?] using comment
        | field | method | classDecl | staticBlock => cases none
  · cases item with
    | sectionComment | annotationUse =>
        simpa [add, addSectionComment, addComments, addAnnotation, BodyItem.javadoc?] using javadoc
    | javadoc => simp [add, addJavadoc, BodyItem.javadoc?, javadoc, single rfl]
    | member member =>
        cases member with
        | comment => simpa [add, BodyItem.javadoc?] using javadoc
        | field | method | classDecl | staticBlock => cases none
  · cases item with
    | sectionComment | javadoc =>
        simpa [add, addSectionComment, addComments, addJavadoc, BodyItem.annotationUse?]
          using annotations
    | annotationUse => simp [add, addAnnotation, BodyItem.annotationUse?, annotations]
    | member member =>
        cases member with
        | comment => simpa [add, BodyItem.annotationUse?] using annotations
        | field | method | classDecl | staticBlock => cases none

/-- A member that is no comment receives what waits, and then nothing waits. -/
theorem add_placed {member : Member} (placed : item.placed? = some member) (fresh : item.Fresh)
    (plain : state.Plain) (waits : Waits waiting state.pending) :
    ∃ (comments : List Comment) (result : Member),
      (state.add item).members = state.members ++ comments.map .comment ++ [result] ∧
        (state.add item).pending = {} ∧ result.kind ≠ .comment ∧
          Receives (waiting, member) result := by
  obtain ⟨comment, javadoc, annotations⟩ := waits
  have is : item = .member member ∧ member.kind ≠ .comment := by
    cases item with
    | member node =>
        rw [BodyItem.placed?] at placed
        split_ifs at placed with kind
        obtain rfl := Option.some.inj placed
        exact ⟨rfl, kind⟩
    | sectionComment | javadoc | annotationUse => cases placed
  obtain ⟨rfl, kind⟩ := is
  cases leads : member.lead? with
  | some lead =>
      obtain ⟨editable, bare⟩ := fresh lead leads
      rw [add_declaration leads, addDeclaration_eq leads editable bare plain]
      have receives := Receives.declaration leads javadoc
      rw [← comment, annotations] at receives
      refine ⟨if lead.sectionComment.isSome then state.pending.sectionComment.toList else [], _,
        ?_, rfl, ?_, receives⟩
      · split_ifs <;> rfl
      · cases member with
        | field | method | classDecl => exact nofun
        | staticBlock | comment => cases leads
  | none =>
      cases member with
      | staticBlock node =>
          exact ⟨state.pending.sectionComment.toList, .staticBlock node, rfl, rfl, nofun,
            .staticBlock⟩
      | comment node => exact absurd rfl kind
      | field | method | classDecl => cases leads

theorem filter_comments (comments : List Comment) :
    (comments.map Member.comment).filter (·.kind ≠ .comment) = [] := by
  simp [Member.kind]

/-- From some state on, the members that are still to come are those of the items, with what they
receive. -/
theorem exists_later {items : List BodyItem} (fresh : ∀ item ∈ items, item.Fresh)
    (plain : state.Plain) (waits : Waits waiting state.pending)
    (clean : (items.foldl add state).close.2 = []) :
    ∃ later, (items.foldl add state).close.1 = state.members ++ later ∧
      List.Forall₂ Receives (BodyItem.groups waiting items)
        (later.filter (·.kind ≠ .comment)) := by
  induction items generalizing state waiting with
  | nil =>
      refine ⟨state.pending.sectionComment.toList.map .comment, rfl, ?_⟩
      rw [filter_comments]
      exact .nil
  | cons item rest ih =>
      -- Where Javadoc waits already, there is no place for another one.
      have single : item.javadoc?.isSome = true → state.pending.javadoc = none := by
        intro found
        have order := ((close_defects_eq_nil_iff fresh plain).1 clean).2.1
        cases javadoc : state.pending.javadoc with
        | none => rfl
        | some =>
            rw [javadoc, reaches_cons, found] at order
            cases item with
            | javadoc node => simp [BodyItem.declares] at order
            | sectionComment | annotationUse | member => cases found
      rw [List.forall_mem_cons] at fresh
      have plain' := plain_add fresh.1 plain
      cases placed : item.placed? with
      | none =>
          obtain ⟨⟨comments, members⟩, waits⟩ := add_waiting placed waits single
          obtain ⟨later, whole, all⟩ := ih fresh.2 plain' waits clean
          refine ⟨comments.map .comment ++ later, ?_, ?_⟩
          · rw [List.foldl_cons, whole, members, List.append_assoc]
          · rw [List.filter_append, filter_comments, List.nil_append, BodyItem.groups, placed]
            exact all
      | some member =>
          obtain ⟨comments, result, members, empty, kind, receives⟩ :=
            add_placed placed fresh.1 plain waits
          obtain ⟨later, whole, all⟩ := ih fresh.2 plain' (empty ▸ waits_nil) clean
          refine ⟨comments.map .comment ++ result :: later, ?_, ?_⟩
          · rw [List.foldl_cons, whole, members]
            simp
          · rw [List.filter_append, filter_comments, List.nil_append,
              List.filter_cons_of_pos (by simpa using kind), BodyItem.groups, placed]
            exact .cons receives all

/-! ### Comments -/

/-- The comments of the members so far, and the one that waits. -/
def comments (state : Attachment) : List Comment :=
  state.members.flatMap Member.ownComments ++ state.pending.sectionComment.toList

theorem ownComments_comments (comments : List Comment) :
    (comments.map Member.comment).flatMap Member.ownComments = comments := by
  simp [List.flatMap_map, Member.ownComments]

theorem ownComments_withLead {member : Member} {lead : Lead} (leads : member.lead?.isSome = true) :
    (member.withLead lead).ownComments = lead.sectionComment.toList := by
  cases member with
  | field | method | classDecl => rfl
  | staticBlock | comment => cases leads

/-- One more item brings its own comments, and no comment goes. -/
theorem comments_add (fresh : item.Fresh) (plain : state.Plain) :
    (state.add item).comments.Perm (state.comments ++ item.ownComments) := by
  cases item with
  | sectionComment node =>
      simp [comments, add, addSectionComment, addComments, ownComments_comments,
        BodyItem.ownComments]
  | javadoc node => simp [comments, add, addJavadoc, BodyItem.ownComments]
  | annotationUse node => simp [comments, add, addAnnotation, BodyItem.ownComments]
  | member member =>
      cases leads : member.lead? with
      | some lead =>
          obtain ⟨editable, bare⟩ := fresh lead leads
          have own : member.ownComments = lead.sectionComment.toList := by
            cases member with
            | field | method | classDecl =>
                obtain rfl := Option.some.inj leads
                rfl
            | staticBlock | comment => cases leads
          rw [add_declaration leads, addDeclaration_eq leads editable bare plain, BodyItem.ownComments,
            own, comments, comments, List.flatMap_append, List.flatMap_append,
            List.flatMap_singleton, ownComments_withLead (by rw [leads]; rfl)]
          cases comment : lead.sectionComment with
          | none => simp
          | some value => simp [ownComments_comments]
      | none =>
          cases member with
          | comment node =>
              simp only [comments, add, BodyItem.ownComments, Member.ownComments,
                List.flatMap_append, List.flatMap_singleton, List.append_assoc]
              exact List.perm_append_comm.append_left _
          | staticBlock node =>
              simp [comments, add, addStaticBlock, addComments, ownComments_comments,
                BodyItem.ownComments, Member.ownComments, Member.sectionComment?]
          | field | method | classDecl => cases leads

/-- No comment goes in the end, and none is added. -/
theorem comments_close {items : List BodyItem} (fresh : ∀ item ∈ items, item.Fresh)
    (plain : state.Plain) :
    ((items.foldl add state).close.1.flatMap Member.ownComments).Perm
      (state.comments ++ items.flatMap BodyItem.ownComments) := by
  induction items generalizing state with
  | nil =>
      have closed : state.close.1.flatMap Member.ownComments = state.comments := by
        simp [close, addComments, ownComments_comments, comments]
      simp [closed]
  | cons item rest ih =>
      rw [List.forall_mem_cons] at fresh
      have later := ih fresh.2 (plain_add fresh.1 plain)
      refine later.trans ?_
      rw [List.flatMap_cons, ← List.append_assoc]
      exact (comments_add fresh.1 plain).append_right _

end Attachment

/-! ### All items -/

/-- Attaching places everything among the items of a class body exactly once. Nothing is reported if
and only if all Javadoc and all annotations are followed by a declaration in time. Then the members
that are no comments are those of the items, in order, each with what came since the one before it;
and the comments of the members are those of the items. -/
theorem attach_places {items : List BodyItem} (fresh : ∀ item ∈ items, item.Fresh) :
    ((attach items).2 = [] ↔ Placed items) ∧
      ((attach items).2 = [] →
        List.Forall₂ Receives (BodyItem.groups [] items)
          ((attach items).1.filter (·.kind ≠ .comment)) ∧
        ((attach items).1.flatMap Member.ownComments).Perm
          (items.flatMap BodyItem.ownComments)) := by
  have plain : Attachment.Plain {} := rfl
  constructor
  · have order := Attachment.close_defects_eq_nil_iff fresh plain
    simpa [attach] using order
  · intro clean
    obtain ⟨later, whole, all⟩ := Attachment.exists_later fresh plain Attachment.waits_nil clean
    have comments := Attachment.comments_close fresh plain
    rw [attach]
    refine ⟨?_, ?_⟩
    · rw [whole]
      exact all
    · simpa [Attachment.comments] using comments

/-- Items of every kind: a comment that makes room for another one, Javadoc and annotations with a
comment among them, a field with a comment and an annotation of its own, and a static block. -/
def crowdedItems : List BodyItem :=
  let comment (text : Text) : Comment := { style := .block, lines := [text] }
  let used (name : Text) : Annotation := { name, canonicalName := [], params := [] }
  [.sectionComment (comment ['a']),
    .sectionComment (comment ['b']),
    .javadoc (JavadocDraft.addDescription {} ['c']).node,
    .annotationUse (used ['X']),
    .member (.comment (comment ['d'])),
    .annotationUse (used ['Y']),
    .member (.field {
      sectionComment := comment ['e'], javadoc := none, annotations := [used ['Z']]
      modifiers := Modifiers.ofList [], type := "int".toList, name := ['x'], value := none }),
    .sectionComment (comment ['f']),
    .member (.staticBlock { lines := [] })]

theorem attach_places_crowded :
    (∀ item ∈ crowdedItems, item.Fresh) ∧ (attach crowdedItems).2 = [] ∧ Placed crowdedItems ∧
      List.Forall₂ Receives (BodyItem.groups [] crowdedItems)
        ((attach crowdedItems).1.filter (·.kind ≠ .comment)) ∧
      ((attach crowdedItems).1.flatMap Member.ownComments).Perm
        (crowdedItems.flatMap BodyItem.ownComments) := by
  have fresh : ∀ item ∈ crowdedItems, item.Fresh := by
    simp [crowdedItems, BodyItem.Fresh, Comment.isDoc, Member.lead?, Member.editable]
  have clean : (attach crowdedItems).2 = [] := by decide +kernel
  obtain ⟨order, members⟩ := attach_places fresh
  exact ⟨fresh, clean, order.1 clean, members clean⟩

end JavaUnit
