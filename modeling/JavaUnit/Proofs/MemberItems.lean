/-
Module: JavaUnit.Proofs.MemberItems
Purpose: Members in a class body. A member on its own is read by one path: its comment and its
  Javadoc come first, and the declaration takes them up with the annotations and modifiers behind
  them. In a class body the same tokens are items of their own, which wait for the declaration. Both
  come to the same member, if a comment in front of it is the first of its tokens: further on, a
  blank line behind a comment tears it from the declaration in a class body, and only there.
Main exports: Reading.lead?_of_declarationOf, Reading.exists_items_of_prefaced, Alone.exists_items
-/
import JavaUnit.Proofs.FileSwap

namespace JavaUnit

/-! ### Other things in front of a declaration -/

/-- Comment and Javadoc are taken away. -/
def LeadChange.bare (given : List Modifier) : LeadChange where
  draft lead := { lead with sectionComment := none, javadoc := none, modifiers := given }
  node lead :=
    { lead with sectionComment := none, javadoc := none, modifiers := Modifiers.ofList given }
  modifiers := given
  lead_draft _ := rfl
  commentDefects_draft _ := rfl
  modifiers_draft _ := rfl

/-- All of it is replaced. -/
def LeadChange.replaced (lead : LeadDraft) (clean : lead.commentDefects = []) : LeadChange where
  draft _ := lead
  node _ := lead.lead
  modifiers := lead.modifiers
  lead_draft _ := rfl
  commentDefects_draft _ := clean
  modifiers_draft _ := rfl

theorem commentDefects_of_plain {lead : LeadDraft}
    (plain : lead.sectionComment.any Comment.isDoc = false) : lead.commentDefects = [] := by
  cases comment : lead.sectionComment with
  | none => simp [LeadDraft.commentDefects, comment]
  | some node =>
      rw [comment] at plain
      have plain : node.isDoc = false := plain
      simp [LeadDraft.commentDefects, comment, plainComment, plain]

theorem Declaration.sectionComment?_of_lead {declared : Declaration} {lead : Lead}
    (leads : declared.toMember.lead? = some lead) :
    declared.toMember.sectionComment? = lead.sectionComment := by
  cases declared <;> exact (Option.some.inj leads) ▸ rfl

theorem Declaration.withLead_of_lead {declared : Declaration} {lead : Lead}
    (leads : declared.toMember.lead? = some lead) :
    declared.toMember.withLead lead = declared.toMember := by
  cases declared <;> exact (Option.some.inj leads) ▸ rfl

namespace Reading

variable {tokens here mid rest skipped : List Token} {inner : Bool} {kind : DeclarationKind}
  {declared : Declaration}

/-- A declaration has in front of it what was read there. -/
theorem lead?_of_declarationOf {run : Preface}
    (h : (declarationOf nestedDeclaration run inner kind).Reads tokens declared rest skipped)
    (plain : run.sectionComment.any Comment.isDoc = false) :
    declared.toMember.lead? = some run.toLeadDraft.lead := by
  let change := LeadChange.replaced run.toLeadDraft (commentDefects_of_plain plain)
  obtain ⟨same, -, -⟩ := h.unique (@declarationOf_changed _ _ _ _ _ _ run run change h rfl rfl)
  obtain ⟨lead, leads⟩ := declared.exists_lead
  rw [same, declared.lead?_changed, leads]
  rfl

/-! ### The front of a member -/

/-- A comment and Javadoc in front of a member are items that wait for it. -/
def waitingItems (comment : Option Comment) (javadoc : Option Javadoc) : List BodyItem :=
  comment.toList.map .sectionComment ++ javadoc.toList.map .javadoc

theorem foldl_waitingItems {comment : Option Comment} {javadoc : Option Javadoc}
    {state : Attachment} (idle : state.pending = {}) :
    (waitingItems comment javadoc).foldl Attachment.add state =
      { state with pending := { sectionComment := comment, javadoc } } := by
  obtain ⟨members, pending, defects⟩ := state
  obtain rfl : pending = {} := idle
  cases comment <;> cases javadoc <;>
    simp [waitingItems, Attachment.add, Attachment.addSectionComment, Attachment.addComments,
      Attachment.addJavadoc]

/-- Items behind white space are the same; white space that no item follows is left. -/
theorem BodyItems.behind_blanks {items : List BodyItem} (h : BodyItems tokens items rest)
    {front : List Token} (blank : ∀ token ∈ front, token.isWhitespace = true) :
    ∃ blanks, (∀ token ∈ blanks, token.isWhitespace = true) ∧
      BodyItems (front ++ tokens) items (blanks ++ rest) := by
  cases h with
  | nil => exact ⟨front, blank, .nil⟩
  | @cons own tokens _ _ _ _ white step later =>
      refine ⟨[], by simp, ?_⟩
      rw [← List.append_assoc]
      exact .cons (fun token mem => (List.mem_append.1 mem).elim (blank token) (white token)) step
        later

/-- A preface that begins here is that of items in a class body, if a comment that it begins with
belongs to a declaration behind it. -/
theorem exists_items_of_preface {before : Preface} {front : List Token}
    (blank : ∀ token ∈ front, token.isWhitespace = true)
    (ink : (currentToken here).isWhitespace = false)
    (attaches : (currentToken here).isPlainComment = true →
      precedesDeclaration true (here.drop 1) = true)
    (h : preface.Reads here before mid skipped) :
    skipped = [] ∧ ∃ comment javadoc blanks,
      before = { start := here, sectionComment := comment, javadoc } ∧
      comment.any Comment.isDoc = false ∧
      ((currentToken here).isPlainComment = true → comment.isSome = true) ∧
      (∀ token ∈ blanks, token.isWhitespace = true) ∧
      BodyItems (front ++ here) (waitingItems comment javadoc) (blanks ++ mid) := by
  have none : ∀ token ∈ ([] : List Token), token.isWhitespace = true := by simp
  -- behind the comment, if there is one
  have documented : ∀ {start before : Preface} {tokens skipped},
      (Reading.documented start).Reads tokens before mid skipped →
      skipped = [] ∧ ∃ javadoc, start.javadoc = .none → before = { start with javadoc } ∧
        BodyItems tokens (waitingItems .none javadoc) mid := by
    intro start before tokens skipped reads
    rw [Reading.documented, reads_current_bind, reads_ite, reads_bind_pure, reads_pure] at reads
    rcases reads with ⟨doc, node, rfl, reads⟩ | ⟨-, rfl, rfl, rfl⟩
    · obtain ⟨rfl, -⟩ := reads_javadoc.1 reads
      have step := BodyStep.javadoc doc reads
      have items := BodyItems.cons none step .nil
      exact ⟨rfl, some node, fun _ => ⟨rfl, by simpa [waitingItems] using items⟩⟩
    · refine ⟨rfl, .none, fun same => ⟨?_, .nil⟩⟩
      rw [← same]
  rw [preface, reads_skipWhitespace_bind, dropWhile_of_current ink, reads_emptyPreface_bind,
    reads_current_bind, reads_ite] at h
  rcases h with ⟨plain, h⟩ | ⟨plain, h⟩
  · rw [reads_bind] at h
    obtain ⟨node, mid', first, second, reads, h, rfl⟩ := h
    rw [reads_skipWhitespace_bind, reads_pure_bind] at h
    obtain ⟨rfl, -⟩ := reads_comment.1 reads
    obtain ⟨noDoc, token, -, whole⟩ := plain_of_comment reads plain
    have step := BodyStep.comment plain reads
    rw [if_pos (attaches plain)] at step
    obtain ⟨rfl, javadoc, same⟩ := documented h
    obtain ⟨rfl, items⟩ := same rfl
    have white : ∀ token ∈ mid'.takeWhile Token.isWhitespace, token.isWhitespace = true :=
      fun token mem => List.all_eq_true.1 List.all_takeWhile token mem
    obtain ⟨blanks, white', items⟩ := items.behind_blanks white
    rw [List.takeWhile_append_dropWhile] at items
    exact ⟨rfl, some node, javadoc, blanks, rfl, by simpa using noDoc, fun _ => rfl, white',
      .cons blank step items⟩
  · rw [reads_pure_bind] at h
    obtain ⟨rfl, javadoc, same⟩ := documented h
    obtain ⟨rfl, items⟩ := same rfl
    obtain ⟨blanks, white, items⟩ := items.behind_blanks blank
    exact ⟨rfl, .none, javadoc, blanks, rfl, rfl, fun found => absurd found plain, white, items⟩

/-- No doc-style comment is taken up in front of a declaration. -/
theorem plain_modifierRun {before run : Preface}
    (h : (modifierRun before).Reads tokens run rest skipped)
    (plain : before.sectionComment.any Comment.isDoc = false) :
    run.sectionComment.any Comment.isDoc = false := by
  have kept : ∀ {before : Preface} {turn : Turn Preface} {tokens rest skipped : List Token},
      before.sectionComment.any Comment.isDoc = false →
      (prefaceItem before).Reads tokens turn rest skipped →
      turn.state.sectionComment.any Comment.isDoc = false := by
    intro before turn tokens rest skipped plain reads
    obtain ⟨rfl, -⟩ := gains_prefaceItem reads
    have step := prefaceStep_of_reads reads
    generalize tokens.dropWhile Token.isWhitespace = here at step
    cases step with
    | comment comments reads =>
        have noDoc := (plain_of_comment reads comments).1
        show (before.addComment _).sectionComment.any Comment.isDoc = false
        rw [Preface.addComment]
        split
        · exact plain
        · exact noDoc
    | used | modifier | ends => exact plain
  obtain ⟨last, mid, done, passed, plain, -, ends | ⟨again, -⟩⟩ :=
    reads_iterate h (fun preface _ _ => preface.sectionComment.any Comment.isDoc = false) plain
      fun plain step => kept plain step
  · exact kept plain ends
  · exact kept plain again

/-- A declaration with its comment and its Javadoc in front of it is read in a class body as items
that come to the same member. -/
theorem exists_items_of_prefaced {front : List Token}
    (blank : ∀ token ∈ front, token.isWhitespace = true)
    (ink : (currentToken here).isWhitespace = false) (noComment : commentAhead here = false)
    (h : (preface >>= fun preface => declaration preface true).Reads here declared rest skipped)
    (first : ∀ comment, declared.toMember.sectionComment? = some comment → comment.isDoc = false →
      (currentToken here).isPlainComment = true) :
    ∃ items, BodyItems (front ++ here) items rest ∧ ∀ state : Attachment, state.pending = {} →
      items.foldl Attachment.add state =
        { state with members := state.members ++ [declared.toMember] } := by
  obtain ⟨before, mid, passed, later, prefaced, reads, -⟩ := reads_bind.1 h
  have attaches : (currentToken here).isPlainComment = true →
      precedesDeclaration true (here.drop 1) = true := by
    intro plain
    simpa [commentAhead, plain] using noComment
  obtain ⟨rfl, comment, javadoc, blanks, rfl, noDoc, found, white, waiting⟩ :=
    exists_items_of_preface blank ink attaches prefaced
  obtain ⟨run, core, second, third, kind, modified, target, clean, declares, rfl⟩ :=
    reads_declarationWith.1 reads
  obtain ⟨rfl, -⟩ := gains_modifierRun modified
  obtain ⟨own, rfl, -⟩ := modified.advances
  have target' : (classifyTarget core).isSome = true := target ▸ rfl
  have noDoc' := plain_modifierRun modified noDoc
  have leads := lead?_of_declarationOf declares noDoc'
  rcases exists_comment_or_leadTokens modified target' with ⟨-, more⟩ |
    ⟨annotations, given, blanks', front', rfl, white', lead, core', rfl⟩
  · -- the declaration has room for one comment, and that is the first token
    have room : run.defects = [] := (List.append_eq_nil_iff.1 clean).2
    rw [declared.sectionComment?_of_lead leads] at first
    cases comment with
    | none =>
        cases taken : run.sectionComment with
        | none => simp [Preface.commentCount, room, taken] at more
        | some node =>
            rw [taken] at noDoc'
            exact absurd (found (first node taken noDoc')) Bool.false_ne_true
    | some node =>
        have few : run.sectionComment.toList.length ≤ 1 := by cases run.sectionComment <;> simp
        simp only [Preface.commentCount, room, Option.toList_some, List.length_singleton,
          List.length_nil] at more
        omega
  let bare : Preface := { start := front' ++ core, annotations, modifiers := given }
  have declares' := @declarationOf_changed _ _ _ _ _ _ _ bare (.bare given) declares rfl rfl
  have nested : nestedDeclaration.Reads (front' ++ core) (declared.changed (.bare given)) rest
      [] := by
    rw [reads_nestedDeclaration, declaration, reads_declarationWith]
    have behind := @LeadTokens.reads_modifierRun _ _ _ _ lead core' [] (by simp)
      { start := front' ++ core }
    exact ⟨bare, core, [], [], kind, behind, target, clean, declares', rfl⟩
  have white : ∀ token ∈ blanks ++ blanks', token.isWhitespace = true :=
    fun token mem => (List.mem_append.1 mem).elim (white token) (white' token)
  obtain ⟨items, row, attached⟩ := lead.exists_items core' white nested
  rw [← List.append_assoc, ← List.append_assoc, List.append_assoc _ front'] at waiting
  refine ⟨_, waiting.append row, fun state idle => ?_⟩
  have leads' := declared.lead?_changed (.bare given)
  rw [leads] at leads'
  have fresh := BodyStep.fresh_of_nestedDeclaration nested _ leads'
  let waits : Attachment := { state with pending := { sectionComment := comment, javadoc } }
  have plain : waits.Plain := noDoc
  rw [List.foldl_append, foldl_waitingItems idle, attached waits plain,
    Attachment.add_declaration leads', Attachment.addDeclaration_eq leads' fresh.1 fresh.2 plain,
    declared.withLead_changed]
  refine (congrArg (fun member => Attachment.mk (state.members ++ [] ++ [member]) {} state.defects)
    (declared.withLead_of_lead leads)).trans ?_
  rw [List.append_nil, ← idle]

end Reading

/-! ### Members on their own -/

/-- Members that read on their own are read in a class body as items that come to them. -/
theorem Alone.exists_items {core : List Token} {node : Member} (h : Alone core node)
    (first : ∀ comment, node.sectionComment? = some comment → comment.isDoc = false →
      (currentToken core).isPlainComment = true)
    {blanks rest : List Token} (blank : ∀ token ∈ blanks, token.isWhitespace = true)
    (apart : precedesDeclaration true rest = false) :
    ∃ items, Reading.BodyItems (blanks ++ (core ++ rest)) items rest ∧
      ∀ state : Attachment, state.pending = {} →
        items.foldl Attachment.add state = { state with members := state.members ++ [node] } := by
  cases h with
  | @comment token draft node plain draws built =>
      have ink : token.isWhitespace = false :=
        Reading.isWhitespace_eq_false_of_isComment (by simp [Token.isComment, plain])
      have here : (token :: rest).dropWhile Token.isWhitespace = token :: rest :=
        List.dropWhile_cons_of_neg (by simp [ink])
      have reads := Reading.reads_comment.2 ⟨rfl, token, draft, here, draws, built⟩
      have step := @Reading.BodyStep.comment (token :: rest) _ _ plain reads
      rw [List.drop_one, List.tail_cons, apart] at step
      refine ⟨_, .cons blank step .nil, fun state idle => ?_⟩
      simp [Attachment.add]
  | code code closed ink inside reads =>
      have ink : (currentToken (core ++ rest)).isWhitespace = false := by
        rwa [currentToken_append closed.ne_nil]
      cases reads rest with
      | @staticBlock node _ _ block reads =>
          obtain ⟨rfl, -⟩ := Reading.openComments_staticBlock reads
          have noComment : (currentToken (core ++ rest)).isPlainComment = false := by
            obtain ⟨token, others, rfl⟩ := List.exists_cons_of_ne_nil closed.ne_nil
            by_contra plain
            exact Reading.not_reads_staticBlock (Bool.not_eq_false _ ▸ plain) reads
          have matters : (currentToken (core ++ rest)).isTrivia = false := by
            rw [Token.isTrivia, ink, noComment, Bool.false_or]
          have starts : Reading.startsItem (currentToken (core ++ rest)) = false := by
            have word := (Bool.and_eq_true_iff.1 block).1
            rw [significantFrom_zero_eq, Reading.dropWhile_of_current matters] at word
            simp [Reading.startsItem, Token.kind_of_keyword? (of_decide_eq_true word)]
          refine ⟨_, .cons blank (.staticBlock starts block reads) .nil, fun state idle => ?_⟩
          obtain ⟨members, pending, defects⟩ := state
          obtain rfl : pending = {} := idle
          simp [Attachment.add, Attachment.addStaticBlock, Attachment.addComments]
      | comment => exact absurd rfl code
      | declared noBlock noComment reads =>
          refine Reading.exists_items_of_prefaced blank ink noComment reads ?_
          rwa [currentToken_append closed.ne_nil]

end JavaUnit
