/-
Module: JavaUnit.Proofs.CommentAccounting
Purpose: No comment of a file is lost or kept twice. Every comment of the source that is no part of
  raw text is a comment or a Javadoc of the tree, and every one in the tree is one of these. The
  readings of a file preserve this one after another; a comment on its way to its place waits in
  the preface of a declaration, among the items of a class body, or in the state of the file.
Main exports: Remark, ClassDecl.remarks, Token.Yields, comments_accounted
-/
import JavaUnit.Proofs.OpenComments
import JavaUnit.Proofs.Setters

namespace JavaUnit

/-! ### The comments of a tree -/

/-- A comment or a Javadoc of a tree. -/
inductive Remark where
  | comment (node : Comment)
  | javadoc (node : Javadoc)
deriving DecidableEq

/-- The comment and the Javadoc in front of a declaration. -/
def Lead.remarks (lead : Lead) : List Remark :=
  lead.sectionComment.toList.map .comment ++ lead.javadoc.toList.map .javadoc

namespace Member

mutual

/-- The comments and Javadocs of a member, at any depth. -/
def remarks : Member → List Remark
  | .field node => node.toLead.remarks
  | .method node => node.toLead.remarks
  | .staticBlock _ => []
  | .classDecl head members =>
    head.headerComments.map .comment ++ head.toLead.remarks ++ remarksEach members
      ++ head.trailingComments.map .comment
  | .comment node => [.comment node]

/-- The comments and Javadocs of members in a row. -/
def remarksEach : List Member → List Remark
  | [] => []
  | member :: rest => member.remarks ++ remarksEach rest

end

theorem remarksEach_eq_flatMap (members : List Member) :
    remarksEach members = members.flatMap remarks := by
  induction members with
  | nil => rfl
  | cons member rest ih => rw [remarksEach, ih, List.flatMap_cons]

end Member

/-- All comments and Javadocs of a class, those of its file included. -/
def ClassDecl.remarks (node : ClassDecl) : List Remark :=
  (Member.ofClass node).remarks

/-- A comment token, read on its own, is a comment or a Javadoc. -/
def Token.Yields (token : Token) : Remark → Prop
  | .comment node => Entry.comment.read [token] = .ok (node, [])
  | .javadoc node => Entry.javadoc.read [token] = .ok (node, [])

/-! ### Accounts -/

/-- Between two places in the code of a file, the open comments are those that some comments and
Javadocs come from, one each. -/
def Accounted (tokens : List Token) (remarks : List Remark) (rest : List Token) : Prop :=
  ∃ kept yielded, openComments (.code false) tokens = kept ++ openComments (.code false) rest ∧
    List.Forall₂ Token.Yields kept yielded ∧ yielded.Perm remarks

namespace Accounted

variable {tokens mid rest : List Token} {remarks first second : List Remark}

theorem of_eq (h : openComments (.code false) tokens = openComments (.code false) rest) :
    Accounted tokens [] rest :=
  ⟨[], [], h, .nil, .refl _⟩

theorem perm (h : Accounted tokens first rest) (same : first.Perm second) :
    Accounted tokens second rest := by
  obtain ⟨kept, yielded, split, yields, order⟩ := h
  exact ⟨kept, yielded, split, yields, order.trans same⟩

/-- Two readings in a row account for the comments of both, in their order. -/
theorem trans (h : Accounted tokens first mid) (later : Accounted mid second rest) :
    Accounted tokens (first ++ second) rest := by
  obtain ⟨kept, yielded, split, yields, order⟩ := h
  obtain ⟨kept', yielded', split', yields', order'⟩ := later
  refine ⟨kept ++ kept', yielded ++ yielded', ?_, List.rel_append yields yields',
    order.append order'⟩
  rw [split, split', List.append_assoc]

/-- Nothing is gained or lost in front of an account where no comment is open. -/
theorem of_eq_trans (h : openComments (.code false) tokens = openComments (.code false) mid)
    (later : Accounted mid remarks rest) : Accounted tokens remarks rest :=
  (of_eq h).trans later

end Accounted

/-- A step that leads from one state to another takes up the comments that it passes. `clean` tells
whether a state is free of defects; a step that reports one may lose a comment. -/
def Gains (clean : σ → Prop) (remarks : σ → List Remark) (state : σ) (tokens : List Token)
    (last : σ) (rest : List Token) : Prop :=
  clean last → clean state ∧
    ∃ new, Accounted tokens new rest ∧ (remarks last).Perm (remarks state ++ new)

namespace Gains

variable {clean : σ → Prop} {remarks : σ → List Remark} {state next last : σ}
  {tokens mid rest : List Token}

theorem refl : Gains clean remarks state tokens state tokens :=
  fun h => ⟨h, [], .of_eq rfl, by simp⟩

theorem trans (first : Gains clean remarks state tokens next mid)
    (second : Gains clean remarks next mid last rest) :
    Gains clean remarks state tokens last rest := by
  intro h
  obtain ⟨h, new', account', same'⟩ := second h
  obtain ⟨h, new, account, same⟩ := first h
  refine ⟨h, new ++ new', account.trans account', same'.trans ?_⟩
  rw [← List.append_assoc]
  exact same.append_right new'

end Gains

namespace Reading

variable {tokens rest skipped : List Token} {token : Token}

/-- Repetition takes up what its steps take up. -/
theorem gains_iterate {step : σ → Reading (Turn σ)} {state last : σ} (clean : σ → Prop)
    (remarks : σ → List Remark)
    (law : ∀ {state turn tokens rest skipped}, (step state).Reads tokens turn rest skipped →
      skipped = [] ∧ Gains clean remarks state tokens turn.state rest)
    (h : (iterate step state).Reads tokens last rest skipped) :
    skipped = [] ∧ Gains clean remarks state tokens last rest := by
  obtain ⟨before, mid, done, passed, ⟨rfl, gains⟩, rfl, ends⟩ := reads_iterate h
    (fun next mid done => done = [] ∧ Gains clean remarks state tokens next mid)
    ⟨rfl, .refl⟩
    (fun ⟨clean, gains⟩ one => by
      obtain ⟨rfl, gains'⟩ := law one
      exact ⟨by rw [clean]; rfl, gains.trans gains'⟩)
  rcases ends with ends | ⟨ends, -⟩
  · obtain ⟨rfl, gains'⟩ := law ends
    exact ⟨rfl, gains.trans gains'⟩
  · obtain ⟨rfl, gains'⟩ := law ends
    exact ⟨rfl, gains.trans gains'⟩

/-! ### Comments -/

end Reading

namespace Reading

variable {tokens rest skipped : List Token} {token : Token}

theorem isComment_of_commentDraft? {token : Token} {draft : CommentDraft}
    (h : commentDraft? token = some draft) : token.isComment = true := by
  rw [commentDraft?] at h
  split at h
  · next kind => simp [Token.isComment, Token.isPlainComment, kind]
  · next kind => simp [Token.isComment, Token.isPlainComment, kind]
  · next kind => simp [Token.isComment, kind]
  · cases h

theorem isEnd_eq_false_of_isComment {token : Token} (h : token.isComment = true) :
    token.isEnd = false := by
  by_cases ends : token.kind = .eof
  · simp [Token.isComment, Token.isPlainComment, ends] at h
  · simp [Token.isEnd, ends]

theorem isWhitespace_eq_false_of_isComment {token : Token} (h : token.isComment = true) :
    token.isWhitespace = false := by
  by_cases blank : token.kind = .whitespace
  · simp [Token.isComment, Token.isPlainComment, blank] at h
  · simp [Token.isWhitespace, blank]

/-- A comment is what the first token behind white space says, and that token alone. -/
theorem reads_comment {node : Comment} :
    comment.Reads tokens node rest skipped ↔
      skipped = [] ∧ ∃ token draft, tokens.dropWhile Token.isWhitespace = token :: rest ∧
        commentDraft? token = some draft ∧ draft.build = .ok node := by
  simp only [comment, reads_scopeHere_bind, reads_finish, reads_current_bind]
  constructor
  · rintro ⟨rfl, attempt, h, -, built⟩
    refine ⟨rfl, ?_⟩
    cases found : commentDraft? (currentToken (tokens.dropWhile Token.isWhitespace)) with
    | none => simp [found] at h
    | some draft =>
        simp only [found, reads_advance_bind, reads_pure] at h
        obtain ⟨rfl, rfl, -⟩ := h
        cases ahead : tokens.dropWhile Token.isWhitespace with
        | nil =>
            rw [ahead] at found
            cases found
        | cons token others =>
            rw [ahead, currentToken, List.head?_cons, Option.getD_some] at found
            have inside := isEnd_eq_false_of_isComment (isComment_of_commentDraft? found)
            exact ⟨token, draft, by simp [currentToken, inside], found, built⟩
  · rintro ⟨rfl, token, draft, ahead, found, built⟩
    have inside := isEnd_eq_false_of_isComment (isComment_of_commentDraft? found)
    refine ⟨rfl, { built := draft.build }, ?_, rfl, built⟩
    rw [ahead]
    simp [currentToken, found, inside]

/-- So is a Javadoc. -/
theorem reads_javadoc {node : Javadoc} :
    javadoc.Reads tokens node rest skipped ↔
      skipped = [] ∧ ∃ token, tokens.dropWhile Token.isWhitespace = token :: rest ∧
        token.kind = .docComment ∧
        (JavadocDraft.ofBody (between "/**".toList token.text)).2 = [] ∧
        (JavadocDraft.ofBody (between "/**".toList token.text)).1.build = .ok node := by
  simp only [javadoc, reads_scopeHere_bind, reads_finish, reads_current_bind, reads_ite,
    reads_advance_bind, reads_pure, not_reads_unexpected, and_false, or_false]
  constructor
  · rintro ⟨rfl, attempt, ⟨kind, rfl, rfl, -⟩, clean, built⟩
    refine ⟨rfl, ?_⟩
    cases ahead : tokens.dropWhile Token.isWhitespace with
    | nil =>
        rw [ahead] at kind
        cases kind
    | cons token others =>
        rw [ahead] at kind clean built
        simp only [currentToken, List.head?_cons, Option.getD_some] at kind clean built
        exact ⟨token, by simp [currentToken, Token.isEnd, kind], kind, clean, built⟩
  · rintro ⟨rfl, token, ahead, kind, clean, built⟩
    have inside : token.isEnd = false := by simp [Token.isEnd, kind]
    have here : currentToken (token :: rest) = token := rfl
    rw [ahead, here]
    cases parts : JavadocDraft.ofBody (between "/**".toList token.text) with
    | mk draft defects =>
        rw [parts] at clean built
        dsimp only at clean built ⊢
        exact ⟨rfl, ⟨defects, [], draft.build⟩, ⟨kind, rfl, by rw [inside]; rfl, trivial⟩, clean,
          built⟩

/-- A comment token that stands in code accounts for what it yields. -/
theorem accounted_cons {remark : Remark} (comment : token.isComment = true)
    (yields : token.Yields remark) : Accounted (token :: rest) [remark] rest := by
  refine ⟨[token], [remark], ?_, .cons yields .nil, .refl _⟩
  have next : Region.next (.code false) token rest = .code false := by
    have kinds : token.kind = .lineComment ∨ token.kind = .blockComment ∨
        token.kind = .docComment := by
      simpa [Token.isComment, Token.isPlainComment, or_assoc] using comment
    rcases kinds with kind | kind | kind <;> simp [Region.next, kind]
  rw [openComments, if_neg (by simp [isEnd_eq_false_of_isComment comment]), next,
    Region.shows, if_pos comment]
  rfl

theorem accounted_comment {node : Comment} (h : comment.Reads tokens node rest skipped) :
    skipped = [] ∧ Accounted tokens [.comment node] rest := by
  obtain ⟨rfl, token, draft, ahead, found, built⟩ := reads_comment.1 h
  have comment := isComment_of_commentDraft? found
  have yields : token.Yields (.comment node) := by
    refine Entry.read_eq_ok_iff.2 ⟨[], reads_comment.2 ⟨rfl, token, draft, ?_, found, built⟩⟩
    simp [isWhitespace_eq_false_of_isComment comment]
  refine ⟨rfl, .of_eq_trans (openComments_dropWhile_isWhitespace rfl tokens).symm ?_⟩
  rw [ahead]
  exact accounted_cons comment yields

theorem accounted_javadoc {node : Javadoc} (h : javadoc.Reads tokens node rest skipped) :
    skipped = [] ∧ Accounted tokens [.javadoc node] rest := by
  obtain ⟨rfl, token, ahead, kind, clean, built⟩ := reads_javadoc.1 h
  have yields : token.Yields (.javadoc node) := by
    refine Entry.read_eq_ok_iff.2 ⟨[], reads_javadoc.2 ⟨rfl, token, ?_, kind, clean, built⟩⟩
    simp [Token.isWhitespace, kind]
  refine ⟨rfl, .of_eq_trans (openComments_dropWhile_isWhitespace rfl tokens).symm ?_⟩
  rw [ahead]
  exact accounted_cons (by simp [Token.isComment, kind]) yields

/-! ### Prefaces -/

theorem gains_addComment (preface : Preface) (comment : Comment)
    (account : Accounted tokens [.comment comment] rest) :
    Gains (fun preface : Preface => preface.defects = [])
      (fun preface => preface.toLeadDraft.lead.remarks) preface tokens
      (preface.addComment comment) rest := by
  intro clean
  rw [Preface.addComment] at clean ⊢
  by_cases present : preface.sectionComment.isSome = true
  · rw [if_pos present, List.append_eq_nil_iff] at clean
    cases clean.2
  · rw [if_neg present] at clean ⊢
    have absent : preface.sectionComment = none := by simpa using present
    refine ⟨clean, [.comment comment], account, ?_⟩
    simp only [Lead.remarks, LeadDraft.lead, absent, Option.toList_some, Option.toList_none,
      List.map_cons, List.map_nil, List.nil_append]
    exact (List.perm_append_comm)

/-- One item of a preface is taken up, unless it is a second comment. -/
theorem gains_prefaceItem {preface : Preface} {turn : Turn Preface}
    (h : (prefaceItem preface).Reads tokens turn rest skipped) :
    skipped = [] ∧ Gains (fun preface => preface.defects = [])
      (fun preface => preface.toLeadDraft.lead.remarks) preface tokens turn.state rest ∧
      turn.state.javadoc = preface.javadoc := by
  have blank := @openComments_dropWhile_isWhitespace (.code false) rfl tokens
  simp only [prefaceItem, reads_skipWhitespace_bind, reads_current_bind, reads_ite] at h
  rcases h with ⟨plain, h⟩ | ⟨-, ⟨sign, h⟩ | ⟨-, h⟩⟩
  · simp only [reads_bind, reads_pure] at h
    obtain ⟨node, _, _, _, reads, ⟨rfl, rfl, rfl⟩, rfl⟩ := h
    obtain ⟨rfl, account⟩ := accounted_comment reads
    refine ⟨rfl, gains_addComment preface node (.of_eq_trans blank.symm account), ?_⟩
    simp only [Turn.state, Preface.addComment]
    split <;> rfl
  · simp only [reads_bind, reads_pure] at h
    obtain ⟨node, _, _, _, reads, ⟨rfl, rfl, rfl⟩, rfl⟩ := h
    obtain ⟨rfl, same⟩ := openComments_annotationUse reads
    refine ⟨rfl, fun clean => ⟨clean, [], .of_eq (blank.symm.trans same), ?_⟩, rfl⟩
    simp [Turn.state, Preface.addAnnotation, Lead.remarks, LeadDraft.lead]
  · rw [reads_atStaticBlock_bind] at h
    rcases reads_ite.1 h with ⟨-, h⟩ | ⟨-, h⟩
    · obtain ⟨rfl, rfl, rfl⟩ := reads_pure.1 h
      exact ⟨rfl, fun clean => ⟨clean, [], .of_eq blank.symm, by simp [Turn.state]⟩, rfl⟩
    · cases found : (currentToken (tokens.dropWhile Token.isWhitespace)).keyword?.bind
          Keyword.modifier? with
      | none =>
          simp only [found, reads_pure] at h
          obtain ⟨rfl, rfl, rfl⟩ := h
          exact ⟨rfl, fun clean => ⟨clean, [], .of_eq blank.symm, by simp [Turn.state]⟩, rfl⟩
      | some modifier =>
          simp only [found, reads_advance_bind, reads_pure] at h
          obtain ⟨rfl, rfl, rfl⟩ := h
          obtain ⟨word, is, modifies⟩ := Option.bind_eq_some_iff.1 found
          have kind := Token.kind_of_keyword? is
          have inside : (currentToken (tokens.dropWhile Token.isWhitespace)).isEnd = false := by
            simp [Token.isEnd, kind]
          have neutral : (Kind.keyword word).isNeutral = true := by
            cases word <;> first | rfl | cases modifies
          rw [← kind] at neutral
          have same := blank.symm.trans (openComments_tail_of_isNeutral neutral)
          rw [inside]
          refine ⟨rfl, fun clean => ⟨clean, [], .of_eq same, ?_⟩, rfl⟩
          simp [Turn.state, Preface.addModifier, Lead.remarks, LeadDraft.lead]

theorem gains_modifierRun {preface last : Preface}
    (h : (modifierRun preface).Reads tokens last rest skipped) :
    skipped = [] ∧ Gains (fun preface => preface.defects = [])
      (fun preface => preface.toLeadDraft.lead.remarks) preface tokens last rest ∧
      last.javadoc = preface.javadoc := by
  have gains := gains_iterate (fun preface : Preface => preface.defects = [])
    (fun preface => preface.toLeadDraft.lead.remarks)
    (fun reads => ⟨(gains_prefaceItem reads).1, (gains_prefaceItem reads).2.1⟩) h
  refine ⟨gains.1, gains.2, ?_⟩
  obtain ⟨before, mid, _, _, same, -, ends⟩ := reads_iterate h
    (fun next _ _ => next.javadoc = preface.javadoc) rfl
    (fun same one => (gains_prefaceItem one).2.2.trans same)
  rcases ends with ends | ⟨ends, -⟩
  · exact (gains_prefaceItem ends).2.2.trans same
  · exact (gains_prefaceItem ends).2.2.trans same

end Reading

/-! ### Attachment -/

/-- The Javadoc that a member has in front of it already. -/
def Member.javadoc? : Member → Option Javadoc
  | .field node => node.javadoc
  | .method node => node.javadoc
  | .classDecl head _ => head.javadoc
  | .staticBlock _ | .comment _ => none

namespace BodyItem

/-- The comments and Javadocs of an item of a class body. -/
def remarks : BodyItem → List Remark
  | .sectionComment node => [.comment node]
  | .javadoc node => [.javadoc node]
  | .annotationUse _ => []
  | .member node => node.remarks

/-- A member among the items of a class body gets its Javadoc from an item in front of it. -/
def Bare : BodyItem → Prop
  | .member node => node.javadoc? = none
  | _ => True

end BodyItem

/-- What waits for a declaration, as comments and Javadocs. -/
def Pending.remarks (pending : Pending) : List Remark :=
  pending.sectionComment.toList.map .comment ++ pending.javadoc.toList.map .javadoc

/-- The comments and Javadocs of the members so far, and those that wait. -/
def Attachment.remarks (state : Attachment) : List Remark :=
  Member.remarksEach state.members ++ state.pending.remarks

namespace Pending

variable {pending : Pending}

/-- What waits and what a lead has already are both in the lead that takes it, unless one of them
takes the place of the other. -/
theorem remarks_onLead {lead : Lead}
    (comment : pending.sectionComment = none ∨ lead.sectionComment = none)
    (javadoc : lead.javadoc = none) :
    (pending.onLead lead).remarks.Perm (pending.remarks ++ lead.remarks) := by
  rw [onLead, Lead.remarks, Lead.remarks, remarks, javadoc]
  rcases comment with absent | absent
  · rw [absent]
    simpa using List.perm_append_comm
  · rw [absent]
    simp

/-- A declaration that takes what waits holds the comments and Javadocs of both. -/
theorem remarks_onMember {member result : Member} (h : pending.onMember member = .ok result)
    (declares : member.name?.isSome = true)
    (comment : pending.sectionComment = none ∨ member.sectionComment? = none)
    (javadoc : member.javadoc? = none) :
    result.remarks.Perm (pending.remarks ++ member.remarks) := by
  cases member with
  | field node =>
      obtain ⟨-, -, rfl⟩ := (onMember_eq_ok_iff rfl).1 h
      exact remarks_onLead comment javadoc
  | method node =>
      obtain ⟨-, -, rfl⟩ := (onMember_eq_ok_iff rfl).1 h
      exact remarks_onLead comment javadoc
  | classDecl head members =>
      obtain ⟨-, -, rfl⟩ := (onMember_eq_ok_iff rfl).1 h
      rw [Member.withLead, Member.remarks, Member.remarks]
      have lead : (pending.onLead head.toLead).remarks.Perm
          (pending.remarks ++ head.toLead.remarks) := remarks_onLead comment javadoc
      have swap : (head.headerComments.map Remark.comment ++
          (pending.onLead head.toLead).remarks).Perm
          (pending.remarks ++ (head.headerComments.map Remark.comment ++
            head.toLead.remarks)) := by
        refine (lead.append_left _).trans ?_
        rw [← List.append_assoc, ← List.append_assoc]
        exact List.perm_append_comm.append_right _
      have whole := (swap.append_right (Member.remarksEach members)).append_right
        (head.trailingComments.map Remark.comment)
      simpa only [List.append_assoc] using whole
  | staticBlock node => cases declares
  | comment node => cases declares

end Pending

theorem Member.remarksEach_append (first second : List Member) :
    remarksEach (first ++ second) = remarksEach first ++ remarksEach second := by
  rw [remarksEach_eq_flatMap, remarksEach_eq_flatMap, remarksEach_eq_flatMap, List.flatMap_append]

theorem Member.remarksEach_comments (comments : List Comment) :
    remarksEach (comments.map .comment) = comments.map .comment := by
  induction comments with
  | nil => rfl
  | cons comment rest ih => rw [List.map_cons, remarksEach, ih, remarks, List.map_cons]; rfl

namespace Attachment

/-- Giving a waiting comment a place of its own. -/
theorem remarks_addComments (state : Attachment) :
    Member.remarksEach (state.addComments state.pending.sectionComment).members =
      Member.remarksEach state.members ++ state.pending.sectionComment.toList.map .comment := by
  rw [addComments, Member.remarksEach_append, Member.remarksEach_comments]

theorem remarks_addDeclaration {state : Attachment} {member : Member}
    (declares : member.name?.isSome = true) (javadoc : member.javadoc? = none)
    (clean : (state.addDeclaration member).defects = []) :
    state.defects = [] ∧
      (state.addDeclaration member).remarks.Perm (state.remarks ++ member.remarks) := by
  -- The state once a waiting comment has made room for one that the member has already.
  obtain ⟨ready, found, comment, defects, same⟩ : ∃ ready : Attachment,
      ready = (if member.sectionComment?.isSome then
        { state.addComments state.pending.sectionComment with
          pending := { state.pending with sectionComment := none } }
      else state) ∧
      (ready.pending.sectionComment = none ∨ member.sectionComment? = none) ∧
      ready.defects = state.defects ∧ ready.remarks = state.remarks := by
    refine ⟨_, rfl, ?_⟩
    by_cases present : member.sectionComment?.isSome = true
    · rw [if_pos present]
      refine ⟨.inl rfl, rfl, ?_⟩
      rw [remarks, remarks_addComments, remarks, Pending.remarks, Pending.remarks]
      simp
    · rw [if_neg present]
      exact ⟨.inr (by simpa using present), rfl, rfl⟩
  cases taken : ready.pending.onMember member with
  | error error =>
      have step : state.addDeclaration member =
          { members := ready.members ++ [member]
            pending := {}
            defects := ready.defects ++ error.defects } := by
        rw [found] at taken ⊢
        rw [addDeclaration]
        split
        · next met => cases met.symm.trans taken
        · next met =>
            cases met.symm.trans taken
            rfl
      rw [step, List.append_eq_nil_iff] at clean
      exact absurd clean.2 (Explains.onMember ready.pending member error taken)
  | ok taker =>
      have step : state.addDeclaration member =
          { ready with members := ready.members ++ [taker], pending := {} } := by
        rw [found] at taken ⊢
        rw [addDeclaration]
        split
        · next met =>
            cases met.symm.trans taken
            rfl
        · next met => cases met.symm.trans taken
      rw [step] at clean ⊢
      refine ⟨defects ▸ clean, ?_⟩
      rw [← same]
      simp only [remarks, Member.remarksEach_append, Member.remarksEach, List.append_nil]
      have gained := Pending.remarks_onMember taken declares comment javadoc
      have nothing : Pending.remarks {} = [] := rfl
      rw [nothing, List.append_nil, List.append_assoc]
      exact gained.append_left _

/-- One more item of a class body loses no comment, unless it reports a defect. -/
theorem remarks_add {state : Attachment} {item : BodyItem} (bare : item.Bare)
    (clean : (state.add item).defects = []) :
    state.defects = [] ∧ (state.add item).remarks.Perm (state.remarks ++ item.remarks) := by
  cases item with
  | sectionComment comment =>
      refine ⟨clean, ?_⟩
      simp only [add, addSectionComment, remarks, remarks_addComments, Pending.remarks,
        BodyItem.remarks]
      simp only [addComments, Option.toList_some, List.map_cons, List.map_nil, List.append_assoc,
        List.cons_append, List.nil_append]
      refine List.Perm.append_left _ (List.Perm.append_left _ ?_)
      exact (List.perm_append_singleton _ _).symm
  | javadoc javadoc =>
      simp only [add, addJavadoc, List.append_eq_nil_iff] at clean
      refine ⟨clean.1, ?_⟩
      have absent : state.pending.javadoc = none := by
        by_cases present : state.pending.javadoc.isSome = true
        · rw [if_pos present] at clean
          cases clean.2
        · simpa using present
      simp [add, addJavadoc, remarks, Pending.remarks, BodyItem.remarks, absent]
  | annotationUse used =>
      refine ⟨clean, ?_⟩
      simp [add, addAnnotation, remarks, Pending.remarks, BodyItem.remarks]
  | member member =>
      cases member with
      | comment comment =>
          refine ⟨clean, ?_⟩
          simp only [add, remarks, Member.remarksEach_append, Member.remarksEach, Member.remarks,
            BodyItem.remarks, List.append_nil, List.append_assoc]
          exact List.perm_append_comm.append_left _
      | staticBlock block =>
          simp only [add, addStaticBlock, List.append_eq_nil_iff] at clean
          obtain ⟨⟨before, javadoc⟩, -⟩ := clean
          have absent : state.pending.javadoc = none := by
            by_cases present : state.pending.javadoc.isSome = true
            · rw [if_pos present] at javadoc
              cases javadoc
            · simpa using present
          refine ⟨before, ?_⟩
          simp [add, addStaticBlock, remarks, Member.remarksEach_append, remarks_addComments,
            Member.remarksEach, Member.remarks, Pending.remarks, BodyItem.remarks, absent]
      | field node => exact remarks_addDeclaration rfl bare clean
      | method node => exact remarks_addDeclaration rfl bare clean
      | classDecl head members => exact remarks_addDeclaration rfl bare clean

/-- Attaching the items of a body loses no comment, as long as nothing is reported. -/
theorem remarks_foldl {items : List BodyItem} {state : Attachment}
    (bare : ∀ item ∈ items, item.Bare) (clean : (items.foldl add state).defects = []) :
    state.defects = [] ∧
      (items.foldl add state).remarks.Perm (state.remarks ++ items.flatMap BodyItem.remarks) := by
  induction items generalizing state with
  | nil => exact ⟨clean, by simp⟩
  | cons item rest ih =>
      rw [List.forall_mem_cons] at bare
      obtain ⟨clean', later⟩ := ih bare.2 clean
      obtain ⟨clean, one⟩ := remarks_add bare.1 clean'
      refine ⟨clean, later.trans ?_⟩
      rw [List.flatMap_cons, ← List.append_assoc]
      exact one.append_right _

end Attachment

/-- Attaching loses no comment of the items of a class body, and adds none. -/
theorem remarks_attach {items : List BodyItem} {members : List Member}
    (bare : ∀ item ∈ items, item.Bare) (h : attach items = (members, [])) :
    (Member.remarksEach members).Perm (items.flatMap BodyItem.remarks) := by
  simp only [attach, Attachment.close, Prod.mk.injEq, List.append_eq_nil_iff] at h
  obtain ⟨rfl, ⟨clean, javadoc⟩, -⟩ := h
  obtain ⟨-, all⟩ := Attachment.remarks_foldl bare clean
  have absent : (items.foldl Attachment.add {}).pending.javadoc = none := by
    by_cases present : (items.foldl Attachment.add {}).pending.javadoc.isSome = true
    · rw [if_pos present] at javadoc
      cases javadoc
    · simpa using present
  rw [Attachment.remarks_addComments]
  simpa [Attachment.remarks, Pending.remarks, absent, Member.remarksEach] using all

/-! ### Classes -/

/-- What is to be shown of the declarations in a class body: all open comments up to their end are
in them, none as a Javadoc. -/
def Keeps (nested : Reading Declaration) : Prop :=
  ∀ {tokens declared rest skipped}, nested.Reads tokens declared rest skipped →
    skipped = [] ∧ Accounted tokens declared.toMember.remarks rest ∧
      declared.toMember.javadoc? = none

namespace Reading

variable {tokens rest skipped : List Token} {scope : Scope} {nested : Reading Declaration}

/-- One more item of a class body, with all open comments up to its end. -/
theorem accounted_bodyItem (keeps : Keeps nested) {name : Text} {items : List BodyItem}
    {turn : Turn (List BodyItem)}
    (h : (bodyItem nested scope name items).Reads tokens turn rest skipped) :
    skipped = [] ∧ ∃ more, turn.state = items ++ more ∧ (∀ item ∈ more, item.Bare) ∧
      Accounted tokens (more.flatMap BodyItem.remarks) rest := by
  have blank := @openComments_dropWhile_isWhitespace (.code false) rfl tokens
  simp only [bodyItem, reads_skipWhitespace_bind, reads_current_bind, reads_ite,
    not_reads_fail, and_false, false_or] at h
  rcases h with ⟨close, h⟩ | ⟨-, -, ⟨semicolon, h⟩ | ⟨-, ⟨doc, h⟩ | ⟨-, ⟨plain, h⟩ | ⟨-, ⟨sign, h⟩ |
    ⟨-, h⟩⟩⟩⟩⟩
  · simp only [reads_advance_bind, reads_pure] at h
    obtain ⟨rfl, rfl, rfl⟩ := h
    have inside : (currentToken (tokens.dropWhile Token.isWhitespace)).isEnd = false := by
      simp [Token.isEnd, close]
    rw [inside]
    exact ⟨rfl, [], by simp [Turn.state], by simp, .of_eq
      (blank.symm.trans (openComments_tail_of_kind close (by decide) rfl))⟩
  · simp only [reads_advance_bind, reads_pure] at h
    obtain ⟨rfl, rfl, rfl⟩ := h
    have inside : (currentToken (tokens.dropWhile Token.isWhitespace)).isEnd = false := by
      simp [Token.isEnd, semicolon]
    rw [inside]
    exact ⟨rfl, [], by simp [Turn.state], by simp, .of_eq
      (blank.symm.trans (openComments_tail_of_kind semicolon (by decide) rfl))⟩
  · simp only [reads_bind, reads_pure] at h
    obtain ⟨node, _, _, _, reads, ⟨rfl, rfl, rfl⟩, rfl⟩ := h
    obtain ⟨rfl, account⟩ := accounted_javadoc reads
    exact ⟨rfl, [.javadoc node], rfl, by simp [BodyItem.Bare], .of_eq_trans blank.symm account⟩
  · simp only [reads_left_bind] at h
    simp only [reads_bind, reads_pure] at h
    obtain ⟨node, _, _, _, reads, ⟨rfl, rfl, rfl⟩, rfl⟩ := h
    obtain ⟨rfl, account⟩ := accounted_comment reads
    refine ⟨rfl, [_], rfl, ?_, .of_eq_trans blank.symm ?_⟩
    · split <;> simp [BodyItem.Bare, Member.javadoc?]
    · split
      · exact account
      · exact account
  · simp only [reads_bind, reads_pure] at h
    obtain ⟨node, _, _, _, reads, ⟨rfl, rfl, rfl⟩, rfl⟩ := h
    obtain ⟨rfl, same⟩ := openComments_annotationUse reads
    exact ⟨rfl, [.annotationUse node], rfl, by simp [BodyItem.Bare],
      .of_eq (blank.symm.trans same)⟩
  · rw [reads_atStaticBlock_bind] at h
    rcases reads_ite.1 h with ⟨-, h⟩ | ⟨-, h⟩
    · simp only [reads_bind, reads_pure] at h
      obtain ⟨node, _, _, _, reads, ⟨rfl, rfl, rfl⟩, rfl⟩ := h
      obtain ⟨rfl, same⟩ := openComments_staticBlock reads
      exact ⟨rfl, [.member (.staticBlock node)], rfl, by simp [BodyItem.Bare, Member.javadoc?],
        .of_eq (blank.symm.trans same)⟩
    · simp only [reads_bind, reads_pure] at h
      obtain ⟨node, _, _, _, reads, ⟨rfl, rfl, rfl⟩, rfl⟩ := h
      obtain ⟨rfl, account, bare⟩ := keeps reads
      refine ⟨rfl, [.member node.toMember], rfl, by simpa [BodyItem.Bare] using bare,
        .of_eq_trans blank.symm ?_⟩
      simpa [BodyItem.remarks] using account

/-- A class body up to the brace that closes it. -/
theorem accounted_body (keeps : Keeps nested) {name : Text} {items : List BodyItem}
    (h : (iterate (bodyItem nested scope name) []).Reads tokens items rest skipped) :
    skipped = [] ∧ (∀ item ∈ items, item.Bare) ∧
      Accounted tokens (items.flatMap BodyItem.remarks) rest := by
  obtain ⟨before, mid, _, passed, ⟨rfl, bare, account⟩, split, ends⟩ := reads_iterate h
    (fun items mid done => done = [] ∧ (∀ item ∈ items, item.Bare) ∧
      Accounted tokens (items.flatMap BodyItem.remarks) mid)
    ⟨rfl, by simp, .of_eq rfl⟩
    (fun ⟨clean, bare, account⟩ one => by
      obtain ⟨rfl, more, grown, bare', account'⟩ := accounted_bodyItem keeps one
      simp only [Turn.state] at grown
      subst clean grown
      refine ⟨rfl, ?_, ?_⟩
      · rw [List.forall_mem_append]
        exact ⟨bare, bare'⟩
      · rw [List.flatMap_append]
        exact account.trans account')
  have last : ∀ {turn}, (bodyItem nested scope name before).Reads mid turn rest passed →
      turn.state = items → skipped = [] ∧ (∀ item ∈ items, item.Bare) ∧
        Accounted tokens (items.flatMap BodyItem.remarks) rest := by
    intro turn reads same
    obtain ⟨rfl, more, grown, bare', account'⟩ := accounted_bodyItem keeps reads
    rw [same] at grown
    subst grown
    refine ⟨split, ?_, ?_⟩
    · rw [List.forall_mem_append]
      exact ⟨bare, bare'⟩
    · rw [List.flatMap_append]
      exact account.trans account'
  rcases ends with ends | ⟨ends, -⟩
  · exact last ends rfl
  · exact last ends rfl

/-- One clause in the head of a class, or the brace behind them. -/
theorem openComments_ancestryClause {kind : ClassKind} {name : Text} {ancestry : Ancestry}
    {turn : Turn Ancestry}
    (h : (ancestryClause scope kind name ancestry).Reads tokens turn rest []) :
    openComments (.code true) tokens = openComments (.code turn.goesOn) rest ∧
      (turn.goesOn = true → rest.length < tokens.length) := by
  simp only [ancestryClause, reads_bind_nil, reads_skipTrivia, reads_current, reads_ite,
    reads_pure, reads_advance, not_reads_unexpected, and_false, or_false] at h
  obtain ⟨_, _, ⟨rfl, clean⟩, _, _, ⟨rfl, rfl, -⟩, h⟩ := h
  rw [← openComments_of_leadingComments rfl clean.symm]
  -- Behind its keyword a clause is a list of types.
  have clause : ∀ {word : Keyword} {types mid}, (Kind.keyword word).isNeutral = true →
      (currentToken (significantFrom 0 tokens)).kind = .keyword word →
      (typeList scope).Reads (if (currentToken (significantFrom 0 tokens)).isEnd
        then significantFrom 0 tokens else (significantFrom 0 tokens).tail) types mid [] →
      openComments (.code true) (significantFrom 0 tokens) = openComments (.code true) mid ∧
        mid.length < tokens.length := by
    intro word types mid neutral is reads
    obtain ⟨token, behind, passed, kind, passes⟩ := exists_passes_of_kind is (by simp)
    rw [passes.significantFrom_zero] at reads ⊢
    have here : currentToken (token :: behind) = token := rfl
    rw [here, passes.isEnd_eq_false] at reads
    rw [← kind] at neutral
    have step : openComments (.code true) (token :: behind) = openComments (.code true) behind :=
      openComments_tail_of_isNeutral neutral
    exact ⟨step.trans (openComments_typeList reads),
      Nat.lt_of_le_of_lt reads.length_le passes.length_lt⟩
  rcases h with ⟨is, _, _, ⟨rfl, rfl, -⟩, types, _, reads, rfl, rfl, -⟩ |
    ⟨-, ⟨is, _, _, ⟨rfl, rfl, -⟩, types, _, reads, rfl, rfl, -⟩ |
      ⟨-, is, _, _, ⟨rfl, rfl, -⟩, rfl, rfl, -⟩⟩
  · obtain ⟨same, shorter⟩ := clause rfl is reads
    exact ⟨same, fun _ => shorter⟩
  · obtain ⟨same, shorter⟩ := clause rfl is reads
    exact ⟨same, fun _ => shorter⟩
  · have inside : (currentToken (significantFrom 0 tokens)).isEnd = false := by
      simp [Token.isEnd, is]
    rw [inside]
    exact ⟨openComments_tail_of_kind is (by decide) rfl, fun more => by cases more⟩

theorem openComments_ancestry {kind : ClassKind} {name : Text} {ancestry : Ancestry}
    (h : (iterate (ancestryClause scope kind name) {}).Reads tokens ancestry rest []) :
    openComments (.code true) tokens = openComments (.code false) rest := by
  obtain ⟨before, mid, done, passed, inv, split, ends⟩ := reads_iterate h
    (fun _ mid done => done = [] →
      openComments (.code true) tokens = openComments (.code true) mid)
    (fun _ => rfl)
    (fun inv one clean => by
      rw [List.append_eq_nil_iff] at clean
      obtain ⟨rfl, rfl⟩ := clean
      exact (inv rfl).trans (openComments_ancestryClause one).1)
  obtain ⟨rfl, rfl⟩ := List.append_eq_nil_iff.1 split.symm
  rcases ends with ends | ⟨ends, stalled⟩
  · exact (inv rfl).trans (openComments_ancestryClause ends).1
  · exact absurd ((openComments_ancestryClause ends).2 rfl) stalled

/-- A class is told by its keyword, so that looking ahead for the other two never tells it. -/
theorem classifyDeclaration_ne_classDecl (depth : Nat) (tokens : List Token) :
    classifyDeclaration depth tokens ≠ some .classDecl := by
  induction tokens generalizing depth with
  | nil => simp [classifyDeclaration]
  | cons token rest ih =>
      rw [classifyDeclaration]
      split <;> first | exact ih _ | (split <;> first | exact ih _ | simp) | simp

/-- Only a keyword leads to a class. -/
theorem kind_of_classifyTarget (h : classifyTarget tokens = some .classDecl) :
    (currentToken (significantFrom 0 tokens)).kind = .keyword .class ∨
      (currentToken (significantFrom 0 tokens)).kind = .keyword .interface := by
  simp only [classifyTarget] at h
  split at h
  · next kind => exact .inl kind
  · next kind => exact .inr kind
  · exact absurd h (classifyDeclaration_ne_classDecl _ _)
  · exact absurd h (classifyDeclaration_ne_classDecl _ _)
  · split at h
    · exact absurd h (classifyDeclaration_ne_classDecl _ _)
    · cases h
  · cases h

/-- What reading the head of a class leaves alone in its draft. -/
def draftFrame (draft : ClassDraft) : LeadDraft × List Comment × List Member × List Comment :=
  (draft.toLeadDraft, draft.headerComments, draft.members, draft.trailingComments)

theorem draftFrame_withTypeParameters (draft : ClassDraft) (text : Option Text) :
    draftFrame (text.elim draft draft.withTypeParameters) = draftFrame draft := by
  cases text <;> rfl

theorem draftFrame_withSuperclass (draft : ClassDraft) (text : Option Text) :
    draftFrame (text.elim draft draft.withSuperclass) = draftFrame draft := by
  cases text <;> rfl

theorem draftFrame_foldl (types : List Text) (draft : ClassDraft) :
    draftFrame (types.foldl ClassDraft.addInterface draft) = draftFrame draft := by
  induction types generalizing draft with
  | nil => rfl
  | cons type rest ih => rw [List.foldl_cons, ih]; rfl

theorem node_of_draftFrame {draft base : ClassDraft} {node : ClassDecl}
    (built : draft.build = .ok node) (same : draftFrame draft = draftFrame base) :
    node.toLead = base.toLeadDraft.lead ∧ node.headerComments = base.headerComments ∧
      node.members = base.members ∧ node.trailingComments = base.trailingComments := by
  obtain ⟨-, rfl⟩ := settle_eq_ok_iff.1 built
  simp only [draftFrame, Prod.mk.injEq] at same
  obtain ⟨lead, headers, members, trailing⟩ := same
  refine ⟨?_, headers, members, trailing⟩
  rw [← lead]
  rfl

/-- A class behind its preface holds the comments of the preface and all open ones up to its end,
and none of them as a comment of its file. -/
theorem accounted_classRest (keeps : Keeps nested) {preface : Preface} {inner : Bool}
    {node : ClassDecl} (target : classifyTarget tokens = some .classDecl)
    (h : (classRest nested preface inner).Reads tokens node rest skipped) :
    skipped = [] ∧ node.headerComments = [] ∧ node.trailingComments = [] ∧
      node.javadoc = preface.javadoc ∧
      ∃ new, Accounted tokens new rest ∧
        node.remarks.Perm (preface.toLeadDraft.lead.remarks ++ new) := by
  simp only [classRest, reads_finish, reads_bind_nil, reads_note, reads_pure] at h
  obtain ⟨rfl, attempt, ⟨word, first, bumped, name, second, named, _, _, ⟨rfl, -⟩, parameters, _,
    angled, ancestry, fourth, extended, items, _, body, rfl, rfl, -⟩, clean, built⟩ := h
  dsimp only at clean built
  obtain ⟨-, defects⟩ := List.append_eq_nil_iff.1 clean
  -- Up to its body a class holds no open comments.
  have head : openComments (.code false) tokens = openComments (.code false) fourth := by
    have kind := kind_of_classifyTarget target
    have inside : (currentToken (significantFrom 0 tokens)).isEnd = false := by
      rcases kind with kind | kind <;> simp [Token.isEnd, kind]
    obtain ⟨_, _, passes⟩ := exists_passes inside
    obtain ⟨rfl, rfl, rfl⟩ := (reads_bump passes).1 bumped
    rw [passes.openComments_eq rfl (by
      rcases kind with kind | kind <;>
        simp [Region.shows, Token.isComment, Token.isPlainComment, kind])]
    have next : Region.next (.code false) (currentToken (significantFrom 0 tokens)) first =
        .code true := by
      rcases kind with kind | kind <;> simp [Region.next, kind]
    rw [next, openComments_identifier named, openComments_typeParameters angled,
      openComments_ancestry extended]
  obtain ⟨-, bare, account⟩ := accounted_body keeps body
  have attached := remarks_attach bare (Prod.ext rfl defects)
  obtain ⟨lead, headers, members, trailing⟩ := node_of_draftFrame built
    ((draftFrame_foldl _ _).trans ((draftFrame_withSuperclass _ _).trans
      (draftFrame_withTypeParameters _ _)))
  refine ⟨rfl, headers, trailing, ?_, _, .of_eq_trans head account, ?_⟩
  · rw [lead]
    rfl
  · rw [ClassDecl.remarks, Member.ofClass, Member.remarks, headers, members, trailing, lead]
    simpa [ClassDraft.withName] using attached.append_left preface.lead.remarks

theorem accounted_declarationOf (keeps : Keeps nested) {preface : Preface} {inner : Bool}
    {kind : DeclarationKind} {declared : Declaration} (target : classifyTarget tokens = some kind)
    (h : (declarationOf nested preface inner kind).Reads tokens declared rest skipped) :
    skipped = [] ∧ declared.toMember.javadoc? = preface.javadoc ∧
      (∀ node, declared = .classDecl node →
        node.headerComments = [] ∧ node.trailingComments = []) ∧
      ∃ new, Accounted tokens new rest ∧
        declared.toMember.remarks.Perm (preface.toLeadDraft.lead.remarks ++ new) := by
  cases kind with
  | classDecl =>
      simp only [declarationOf, reads_bind, reads_pure] at h
      obtain ⟨node, _, _, _, reads, ⟨rfl, rfl, rfl⟩, rfl⟩ := h
      obtain ⟨rfl, headers, trailing, javadoc, account⟩ := accounted_classRest keeps target reads
      refine ⟨rfl, javadoc, ?_, account⟩
      rintro _ ⟨⟩
      exact ⟨headers, trailing⟩
  | field =>
      simp only [declarationOf, reads_bind, reads_pure] at h
      obtain ⟨node, _, _, _, reads, ⟨rfl, rfl, rfl⟩, rfl⟩ := h
      obtain ⟨rfl, same, lead⟩ := openComments_field reads
      refine ⟨rfl, ?_, by simp, [], .of_eq same, ?_⟩
      · rw [Declaration.toMember, Member.javadoc?, lead]
        rfl
      · rw [Declaration.toMember, Member.remarks, lead, List.append_nil]
  | method =>
      simp only [declarationOf, reads_bind, reads_pure] at h
      obtain ⟨node, _, _, _, reads, ⟨rfl, rfl, rfl⟩, rfl⟩ := h
      obtain ⟨rfl, same, lead⟩ := openComments_method reads
      refine ⟨rfl, ?_, by simp, [], .of_eq same, ?_⟩
      · rw [Declaration.toMember, Member.javadoc?, lead]
        rfl
      · rw [Declaration.toMember, Member.remarks, lead, List.append_nil]

/-- A declaration holds the comments that its preface began with and all open ones up to its
end. -/
theorem accounted_declarationWith (keeps : Keeps nested) {preface : Preface} {inner : Bool}
    {declared : Declaration}
    (h : (declarationWith nested preface inner).Reads tokens declared rest skipped) :
    skipped = [] ∧ declared.toMember.javadoc? = preface.javadoc ∧
      (∀ node, declared = .classDecl node →
        node.headerComments = [] ∧ node.trailingComments = []) ∧
      ∃ new, Accounted tokens new rest ∧
        declared.toMember.remarks.Perm (preface.toLeadDraft.lead.remarks ++ new) := by
  rw [declarationWith, reads_bind] at h
  obtain ⟨run, mid, passed, later, modified, h, rfl⟩ := h
  obtain ⟨rfl, gains, javadoc⟩ := gains_modifierRun modified
  simp only [reads_left_bind, reads_note_bind] at h
  cases target : classifyTarget mid with
  | none => simp [target] at h
  | some kind =>
      simp only [target] at h
      rw [reads_bind] at h
      obtain ⟨value, _, _, _, reads, h, rfl⟩ := h
      simp only [reads_ite, reads_pure, not_reads_fail, and_false, or_false] at h
      obtain ⟨clean, rfl, rfl, rfl⟩ := h
      obtain ⟨rfl, sameJavadoc, fileless, new, account, same⟩ :=
        accounted_declarationOf keeps target (reads_after.1 reads)
      obtain ⟨-, new', account', same'⟩ := gains (List.append_eq_nil_iff.1 clean).2
      refine ⟨rfl, sameJavadoc.trans javadoc, fileless, new' ++ new, account'.trans account, ?_⟩
      rw [← List.append_assoc]
      exact same.trans (same'.append_right new)

/-- Declarations at any depth hold all their comments. -/
theorem keeps_nestedDeclaration : Keeps nestedDeclaration := by
  intro tokens declared rest skipped h
  refine reads_recurse (fun tokens declared rest skipped => skipped = [] ∧
    Accounted tokens declared.toMember.remarks rest ∧ declared.toMember.javadoc? = none)
    ?_ ?_ h
  · intro tokens value rest skipped blocked
    simp at blocked
  · intro nested keeps tokens value rest skipped h
    rw [reads_emptyPreface_bind] at h
    obtain ⟨clean, javadoc, -, new, account, same⟩ := accounted_declarationWith keeps h
    exact ⟨clean, account.perm same.symm, javadoc⟩

end Reading

/-! ### Files -/

/-- The comments and Javadocs of a file so far. -/
def FileState.remarks (state : FileState) : List Remark :=
  state.headerComments.map .comment ++ state.sectionComment.toList.map .comment
    ++ state.outer.toList.flatMap ClassDecl.remarks ++ state.trailingComments.map .comment

/-- The class of a file has no comments of its file until the file ends. -/
def FileState.Fileless (state : FileState) : Prop :=
  ∀ node, state.outer = some node → node.headerComments = [] ∧ node.trailingComments = []

namespace FileState

/-- A comment put behind the comments at the head of a file. -/
theorem perm_insert (state : FileState) (remark : Remark) :
    (state.headerComments.map Remark.comment ++ state.sectionComment.toList.map Remark.comment
      ++ [remark] ++ state.outer.toList.flatMap ClassDecl.remarks
      ++ state.trailingComments.map Remark.comment).Perm (state.remarks ++ [remark]) := by
  rw [List.perm_iff_count]
  intro other
  simp only [remarks, List.count_append]
  omega

theorem remarks_addHeaderComment (state : FileState) (comment : Comment) :
    (state.addHeaderComment comment).remarks.Perm (state.remarks ++ [.comment comment]) := by
  have added : (state.addHeaderComment comment).remarks =
      state.headerComments.map .comment ++ state.sectionComment.toList.map .comment
        ++ [.comment comment] ++ state.outer.toList.flatMap ClassDecl.remarks
        ++ state.trailingComments.map .comment := by
    simp [addHeaderComment, remarks, releaseComment]
  rw [added]
  exact perm_insert state (.comment comment)

theorem remarks_addComment (state : FileState) (attaches : Bool) (comment : Comment) :
    (state.addComment attaches comment).remarks.Perm (state.remarks ++ [.comment comment]) := by
  rw [addComment]
  by_cases behind : state.outer.isSome = true
  · rw [if_pos behind]
    simp [remarks]
  · rw [if_neg behind]
    by_cases stays : attaches = true
    · rw [if_pos stays]
      have added : remarks { state.releaseComment with sectionComment := some comment } =
          state.headerComments.map .comment ++ state.sectionComment.toList.map .comment
            ++ [.comment comment] ++ state.outer.toList.flatMap ClassDecl.remarks
            ++ state.trailingComments.map .comment := by
        simp [remarks, releaseComment]
      rw [added]
      exact perm_insert state (.comment comment)
    · rw [if_neg stays]
      exact remarks_addHeaderComment state comment

theorem outer_addComment (state : FileState) (attaches : Bool) (comment : Comment) :
    (state.addComment attaches comment).outer = state.outer ∧
      (state.addComment attaches comment).defects = state.defects := by
  rw [addComment]
  split
  · exact ⟨rfl, rfl⟩
  · split
    · exact ⟨rfl, rfl⟩
    · exact ⟨rfl, rfl⟩

/-- A package that is not reported changes no comments. -/
theorem remarks_addPackage {state : FileState} {package : Package}
    (clean : (state.addPackage package).defects = []) :
    state.defects = [] ∧ (state.addPackage package).remarks = state.remarks ∧
      (state.addPackage package).outer = state.outer := by
  have reported : ∀ {defect}, (state.report defect).defects ≠ [] := by
    intro defect
    simp [report]
  rw [addPackage] at clean ⊢
  split at clean
  · exact absurd clean reported
  · split at clean
    · exact absurd clean reported
    · split at clean
      · exact absurd clean reported
      · next h h' h'' =>
        rw [if_neg h, if_neg h', if_neg h'']
        exact ⟨clean, rfl, rfl⟩

theorem remarks_addImport {state : FileState} {node : Import}
    (clean : (state.addImport node).defects = []) :
    state.defects = [] ∧ (state.addImport node).remarks = state.remarks ∧
      (state.addImport node).outer = state.outer := by
  rw [addImport] at clean ⊢
  split at clean
  · simp [report] at clean
  · next h =>
    rw [if_neg h]
    exact ⟨clean, rfl, rfl⟩

/-- A declaration that is not reported becomes the class of the file. -/
theorem addDeclaration_of_clean {state : FileState} {declared : Declaration}
    (clean : (state.addDeclaration declared).defects = []) :
    state.defects = [] ∧ state.outer = none ∧ ∃ node, declared = .classDecl node ∧
      state.addDeclaration declared = { state with outer := some node } := by
  cases declared with
  | field node => simp [addDeclaration, report] at clean
  | method node => simp [addDeclaration, report] at clean
  | classDecl node =>
      rw [addDeclaration] at clean ⊢
      split at clean
      · simp [report] at clean
      · next h =>
        rw [if_neg h]
        exact ⟨clean, by simpa using h, node, rfl, rfl⟩

end FileState

/-- The class of a file with the file around it holds all comments of the file. -/
theorem FileState.remarks_attachFile {state : FileState} {outer node : ClassDecl}
    (fileless : outer.headerComments = [] ∧ outer.trailingComments = [])
    (is : state.outer = some outer) (h : state.attachFile outer = .ok node) :
    node.remarks.Perm state.remarks := by
  obtain ⟨-, -, rfl⟩ := FileState.attachFile_eq_ok_iff.1 h
  rw [List.perm_iff_count]
  intro other
  simp only [ClassDecl.remarks, Member.ofClass, Member.remarks, FileState.remarks, is, fileless.1,
    fileless.2, Option.toList_some, List.flatMap_cons, List.flatMap_nil, List.map_append,
    List.map_nil, List.count_append, List.count_nil]
  omega

namespace Reading

variable {tokens rest skipped : List Token}

/-- While the preface of the class of a file is read, comments wait in the file and in the
preface. -/
def waitingRemarks (state : FileState × Preface) : List Remark :=
  state.1.remarks ++ state.2.toLeadDraft.lead.remarks

theorem gains_prefaceComment {state : FileState × Preface} {turn : Turn (FileState × Preface)}
    (h : (prefaceComment state).Reads tokens turn rest skipped) :
    skipped = [] ∧ Gains (fun _ => True) waitingRemarks state tokens turn.state rest ∧
      turn.state.1.defects = state.1.defects ∧ turn.state.1.outer = state.1.outer := by
  have blank := @openComments_dropWhile_isWhitespace (.code false) rfl tokens
  simp only [prefaceComment, reads_skipWhitespace_bind, reads_current_bind, reads_ite] at h
  rcases h with ⟨plain, h⟩ | ⟨-, h⟩
  · simp only [reads_bind, reads_pure] at h
    obtain ⟨node, _, _, _, reads, ⟨rfl, rfl, rfl⟩, rfl⟩ := h
    obtain ⟨rfl, account⟩ := accounted_comment reads
    refine ⟨rfl, fun _ => ⟨trivial, _, .of_eq_trans blank.symm account, ?_⟩, rfl, rfl⟩
    rw [List.perm_iff_count]
    intro other
    simp only [waitingRemarks, Turn.state, FileState.remarks, Lead.remarks, LeadDraft.lead,
      List.map_append, List.count_append, Option.toList_some, List.map_cons, List.map_nil]
    omega
  · obtain ⟨rfl, rfl, rfl⟩ := reads_pure.1 h
    exact ⟨rfl, fun _ => ⟨trivial, [], .of_eq blank.symm, by simp [Turn.state]⟩, rfl, rfl⟩

theorem gains_prefaceComments {state last : FileState × Preface}
    (h : (iterate prefaceComment state).Reads tokens last rest skipped) :
    skipped = [] ∧ Gains (fun _ => True) waitingRemarks state tokens last rest ∧
      last.1.defects = state.1.defects ∧ last.1.outer = state.1.outer := by
  have gains := gains_iterate (fun _ => True) waitingRemarks
    (fun reads => ⟨(gains_prefaceComment reads).1, (gains_prefaceComment reads).2.1⟩) h
  refine ⟨gains.1, gains.2, ?_⟩
  obtain ⟨before, mid, _, _, ⟨defects, outer⟩, -, ends⟩ := reads_iterate h
    (fun next _ _ => next.1.defects = state.1.defects ∧ next.1.outer = state.1.outer) ⟨rfl, rfl⟩
    (fun ⟨defects, outer⟩ one =>
      ⟨(gains_prefaceComment one).2.2.1.trans defects, (gains_prefaceComment one).2.2.2.trans outer⟩)
  rcases ends with ends | ⟨ends, -⟩
  · obtain ⟨-, -, defects', outer'⟩ := gains_prefaceComment ends
    exact ⟨defects'.trans defects, outer'.trans outer⟩
  · obtain ⟨-, -, defects', outer'⟩ := gains_prefaceComment ends
    exact ⟨defects'.trans defects, outer'.trans outer⟩

/-- The declaration behind the comment and the Javadoc that it begins with. -/
theorem gains_declaration {state last : FileState} {preface : Preface}
    (h : (iterate prefaceComment (state, preface) >>= fun both =>
      declaration both.2 false >>= fun declared =>
        pure (both.1.addDeclaration declared)).Reads tokens last rest skipped) :
    skipped = [] ∧ (state.Fileless → last.Fileless) ∧ (last.defects = [] → state.defects = [] ∧
      ∃ new, Accounted tokens new rest ∧
        last.remarks.Perm (waitingRemarks (state, preface) ++ new)) := by
  rw [reads_bind] at h
  obtain ⟨both, mid, _, _, comments, h, rfl⟩ := h
  obtain ⟨rfl, gains, defects, outer⟩ := gains_prefaceComments comments
  rw [reads_bind] at h
  obtain ⟨declared, _, _, _, reads, h, rfl⟩ := h
  obtain ⟨rfl, rfl, rfl⟩ := reads_pure.1 h
  obtain ⟨rfl, -, fileless, new, account, same⟩ :=
    accounted_declarationWith keeps_nestedDeclaration reads
  refine ⟨rfl, ?_, fun clean => ?_⟩
  · intro before node is
    rw [FileState.Fileless, ← outer] at before
    cases declared with
    | classDecl declaredNode =>
        rw [FileState.addDeclaration] at is
        split at is
        · exact before node is
        · simp only [Option.some.injEq] at is
          subst is
          exact fileless _ rfl
    | field => exact before node is
    | method => exact before node is
  · obtain ⟨before, none, node, rfl, added⟩ := FileState.addDeclaration_of_clean clean
    obtain ⟨-, new', account', same'⟩ := gains trivial
    refine ⟨defects.symm.trans before, new' ++ new, account'.trans account, ?_⟩
    rw [added]
    rw [List.perm_iff_count] at same same' ⊢
    intro other
    have first := same other
    have second := same' other
    simp only [Declaration.toMember, waitingRemarks, List.count_append] at first second ⊢
    simp only [FileState.remarks, none, Option.toList_none, Option.toList_some, List.flatMap_cons,
      List.flatMap_nil, List.count_append, List.append_nil, ClassDecl.remarks]
      at first second ⊢
    omega

/-- A declaration at the outermost level takes the comment that waits in the file. -/
theorem gains_outerDeclaration {state last : FileState}
    (h : (outerDeclaration state).Reads tokens last rest skipped) :
    skipped = [] ∧ (state.Fileless → last.Fileless) ∧
      Gains (fun state => state.defects = []) FileState.remarks state tokens last rest := by
  simp only [outerDeclaration] at h
  rw [reads_emptyPreface_bind] at h
  simp only [reads_current_bind, reads_ite] at h
  have waiting : ∀ javadoc : Option Javadoc,
      (waitingRemarks ({ state with sectionComment := none },
        { sectionComment := state.sectionComment, javadoc, start := tokens })).Perm
        (state.remarks ++ javadoc.toList.map .javadoc) := by
    intro javadoc
    rw [List.perm_iff_count]
    intro other
    simp only [waitingRemarks, FileState.remarks, Lead.remarks, LeadDraft.lead, List.count_append,
      Option.toList_none, List.map_nil, List.count_nil]
    omega
  rcases h with ⟨-, h⟩ | ⟨-, h⟩
  · rw [reads_bind] at h
    obtain ⟨node, _, _, _, reads, h, rfl⟩ := h
    obtain ⟨rfl, account⟩ := accounted_javadoc reads
    rw [reads_pure_bind] at h
    obtain ⟨rfl, fileless, gains⟩ := gains_declaration h
    refine ⟨rfl, fileless, fun clean => ?_⟩
    obtain ⟨clean, new, account', same⟩ := gains clean
    refine ⟨clean, _, account.trans account', ?_⟩
    rw [← List.append_assoc]
    exact same.trans ((waiting (some node)).append_right new)
  · rw [reads_pure_bind] at h
    obtain ⟨rfl, fileless, gains⟩ := gains_declaration h
    refine ⟨rfl, fileless, fun clean => ?_⟩
    obtain ⟨clean, new, account, same⟩ := gains clean
    refine ⟨clean, new, account, same.trans ?_⟩
    simpa using (waiting none).append_right new

/-- One more item of a file. -/
theorem gains_fileItem {state : FileState} {turn : Turn FileState}
    (h : (fileItem state).Reads tokens turn rest skipped) :
    skipped = [] ∧ (state.Fileless → turn.state.Fileless) ∧
      Gains (fun state => state.defects = []) FileState.remarks state tokens turn.state rest := by
  have blank := @openComments_dropWhile_isWhitespace (.code false) rfl tokens
  simp only [fileItem, reads_skipWhitespace_bind, reads_current_bind, reads_ite] at h
  rcases h with ⟨-, h⟩ | ⟨inside, ⟨semicolon, h⟩ | ⟨-, ⟨plain, h⟩ | ⟨-, h⟩⟩⟩
  · obtain ⟨rfl, rfl, rfl⟩ := reads_pure.1 h
    exact ⟨rfl, id, fun clean => ⟨clean, [], .of_eq blank.symm, by simp [Turn.state]⟩⟩
  · simp only [reads_advance_bind, reads_pure] at h
    obtain ⟨rfl, rfl, rfl⟩ := h
    rw [if_neg inside]
    exact ⟨rfl, id, fun clean => ⟨clean, [], .of_eq
      (blank.symm.trans (openComments_tail_of_kind semicolon (by decide) rfl)),
      by simp [Turn.state]⟩⟩
  · simp only [reads_left_bind] at h
    simp only [reads_bind, reads_pure] at h
    obtain ⟨node, _, _, _, reads, ⟨rfl, rfl, rfl⟩, rfl⟩ := h
    obtain ⟨rfl, account⟩ := accounted_comment reads
    have kept := FileState.outer_addComment state
      (precedesDeclaration false ((tokens.dropWhile Token.isWhitespace).drop 1)) node
    refine ⟨rfl, ?_, fun clean => ⟨kept.2.symm.trans clean, _, .of_eq_trans blank.symm account,
      FileState.remarks_addComment state _ node⟩⟩
    intro before outer is
    exact before outer (kept.1.symm.trans is)
  · simp only [reads_peek_bind, reads_ite] at h
    rcases h with ⟨-, h⟩ | ⟨-, ⟨-, h⟩ | ⟨-, ⟨-, h⟩ | ⟨-, h⟩⟩⟩
    · simp only [reads_bind, reads_pure] at h
      obtain ⟨node, _, _, _, reads, ⟨rfl, rfl, rfl⟩, rfl⟩ := h
      obtain ⟨rfl, account⟩ := accounted_comment reads
      exact ⟨rfl, id, fun clean => ⟨clean, _, .of_eq_trans blank.symm account,
        FileState.remarks_addHeaderComment state node⟩⟩
    · simp only [reads_bind, reads_pure] at h
      obtain ⟨node, _, _, _, reads, ⟨rfl, rfl, rfl⟩, rfl⟩ := h
      obtain ⟨rfl, same⟩ := openComments_packageStatement reads
      refine ⟨rfl, ?_, fun clean => ?_⟩
      · intro before
        simp only [Turn.state, FileState.addPackage]
        split
        · exact before
        · split
          · exact before
          · split
            · exact before
            · exact before
      · obtain ⟨clean, remarks, -⟩ := FileState.remarks_addPackage clean
        exact ⟨clean, [], .of_eq (blank.symm.trans same), by simp [Turn.state, remarks]⟩
    · simp only [reads_bind, reads_pure] at h
      obtain ⟨node, _, _, _, reads, ⟨rfl, rfl, rfl⟩, rfl⟩ := h
      obtain ⟨rfl, same⟩ := openComments_importStatement reads
      refine ⟨rfl, ?_, fun clean => ?_⟩
      · intro before
        simp only [Turn.state, FileState.addImport]
        split
        · exact before
        · exact before
      · obtain ⟨clean, remarks, -⟩ := FileState.remarks_addImport clean
        exact ⟨clean, [], .of_eq (blank.symm.trans same), by simp [Turn.state, remarks]⟩
    · simp only [reads_bind, reads_pure] at h
      obtain ⟨last, _, _, _, reads, ⟨rfl, rfl, rfl⟩, rfl⟩ := h
      obtain ⟨rfl, fileless, gains⟩ := gains_outerDeclaration reads
      refine ⟨rfl, fileless, fun clean => ?_⟩
      obtain ⟨clean, new, account, same⟩ := gains clean
      exact ⟨clean, new, .of_eq_trans blank.symm account, same⟩

theorem accounted_compilationUnit {node : ClassDecl}
    (h : compilationUnit.Reads tokens node rest skipped) : Accounted tokens node.remarks rest := by
  simp only [compilationUnit, reads_left_bind] at h
  rw [reads_bind] at h
  obtain ⟨state, mid, _, _, items, h, rfl⟩ := h
  obtain ⟨-, gains⟩ := gains_iterate (fun state : FileState => state.defects = [])
    FileState.remarks
    (fun reads => ⟨(gains_fileItem reads).1, (gains_fileItem reads).2.2⟩) items
  have fileless : state.Fileless := by
    obtain ⟨before, _, _, _, fileless, -, ends⟩ := reads_iterate items
      (fun state _ _ => state.Fileless) (fun node is => by cases is)
      (fun before one => (gains_fileItem one).2.1 before)
    rcases ends with ends | ⟨ends, -⟩
    · exact (gains_fileItem ends).2.1 fileless
    · exact (gains_fileItem ends).2.1 fileless
  have notOutOfOrder : ∀ {scope defects} {node : ClassDecl} {tokens rest skipped},
      ¬ (outOfOrder scope defects).Reads tokens node rest skipped := by
    intro scope defects node tokens rest skipped h
    simp [outOfOrder] at h
  cases outer : state.outer with
  | none =>
      rw [outer] at h
      exact absurd h notOutOfOrder
  | some outerNode =>
      simp only [outer, reads_ite, reads_finish, reads_pure] at h
      rcases h with ⟨clean, rfl, attempt, ⟨rfl, rfl, -⟩, -, built⟩ | ⟨-, h⟩
      · obtain ⟨-, new, account, same⟩ := gains clean
        refine account.perm ?_
        have whole := FileState.remarks_attachFile (fileless _ outer) outer built
        exact same.symm.trans whole.symm
      · exact absurd h notOutOfOrder

end Reading

/-- No comment of a file is lost, and none is kept twice. Its open comments, those outside of raw
text, yield one by one the comments and Javadocs of its class, in some order. -/
theorem comments_accounted {name source : Text} {node : ClassDecl}
    (h : Entry.file.parseText name source = .ok node) :
    ∃ tokens remarks, lex source = .ok tokens ∧
      List.Forall₂ Token.Yields (openComments (.code false) tokens) remarks ∧
      remarks.Perm node.remarks := by
  obtain ⟨tokens, lexed, read⟩ := Entry.parseText_eq_ok_iff.1 h
  obtain ⟨rest, skipped, reads, ends⟩ := Entry.readAll_eq_ok_iff.1 read
  obtain ⟨kept, remarks, split, yields, same⟩ := Reading.accounted_compilationUnit reads
  -- Nothing but white space is left behind the file.
  have none : openComments (.code false) rest = [] := by
    rw [← openComments_dropWhile_isWhitespace rfl]
    cases left : rest.dropWhile Token.isWhitespace with
    | nil => rfl
    | cons token others =>
        rw [left] at ends
        exact if_pos ends
  rw [none, List.append_nil] at split
  exact ⟨tokens, remarks, lexed, split ▸ yields, same⟩

/-- A file with comments of all styles, three of them in raw text. The comment behind the
annotation of the method goes before the Javadoc in front of it. -/
def commentedSample : Text :=
  ("// a\npackage p;\n\n/** b */ @X(1 /* raw */) class C \x7b\n    /* c */ int x = /* raw */ 1;\n"
    ++ "    /** d */ @Y // e\n    void f() \x7b /* raw */ \x7d\n    /* f */\n\x7d // g").toList

theorem comments_accounted_commentedSample :
    ∃ node, Entry.file.parseText [] commentedSample = .ok node ∧
      node.remarks =
        [.comment ⟨.line, [['a']], true⟩,
          .javadoc ⟨[['b']], [], none, none, none, none, [], true⟩,
          .comment ⟨.block, [['c']], true⟩, .comment ⟨.line, [['e']], true⟩,
          .javadoc ⟨[['d']], [], none, none, none, none, [], true⟩,
          .comment ⟨.block, [['f']], true⟩, .comment ⟨.line, [['g']], true⟩] ∧
      ∃ tokens remarks, lex commentedSample = .ok tokens ∧
        List.Forall₂ Token.Yields (openComments (.code false) tokens) remarks ∧
        remarks.Perm node.remarks := by
  have reads : (Entry.file.parseText [] commentedSample).toOption.map ClassDecl.remarks =
      some [.comment ⟨.line, [['a']], true⟩,
        .javadoc ⟨[['b']], [], none, none, none, none, [], true⟩,
        .comment ⟨.block, [['c']], true⟩, .comment ⟨.line, [['e']], true⟩,
        .javadoc ⟨[['d']], [], none, none, none, none, [], true⟩,
        .comment ⟨.block, [['f']], true⟩, .comment ⟨.line, [['g']], true⟩] := by
    decide +kernel
  obtain ⟨node, is, remarks⟩ := Option.map_eq_some_iff.1 reads
  have read := eq_ok_of_toOption is
  exact ⟨node, read, remarks, comments_accounted read⟩

end JavaUnit
