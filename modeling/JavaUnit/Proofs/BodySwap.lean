/-
Module: JavaUnit.Proofs.BodySwap
Purpose: Class bodies that come to the same. Annotations that stand ahead of the modifiers of a
  member are items of their own in a class body and wait for it; they end up where those that stand
  among the modifiers do. So the lead of a member may be in any order. What stands in front of the
  member is read as before, and what stands around it is the same class.
Main exports: LeadTokens.exists_items, Reading.BodiesAgree, Reordered.bodiesAgree,
  Reading.BodyItems.swap, Reading.reads_classRest, Reading.InBody.swap
-/
import JavaUnit.Proofs.BodyStep
import JavaUnit.Proofs.LeadTokens

namespace JavaUnit

/-! ### Annotations that wait -/

namespace Declaration

variable (change : LeadChange) (declared : Declaration)

theorem lead?_changed :
    (declared.changed change).toMember.lead? = declared.toMember.lead?.map change.node := by
  cases declared <;> rfl

theorem withLead_changed (lead : Lead) :
    (declared.changed change).toMember.withLead lead = declared.toMember.withLead lead := by
  cases declared <;> rfl

theorem exists_lead : ∃ lead, declared.toMember.lead? = some lead := by
  cases declared <;> exact ⟨_, rfl⟩

end Declaration

namespace Attachment

variable {state : Attachment}

theorem foldl_annotationUse (waiting : List Annotation) :
    (waiting.map BodyItem.annotationUse).foldl add state =
      { state with
        pending := { state.pending with
          annotations := state.pending.annotations ++ waiting } } := by
  induction waiting generalizing state with
  | nil => simp
  | cons used rest ih =>
      rw [List.map_cons, List.foldl_cons, ih]
      simp [add, addAnnotation]

/-- Annotations that wait for a declaration are those that come first among its own. -/
theorem foldl_declaration {waiting own : List Annotation} {given : List Modifier}
    {declared : Declaration} (plain : state.Plain)
    (same : declared = declared.changed (.front (waiting ++ own) given))
    (fresh : (BodyItem.member declared.toMember).Fresh)
    (fresh' : (BodyItem.member (declared.changed (.front own given)).toMember).Fresh) :
    (waiting.map BodyItem.annotationUse ++
        [BodyItem.member (declared.changed (.front own given)).toMember]).foldl add state =
      state.add (.member declared.toMember) := by
  obtain ⟨lead, leads⟩ := declared.exists_lead
  have leads' := declared.lead?_changed (.front own given)
  rw [leads] at leads'
  have annotations : lead.annotations = waiting ++ own ∧
      lead.modifiers = Modifiers.ofList given := by
    have again := declared.lead?_changed (.front (waiting ++ own) given)
    rw [← same, leads] at again
    have is : lead = _ := Option.some.inj again
    exact ⟨congrArg Lead.annotations is, congrArg Lead.modifiers is⟩
  obtain ⟨editable, javadoc⟩ := fresh lead leads
  obtain ⟨editable', javadoc'⟩ := fresh' _ leads'
  have plain' : Plain { state with pending := { state.pending with
      annotations := state.pending.annotations ++ waiting } } := plain
  rw [List.foldl_append, foldl_annotationUse, List.foldl_cons, List.foldl_nil,
    add_declaration leads, add_declaration leads',
    addDeclaration_eq leads editable javadoc plain,
    addDeclaration_eq leads' editable' javadoc' plain', declared.withLead_changed,
    annotations.1, annotations.2, ← List.append_assoc]
  rfl

end Attachment

namespace LeadTokens

variable {annotations : List Annotation} {given : List Modifier}
  {front here blanks rest : List Token}

open Reading

/-- The annotations that a lead begins with are items of their own in a class body; what is left
begins with a modifier or the declaration itself. -/
theorem exists_own (h : LeadTokens annotations given front) (core : Declares here)
    (blank : ∀ token ∈ blanks, token.isWhitespace = true) :
    ∃ waiting own front' blanks', annotations = waiting ++ own ∧ LeadTokens own given front' ∧
      (∀ token ∈ blanks', token.isWhitespace = true) ∧
      (currentToken (front' ++ here)).kind ≠ .atSign ∧
      BodyItems (blanks ++ (front ++ here)) (waiting.map .annotationUse)
        (blanks' ++ (front' ++ here)) := by
  induction h generalizing blanks with
  | nil => exact ⟨[], [], [], blanks, rfl, .nil, blank, core.sign, .nil⟩
  | @used node annotations given group more tokens sign reads white later ih =>
      obtain ⟨waiting, own, front', blanks', rfl, lead, blank', noSign, items⟩ := ih white
      refine ⟨node :: waiting, own, front', blanks', rfl, lead, blank', noSign, ?_⟩
      rw [← List.append_nil group] at reads
      have reads := annotationUse_swap reads (detached_of_leads white (later.leads core))
      have here : currentToken (group ++ (more ++ (tokens ++ here))) = currentToken group :=
        currentToken_append (ne_nil_of_sign sign) _
      have step := BodyStep.annotationUse (here ▸ sign) reads
      rw [List.append_assoc, List.append_assoc]
      exact .cons blank step items
  | @modifier annotations modifier given token more tokens word white later ih =>
      obtain ⟨keyword, kind⟩ := exists_kind_of_modifier word
      exact ⟨[], annotations, _, blanks, rfl, .modifier word white later, blank,
        by simp [currentToken, kind], .nil⟩

/-- No static block is led by annotations or modifiers. -/
theorem blockAhead_eq (h : LeadTokens annotations given front) (core : Declares here) :
    blockAhead (front ++ here) = false := by
  have leads := h.leads core
  have now := @significantFrom_of_leads [] _ (by simp) leads
  rw [List.nil_append] at now
  rw [blockAhead, now, Bool.and_eq_false_iff]
  cases h with
  | nil =>
      refine .inl (decide_eq_false fun static => ?_)
      have word := core.word
      rw [List.nil_append] at static
      rw [static] at word
      cases word
  | used sign =>
      rw [List.append_assoc, currentToken_append (ne_nil_of_sign sign)]
      exact .inl (decide_eq_false (by simp [Token.keyword?, sign]))
  | @modifier _ _ _ token more tokens word white later =>
      obtain ⟨keyword, kind⟩ := exists_kind_of_modifier word
      have later := later.leads core
      have ahead : significantFrom 1 (token :: (more ++ tokens) ++ here) = tokens ++ here := by
        rw [List.cons_append, List.append_assoc]
        simp [significantFrom, Token.isTrivia, Token.isWhitespace, Token.isPlainComment,
          Token.isEnd, kind, significantFrom_of_leads white later]
      refine .inr (decide_eq_false fun opens => ?_)
      rw [ahead] at opens
      exact Token.not_leads_of_mem later (by simp [opens])

theorem startsItem_eq (h : LeadTokens annotations given front) (core : Declares here)
    (noSign : (currentToken (front ++ here)).kind ≠ .atSign) :
    startsItem (currentToken (front ++ here)) = false := by
  have kinds := Token.not_leads_of_mem (h.leads core)
  simp only [List.mem_cons, not_or] at kinds
  simp [startsItem, kinds, noSign]

theorem ink (h : LeadTokens annotations given front) (core : Declares here) :
    (currentToken (front ++ here)).isWhitespace = false := by
  have matters := Token.isTrivia_of_leads (h.leads core)
  rw [Token.isTrivia, Bool.or_eq_false_iff] at matters
  exact matters.1

theorem reads_nestedDeclaration {annotations' : List Annotation} {given' : List Modifier}
    {front' skipped : List Token} {declared : Declaration} (h : LeadTokens annotations given front)
    (h' : LeadTokens annotations' given' front') (order : given.Perm given') (core : Declares here)
    (reads : nestedDeclaration.Reads (front ++ here) declared rest skipped) :
    declared = declared.changed (.front annotations given) ∧
      nestedDeclaration.Reads (front' ++ here) (declared.changed (.front annotations' given)) rest
        [] := by
  have none : ∀ token ∈ ([] : List Token), token.isWhitespace = true := by simp
  let start : Preface := { start := front ++ here }
  let start' : Preface := { start := front' ++ here }
  have alike : start.Alike start' := rfl
  obtain ⟨same, moved⟩ := h.reads_declaration h' order core alike none none
    (Reading.reads_nestedDeclaration.1 reads)
  exact ⟨same, Reading.reads_nestedDeclaration.2 moved⟩

/-- Where a class body is read from the lead of a declaration on, the declaration is read. -/
theorem exists_nested (h : LeadTokens annotations given front) (core : Declares here)
    (blank : ∀ token ∈ blanks, token.isWhitespace = true) {scope : Scope} {name : Text}
    {items last : List BodyItem} {skipped : List Token}
    (reads : (iterate (bodyItem nestedDeclaration scope name) items).Reads
      (blanks ++ (front ++ here)) last rest skipped) :
    ∃ declared mid, nestedDeclaration.Reads (front ++ here) declared mid [] := by
  obtain ⟨waiting, own, front', blanks', rfl, lead, blank', noSign, row⟩ := h.exists_own core blank
  obtain ⟨added, mid, step⟩ :=
    exists_bodyStep blank' (lead.ink core) (row.reads_iterate.1 reads)
  obtain ⟨declared, -, nested⟩ :=
    step.exists_declared (lead.startsItem_eq core noSign) (lead.blockAhead_eq core)
  exact ⟨_, mid, (lead.reads_nestedDeclaration h (.refl _) core nested).2⟩

/-- The items that a declaration with its lead makes in a class body come to the same as the
declaration with all its annotations. -/
theorem exists_items (h : LeadTokens annotations given front) (core : Declares here)
    (blank : ∀ token ∈ blanks, token.isWhitespace = true) {declared : Declaration}
    (reads : nestedDeclaration.Reads (front ++ here) declared rest []) :
    ∃ items, BodyItems (blanks ++ (front ++ here)) items rest ∧ ∀ state : Attachment,
      state.Plain → items.foldl Attachment.add state = state.add (.member declared.toMember) := by
  obtain ⟨waiting, own, front', blanks', rfl, lead, blank', noSign, row⟩ := h.exists_own core blank
  obtain ⟨same, nested⟩ := h.reads_nestedDeclaration lead (.refl _) core reads
  have step := BodyStep.declared (lead.startsItem_eq core noSign) (lead.blockAhead_eq core) nested
  refine ⟨_, row.append (.cons blank' step .nil), fun state plain => ?_⟩
  rw [List.append_nil]
  exact Attachment.foldl_declaration plain same (BodyStep.fresh_of_nestedDeclaration reads)
    (BodyStep.fresh_of_nestedDeclaration nested)

end LeadTokens

namespace Reading

variable {tokens tokens' mid mid' rest skipped x y front blanks : List Token}
  {items items' more : List BodyItem}

/-! ### Bodies that come to the same -/

/-- What is read of a class body from the one place on is read from the other on as well, up to
items that make the same members. -/
def BodiesAgree (here here' : List Token) : Prop :=
  ∀ ⦃scope name items last rest skipped⦄, (items.foldl Attachment.add {}).Plain →
    (iterate (bodyItem nestedDeclaration scope name) items).Reads here last rest skipped →
    ∃ last', last'.foldl Attachment.add {} = last.foldl Attachment.add {} ∧ ∀ scope',
      (iterate (bodyItem nestedDeclaration scope' name) items).Reads here' last' rest skipped

theorem BodiesAgree.refl (here : List Token) : BodiesAgree here here := by
  intro scope name items last rest skipped _ reads
  obtain ⟨more, rfl, anywhere⟩ := exists_more_of_body reads
  exact ⟨_, rfl, fun scope' => anywhere scope' name items⟩

/-- Behind items that make the same members, bodies agree if they do from there on. -/
theorem BodyItems.agree (h : BodyItems tokens items mid) (h' : BodyItems tokens' items' mid')
    (same : ∀ state : Attachment, state.Plain →
      items'.foldl Attachment.add state = items.foldl Attachment.add state)
    (later : BodiesAgree mid mid') : BodiesAgree tokens tokens' := by
  intro scope name before last rest skipped plain reads
  have plain' : ((before ++ items).foldl Attachment.add {}).Plain := by
    rw [List.foldl_append]
    exact h.plain plain
  obtain ⟨_, alike, reads'⟩ := later plain' (h.reads_iterate.1 reads)
  obtain ⟨more, rfl, anywhere⟩ := exists_more_of_body (reads' scope)
  refine ⟨before ++ items' ++ more, ?_, fun scope' => h'.reads_iterate.2 (anywhere scope' name _)⟩
  rw [← alike]
  simp only [List.foldl_append]
  rw [same _ plain]

end Reading

/-- The lead of a declaration may be in any order in a class body. -/
theorem Reordered.bodiesAgree {x y blanks : List Token} (h : Reordered x y)
    (blank : ∀ token ∈ blanks, token.isWhitespace = true) :
    Reading.BodiesAgree (blanks ++ x) (blanks ++ y) := by
  obtain ⟨lead, lead', order, core⟩ := h
  intro scope name before last rest skipped plain reads
  obtain ⟨declared, mid, nested⟩ := lead.exists_nested core blank reads
  obtain ⟨same, nested'⟩ := lead.reads_nestedDeclaration lead' order core nested
  rw [← same] at nested'
  obtain ⟨items, row, makes⟩ := lead.exists_items core blank nested
  obtain ⟨items', row', makes'⟩ := lead'.exists_items core blank nested'
  exact row.agree row' (fun state plain => (makes' state plain).trans (makes state plain).symm)
    (.refl mid) plain reads

namespace Reading

variable {tokens tokens' mid rest skipped x y front back blanks : List Token}
  {items more : List BodyItem}

/-- A declaration that reads alike makes the same member. -/
theorem bodiesAgree_nested (blank : ∀ token ∈ blanks, token.isWhitespace = true)
    (starts : startsItem (currentToken tokens) = false) (noBlock : blockAhead tokens = false)
    (starts' : startsItem (currentToken tokens') = false) (noBlock' : blockAhead tokens' = false)
    (swap : ∀ declared rest, nestedDeclaration.Reads tokens declared rest [] →
      nestedDeclaration.Reads tokens' declared rest []) :
    BodiesAgree (blanks ++ tokens) (blanks ++ tokens') := by
  intro scope name before last rest skipped plain reads
  have ink : (currentToken tokens).isWhitespace = false := by
    simp only [startsItem, List.mem_cons, decide_eq_false_iff_not, not_or] at starts
    simp [Token.isWhitespace, starts]
  obtain ⟨added, mid, step⟩ := exists_bodyStep blank ink reads
  obtain ⟨declared, -, nested⟩ := step.exists_declared starts noBlock
  have row := BodyItems.cons blank (.declared starts noBlock nested) .nil
  have row' := BodyItems.cons blank (.declared starts' noBlock' (swap _ _ nested)) .nil
  exact row.agree row' (fun _ _ => rfl) (.refl mid) plain reads

/-! ### Items in front -/

/-- What stands in front of `x` is told apart alike in front of `y`. -/
structure Interchangeable (x y : List Token) : Prop where
  detached : Detached y
  precedes : ∀ front, precedesDeclaration true (front ++ x) = precedesDeclaration true (front ++ y)

end Reading

theorem Closed.currentToken_append {front : List Token} (closed : Closed front)
    (x y : List Token) : currentToken (front ++ x) = currentToken (front ++ y) :=
  (JavaUnit.currentToken_append closed.ne_nil x).trans
    (JavaUnit.currentToken_append closed.ne_nil y).symm

theorem Closed.interchangeable {front blanks x y : List Token} (closed : Closed front)
    (blank : ∀ token ∈ blanks, token.isWhitespace = true)
    (leads : (currentToken (front ++ y)).leads = true) :
    Reading.Interchangeable (blanks ++ (front ++ x)) (blanks ++ (front ++ y)) where
  detached := detached_of_leads blank leads
  precedes before := by
    have same := Reading.precedesDeclaration_append
      (closed.append (before ++ blanks)).any true x y
    simpa using same

theorem exists_cons_of_leads {tokens : List Token} (leads : (currentToken tokens).leads = true) :
    ∃ first others, tokens = first :: others := by
  cases tokens with
  | nil => cases leads
  | cons first others => exact ⟨first, others, rfl⟩

/-- Whether a comment belongs to the declaration behind it can be told without its lead. -/
theorem Reordered.precedes {x y : List Token} (h : Reordered x y) (inBody : Bool)
    (front : List Token) :
    precedesDeclaration inBody (front ++ x) = precedesDeclaration inBody (front ++ y) := by
  have starts := h.startsDeclaration_eq inBody
  have ink := Token.isTrivia_of_leads h.leads
  have ink' := Token.isTrivia_of_leads h.symm.leads
  obtain ⟨first, others, rfl⟩ := exists_cons_of_leads h.symm.leads
  obtain ⟨first', others', rfl⟩ := exists_cons_of_leads h.leads
  simp only [Token.isTrivia, Bool.or_eq_false_iff] at ink ink'
  simp only [currentToken, List.head?_cons, Option.getD_some] at starts ink ink'
  rcases front with _ | ⟨token, _ | ⟨next, more⟩⟩
  · simp [precedesDeclaration, ink, ink', starts]
  · simp [precedesDeclaration, starts]
  · simp [precedesDeclaration]

theorem Reordered.interchangeable {x y blanks : List Token} (h : Reordered x y)
    (blank : ∀ token ∈ blanks, token.isWhitespace = true) :
    Reading.Interchangeable (blanks ++ x) (blanks ++ y) where
  detached := detached_of_leads blank h.leads
  precedes front := by
    rw [← List.append_assoc, ← List.append_assoc]
    exact h.precedes true (front ++ blanks)

namespace Reading

variable {tokens tokens' mid rest skipped x y front back blanks : List Token}
  {items more : List BodyItem}

/-- A comment is read whatever stands behind it. -/
theorem comment_swap {node : Comment} (h : comment.Reads (front ++ x) node x skipped) :
    comment.Reads (front ++ y) node y skipped := by
  obtain ⟨rfl, token, draft, ahead, draws, built⟩ := reads_comment.1 h
  obtain ⟨blanks, rfl, blank⟩ := exists_blanks_token ahead
  refine reads_comment.2 ⟨rfl, token, draft, ?_, draws, built⟩
  rw [List.append_assoc, List.dropWhile_append_of_pos blank] at ahead ⊢
  have ink : token.isWhitespace = false :=
    isWhitespace_eq_false_of_isComment (isComment_of_commentDraft? draws)
  exact dropWhile_of_current ink

theorem javadoc_swap {node : Javadoc} (h : javadoc.Reads (front ++ x) node x skipped) :
    javadoc.Reads (front ++ y) node y skipped := by
  obtain ⟨rfl, token, ahead, kind, clean, built⟩ := reads_javadoc.1 h
  obtain ⟨blanks, rfl, blank⟩ := exists_blanks_token ahead
  refine reads_javadoc.2 ⟨rfl, token, ?_, kind, clean, built⟩
  rw [List.append_assoc, List.dropWhile_append_of_pos blank] at ahead ⊢
  have ink : token.isWhitespace = false := by simp [Token.isWhitespace, kind]
  exact dropWhile_of_current ink

/-- A comment that begins here is a single token. -/
theorem exists_token_of_comment {node : Comment} (h : comment.Reads (front ++ x) node x skipped)
    (ink : (currentToken (front ++ x)).isWhitespace = false) : ∃ token, front = [token] := by
  obtain ⟨-, token, _, ahead, -⟩ := reads_comment.1 h
  rw [dropWhile_of_current ink, ← List.singleton_append, List.append_cancel_right_eq] at ahead
  exact ⟨token, ahead⟩

/-- A step stays the same in front of something else. -/
theorem BodyStep.swap (h : BodyStep (front ++ x) (some more) x) (detached : Detached y)
    (precedes : precedesDeclaration true x = precedesDeclaration true y) :
    BodyStep (front ++ y) (some more) y := by
  have present : front ≠ [] := by
    rintro rfl
    exact Nat.lt_irrefl _ h.length_lt
  have here := currentToken_append present x
  have here' := currentToken_append present y
  generalize whole : front ++ x = tokens at h
  cases h with
  | semicolon kind =>
      rw [← List.singleton_append, List.append_cancel_right_eq] at whole
      rw [whole]
      exact .semicolon kind
  | javadoc kind reads =>
      rw [← whole] at kind reads
      exact .javadoc (by rwa [here', ← here]) (javadoc_swap reads)
  | @comment _ _ node plain reads =>
      rw [← whole] at plain reads ⊢
      have ink : (currentToken (front ++ x)).isWhitespace = false :=
        isWhitespace_eq_false_of_isComment (by simp [Token.isComment, plain])
      obtain ⟨token, rfl⟩ := exists_token_of_comment reads ink
      have step : BodyStep ([token] ++ y) _ y := .comment plain (comment_swap reads)
      have behind : precedesDeclaration true (([token] ++ x).drop 1) =
          precedesDeclaration true (([token] ++ y).drop 1) := precedes
      rwa [← behind] at step
  | annotationUse sign reads =>
      rw [← whole] at reads sign
      exact .annotationUse (by rwa [here', ← here]) (annotationUse_swap reads detached)
  | staticBlock starts block reads =>
      rw [← whole] at starts block reads
      obtain ⟨closed, _, rfl, reads'⟩ := @ends_staticBlock x y front [] _ _ reads
      exact .staticBlock (by rwa [here', ← here]) (closed.blockAhead_append x y ▸ block) reads'
  | declared starts noBlock reads =>
      rw [← whole] at starts noBlock reads
      obtain ⟨closed, _, rfl, reads'⟩ := @ends_nestedDeclaration x y front [] _ _ reads
      exact .declared (by rwa [here', ← here]) (closed.blockAhead_append x y ▸ noBlock) reads'

theorem detached_of_kind {kind : Kind} (is : (currentToken tokens).kind = kind)
    (other : kind ∉ [.whitespace, .lineComment, .blockComment, .dot, .openParen]) :
    Detached tokens := by
  subst is
  simp only [List.mem_cons, List.not_mem_nil, or_false, not_or] at other
  have matters : (currentToken tokens).isTrivia = false := by
    simp [Token.isTrivia, Token.isWhitespace, Token.isPlainComment, other]
  rw [Detached, significantFrom_zero_eq, dropWhile_of_current matters]
  simp [other]

/-- A declaration begins with an annotation, a modifier or what it declares. -/
theorem leads_of_modifierRun {preface run : Preface}
    (starts : startsItem (currentToken tokens) = false)
    (modified : (modifierRun preface).Reads tokens run mid skipped)
    (target : (classifyTarget mid).isSome = true) : (currentToken tokens).leads = true := by
  cases word : (currentToken tokens).keyword?.bind Keyword.modifier? with
  | some modifier => exact Token.leads_of_modifier word
  | none =>
      obtain ⟨-, -, -, noDoc, noPlain, noSign⟩ := not_startsItem starts
      have ink : (currentToken tokens).isWhitespace = false := by
        simp only [startsItem, List.mem_cons, decide_eq_false_iff_not, not_or] at starts
        simp [Token.isWhitespace, starts]
      have bare : Unmodified tokens :=
        ⟨ink, by simp [Token.isComment, noPlain, noDoc], noSign, word⟩
      have stays := reads_iterate_last (@reads_prefaceItem_last [] tokens preface (by simp) bare)
      obtain ⟨-, rfl, -⟩ := modified.unique stays
      exact Declares.leads ⟨bare, target⟩

theorem leads_of_nestedDeclaration {declared : Declaration}
    (starts : startsItem (currentToken tokens) = false)
    (h : nestedDeclaration.Reads tokens declared rest skipped) :
    (currentToken tokens).leads = true := by
  obtain ⟨run, mid, _, _, kind, modified, target, -⟩ :=
    reads_declarationWith.1 (reads_nestedDeclaration.1 h)
  exact leads_of_modifierRun starts modified (by simp [target])

/-- An annotation in front of a step ends there, if one behind the step would. -/
theorem BodyStep.detached (h : BodyStep tokens (some more) mid) (later : Detached mid) :
    Detached tokens := by
  cases h with
  | semicolon kind => exact detached_of_kind kind (by decide)
  | javadoc kind => exact detached_of_kind kind (by decide)
  | comment plain reads =>
      have ink : (currentToken tokens).isWhitespace = false :=
        isWhitespace_eq_false_of_isComment (by simp [Token.isComment, plain])
      obtain ⟨passed, rfl, -⟩ := reads.advances
      obtain ⟨token, rfl⟩ := exists_token_of_comment reads ink
      have trivia : token.isTrivia = true := Token.isTrivia_iff.2 (.inr plain)
      rwa [Detached, List.singleton_append, significantFrom, if_pos trivia]
  | annotationUse sign => exact detached_of_kind sign (by decide)
  | staticBlock starts block =>
      have word := (Bool.and_eq_true_iff.1 block).1
      rw [Detached, Token.kind_of_keyword? (of_decide_eq_true word)]
      simp
  | declared starts _ reads =>
      have none : ∀ token ∈ ([] : List Token), token.isWhitespace = true := by simp
      exact detached_of_leads none (leads_of_nestedDeclaration starts reads)

theorem detached_of_blanks (blank : ∀ token ∈ blanks, token.isWhitespace = true)
    (h : Detached tokens) : Detached (blanks ++ tokens) := by
  rwa [Detached, significantFrom_zero_eq, List.dropWhile_append_of_pos fun token mem =>
    Token.isTrivia_iff.2 (.inl (blank token mem)), ← significantFrom_zero_eq]

/-- Items in a row stay the same in front of something else. -/
theorem BodyItems.swap (h : BodyItems (front ++ x) items x) (alike : Interchangeable x y) :
    BodyItems (front ++ y) items y ∧ Detached (front ++ y) := by
  generalize whole : front ++ x = tokens at h
  induction h generalizing front with
  | nil =>
      obtain rfl := List.append_left_eq_self.1 whole
      exact ⟨.nil, alike.detached⟩
  | @cons blanks tokens mid x items more blank step later ih =>
      obtain ⟨back, rfl, -⟩ := later.advances
      obtain ⟨passed, rfl, -⟩ := step.advances
      have split : front ++ x = (blanks ++ (passed ++ back)) ++ x := by simpa using whole
      obtain rfl := List.append_cancel_right split
      obtain ⟨later', apart⟩ := ih alike rfl
      have step' := step.swap apart (alike.precedes back)
      simp only [List.append_assoc]
      exact ⟨.cons blank step' later', detached_of_blanks blank (step'.detached apart)⟩

/-! ### Classes -/

/-- What is read of a class in front of its body. -/
structure Opening where
  word : Token
  name : Text
  parameters : Option Text
  ancestry : Ancestry

/-- A class up to the brace that opens its body. -/
def opening (scope : Scope) : Reading Opening := do
  let word ← bump
  let name ← identifier scope .className
  let parameters ← typeParameters scope
  let ancestry ← iterate (ancestryClause scope
    (if word.keyword? = some .interface then .interface else .class) name) {}
  return { word, name, parameters, ancestry }

/-- What a class comes to with members behind its opening. -/
def Opening.attempt (head : Opening) (lead : LeadDraft) (inner : Bool)
    (made : List Member × List Defect) : Attempt ClassDecl :=
  let draft : ClassDraft :=
    { toLeadDraft := lead
      kind := if head.word.keyword? = some .interface then .interface else .class
      inner
      members := made.1 }
  let draft := (draft.withName head.name).ofParts head.parameters head.ancestry.superclass
    head.ancestry.interfaces
  { defects := head.ancestry.defects ++ made.2, examined := draft.examined, built := draft.build }

/-- A class is its opening and its body. -/
theorem reads_classRest {nested : Reading Declaration} {preface : Preface} {inner : Bool}
    {node : ClassDecl} :
    (classRest nested preface inner).Reads tokens node rest skipped ↔
      skipped = [] ∧ ∃ head body items,
        (opening (preface.scope .classDecl)).Reads tokens head body [] ∧
        (iterate (bodyItem nested (preface.scope .classDecl) head.name) []).Reads body items rest
          [] ∧
        (head.attempt preface.toLeadDraft inner (attach items)).defects = [] ∧
        (head.attempt preface.toLeadDraft inner (attach items)).built = .ok node := by
  simp only [classRest, reads_finish, reads_bind_nil, reads_note, opening, reads_pure]
  refine and_congr_right fun _ => ?_
  constructor
  · rintro ⟨attempt, ⟨word, first, opens, name, _, named, ⟨⟩, second, ⟨rfl, -⟩, parameters, third,
      bounded, ancestry, body, derived, items, _, body', rfl, rfl, -⟩, clean, built⟩
    exact ⟨⟨word, name, parameters, ancestry⟩, body, items, ⟨word, first, opens, name, second,
      named, parameters, third, bounded, ancestry, _, derived, rfl, rfl, trivial⟩, body', clean,
      built⟩
  · rintro ⟨_, body, items, ⟨word, first, opens, name, second, named, parameters, third, bounded,
      ancestry, _, derived, rfl, rfl, -⟩, body', clean, built⟩
    exact ⟨_, ⟨word, first, opens, name, second, named, (), _, ⟨rfl, trivial⟩, parameters, third,
      bounded, ancestry, _, derived, items, _, body', rfl, rfl, trivial⟩, clean, built⟩

section

variable {scope scope' : Scope} {kind : ClassKind} {name : Text} {ancestry last : Ancestry}

/-- The head of a class ends with the brace that opens its body. -/
theorem reads_ancestryClause_last :
    (ancestryClause scope kind name ancestry).Reads tokens (.last last) rest skipped ↔
      last = ancestry ∧ ∃ brace, brace.kind = .openBrace ∧ Passes tokens brace rest skipped := by
  have steps : ∀ {before : List Token} {types : Reading (List Text)} {f : List Text → Ancestry}
      {behind : List Token},
      ¬ (advance >>= fun _ => types >>= fun types => pure (Turn.again (f types))).Reads before
        (.last last) rest behind := by
    intro before types f behind reads
    obtain ⟨_, _, _, _, -, reads, -⟩ := reads_bind.1 reads
    obtain ⟨_, _, _, _, -, ends, -⟩ := reads_bind.1 reads
    cases (reads_pure.1 ends).1
  simp only [ancestryClause, reads_skipTrivia_bind, reads_current_bind, reads_ite, steps, and_false,
    false_or, not_reads_unexpected, or_false, reads_advance_bind, reads_pure, Turn.last.injEq]
  constructor
  · rintro ⟨later, ⟨-, -, opens, rfl, rfl, rfl⟩, rfl⟩
    obtain ⟨brace, mid, passed, same, passes⟩ := exists_passes_of_kind opens (by decide)
    refine ⟨rfl, brace, same, ?_⟩
    simpa [passes.significantFrom_zero, passes.leadingComments_eq, currentToken,
      passes.isEnd_eq_false] using passes
  · rintro ⟨rfl, brace, opens, passes⟩
    refine ⟨[], ?_, by simp [passes.leadingComments_eq]⟩
    simp [passes.significantFrom_zero, currentToken, passes.isEnd_eq_false, opens]

theorem moves_ancestryClause : Moves x (ancestryClause scope kind name ancestry) := by
  intro back turn skipped reads
  cases turn with
  | again next => exact Nat.lt_irrefl _ (progresses_ancestryClause kind name reads)
  | last last =>
      obtain ⟨-, brace, -, passes⟩ := reads_ancestryClause_last.1 reads
      exact Nat.lt_irrefl _ passes.length_lt

theorem ends_ancestry :
    Ends x y Eq (iterate (ancestryClause scope kind name) ancestry)
      (iterate (ancestryClause scope' kind name) ancestry) := by
  refine .iterate (steady_ancestryClause kind name) (fun _ => moves_ancestryClause) ?_ ancestry
  intro state front back last skipped reads
  obtain ⟨rfl, brace, opens, passes⟩ := reads_ancestryClause_last.1 reads
  obtain ⟨lead, split, anywhere⟩ := passes.exists_lead
  rw [← List.singleton_append, ← List.append_assoc lead, List.append_cancel_right_eq] at split
  subst split
  have passes' : Passes (lead ++ [brace] ++ (back ++ y)) brace (back ++ y) skipped := by
    simpa using anywhere (back ++ y)
  exact ⟨(Closed.singleton (Token.closes_iff.2 (by simp [opens]))).append lead,
    reads_ancestryClause_last.2 ⟨rfl, brace, opens, passes'⟩⟩

theorem ends_opening : Ends x y Eq (opening scope) (opening scope') := by
  refine steady_bump.ends fun word => steady_identifier.ends fun name => ?_
  refine steady_typeParameters.ends fun parameters => ?_
  exact ends_ancestry.pure fun _ _ same => same ▸ rfl

end

/-- The body of a class that is read from the first tokens on goes on at the second ones, behind
some of its items. -/
inductive InBody : Preface → List Token → List Token → Prop where
  | intro {preface run scope head items tokens mid body here}
      (modified : (modifierRun preface).Reads tokens run mid [])
      (class_ : classifyTarget mid = some .classDecl)
      (opens : (opening scope).Reads mid head body [])
      (row : BodyItems body items here) : InBody preface tokens here

theorem InBody.leads {preface : Preface} {here : List Token} (h : InBody preface tokens here)
    (starts : startsItem (currentToken tokens) = false) : (currentToken tokens).leads = true := by
  obtain ⟨modified, class_, -, -⟩ := h
  exact leads_of_modifierRun starts modified (by simp [class_])

/-- A class is the same class with another rest of its body that agrees with its own. -/
theorem InBody.swap {preface : Preface} (h : InBody preface tokens x) (fits : Interchangeable x y)
    (agree : BodiesAgree x y) :
    ∃ front back, tokens = front ++ (back ++ x) ∧ Closed front ∧
      ∀ ⦃preface' inner declared rest skipped⦄, preface.Alike preface' →
        (declaration preface inner).Reads tokens declared rest skipped →
        (declaration preface' inner).Reads (front ++ (back ++ y)) declared rest [] := by
  obtain ⟨modified, class_, opens, row⟩ := h
  rename_i run scope head items mid body
  obtain ⟨back, rfl, -⟩ := row.advances
  obtain ⟨headed, rfl, -⟩ := opens.advances
  obtain ⟨first, rfl, -⟩ := modified.advances
  have opens_anywhere : ∀ (scope' : Scope) (z : List Token), Closed headed ∧
      (opening scope').Reads (headed ++ z) head z [] := by
    intro scope' z
    obtain ⟨closed, _, rfl, opens'⟩ := @ends_opening (back ++ x) z scope scope' headed [] _ _ opens
    exact ⟨closed, opens'⟩
  have closed := (opens_anywhere scope x).1
  refine ⟨first ++ headed, back, by simp, closed.append first, ?_⟩
  intro preface' inner declared rest skipped alike reads
  obtain ⟨_, _, _, later, kind, modified', target, clean, reads, rfl⟩ :=
    reads_declarationWith.1 reads
  obtain ⟨rfl, rfl, rfl⟩ := modified'.unique modified
  obtain rfl := Option.some.inj (class_.symm.trans target)
  obtain ⟨node, rfl, classed⟩ := reads_bind_pure.1 reads
  obtain ⟨rfl, head, _, last, opens', body, clean', built⟩ := reads_classRest.1 classed
  obtain ⟨rfl, rfl, -⟩ := opens'.unique (opens_anywhere _ _).2
  have bodies := row.agree (row.swap fits).1 (fun _ _ => rfl) agree
  have plain : (([] : List BodyItem).foldl Attachment.add {}).Plain := rfl
  obtain ⟨last', same, body'⟩ := bodies plain body
  obtain ⟨run', alike', modified'⟩ := @steady_modifierRun (back ++ x) (back ++ y) _ _ alike
    first headed _ _ closed.any modified
  have class' : classifyTarget (headed ++ (back ++ y)) = some .classDecl := by
    obtain ⟨token, ahead, -⟩ := peek_append closed.any
    have kinds := kind_of_classifyTarget class_
    rw [ahead] at kinds
    refine classifyTarget_of_class ?_
    rwa [ahead]
  have classed' : (classRest nestedDeclaration run' inner).Reads (headed ++ (back ++ y)) node rest
      [] := by
    have made : attach last' = attach last := congrArg Attachment.close same
    refine reads_classRest.2 ⟨rfl, head, _, last', (opens_anywhere _ _).2, body' _, ?_⟩
    rw [alike'.toLeadDraft_eq, made]
    exact ⟨clean', built⟩
  rw [List.append_assoc]
  exact reads_declarationWith.2 ⟨run', _, [], [], .classDecl, modified', class',
    alike'.defects_eq.trans clean, reads_bind_pure.2 ⟨node, rfl, classed'⟩, rfl⟩

end Reading
end JavaUnit
