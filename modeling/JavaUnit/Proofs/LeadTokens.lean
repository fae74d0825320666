/-
Module: JavaUnit.Proofs.LeadTokens
Purpose: The annotations and modifiers in front of a declaration, as tokens. An annotation is read
  alike in front of anything that does not go on with it, so the run of modifiers takes up each of
  them wherever it stands between the others. What the modifiers have wrong with them does not
  depend on their order, and what is built from them is a set; so a declaration with the same
  annotations and the same modifiers in another order is the same declaration.
Main exports: Detached, Reading.annotationUse_swap, LeadTokens, LeadTokens.reads_modifierRun,
  Reading.exists_leadTokens, LeadTokens.reads_declaration, Reordered
-/
import JavaUnit.Proofs.Copies
import JavaUnit.Proofs.ModifierReports
import JavaUnit.Proofs.Progress
import JavaUnit.Proofs.StatementGrammar
import JavaUnit.Proofs.Stepping

namespace JavaUnit

/-! ### Behind an annotation -/

/-- The next token that matters goes on neither with a name nor with the values behind it. -/
def Detached (tokens : List Token) : Prop :=
  (currentToken (significantFrom 0 tokens)).kind ∉ [.dot, .openParen]

namespace Reading

variable {front x y skipped : List Token} {scope scope' : Scope}

/-- The parts of a name are the same in front of anything that does not go on with it. -/
theorem reads_nameParts_swap {name last : Text}
    (h : (iterate namePart name).Reads (front ++ x) last x []) (apart : StopsName y) :
    (iterate namePart name).Reads (front ++ y) last y [] := by
  induction size : front.length using Nat.strongRecOn generalizing front name with
  | _ n ih =>
      rcases reads_iterate_cases h with ends | ⟨stalls, still⟩ |
        ⟨next, mid, passed, later, one, moved, others, none⟩
      · obtain ⟨rfl, here⟩ := namePart_last ends
        obtain rfl := List.self_eq_append_left.1 here
        exact reads_iterate_last (reads_namePart_last apart)
      · obtain ⟨dot, part, mid, -, -, -, first, second⟩ := passes_of_namePart stalls
        exact absurd (Nat.lt_trans second.length_lt first.length_lt) still
      · obtain ⟨rfl, rfl⟩ := List.append_eq_nil_iff.1 none.symm
        obtain ⟨dot, part, named, mark, word, rfl, first, second⟩ := passes_of_namePart one
        obtain ⟨lead, more, rfl, rfl, first'⟩ :=
          first.swap_of (second.advances.trans others.advances)
        obtain ⟨lead', more', rfl, rfl, second'⟩ := second.swap_of others.advances
        have shorter := Nat.lt_trans (second' y).length_lt (first' y).length_lt
        have smaller : more'.length < n := by
          rw [← size]
          simp
          omega
        exact reads_iterate_again (reads_namePart_again mark word (first' y) (second' y)) shorter
          (ih _ smaller others rfl)

theorem qualifiedName_swap {what : Expectation} {name : Text}
    (h : (qualifiedName scope what).Reads (front ++ x) name x []) (apart : StopsName y) :
    (qualifiedName scope' what).Reads (front ++ y) name y [] := by
  rw [qualifiedName_eq, reads_bind_nil] at h ⊢
  obtain ⟨first, mid, word, parts⟩ := h
  obtain ⟨token, kind, rfl, passes⟩ := reads_identifier.1 word
  obtain ⟨lead, more, rfl, rfl, passes'⟩ := passes.swap_of parts.advances
  exact ⟨_, more ++ y, reads_identifier.2 ⟨token, kind, rfl, passes' y⟩,
    reads_nameParts_swap parts apart⟩

theorem kind_of_qualifiedName {tokens rest : List Token} {what : Expectation} {name : Text}
    (h : (qualifiedName scope what).Reads tokens name rest skipped) :
    (currentToken (significantFrom 0 tokens)).kind = .identifier := by
  rw [qualifiedName_eq] at h
  obtain ⟨token, _, _, _, kind, passes, -⟩ := reads_identifier_bind.1 h
  rwa [passes.currentToken_zero]

theorem passes_dropWhile {tokens rest : List Token} {token : Token} :
    Passes (tokens.dropWhile Token.isWhitespace) token rest skipped ↔
      Passes tokens token rest skipped := by
  induction tokens with
  | nil => rfl
  | cons first others ih =>
      by_cases blank : first.isWhitespace = true
      · rw [List.dropWhile_cons_of_pos blank, ih]
        constructor
        · exact .whitespace blank
        · intro passes
          cases passes with
          | token matters => simp [Token.isTrivia, blank] at matters
          | whitespace _ later => exact later
          | comment plain =>
              simp [Token.isPlainComment_eq_false_of_isWhitespace blank] at plain
      · rw [List.dropWhile_cons_of_neg blank]

/-- What an annotation without defects so far comes to. -/
def annotationAttempt (draft : AnnotationDraft) : Attempt Annotation :=
  { examined := draft.examined, built := draft.build }

/-- The values behind the name of an annotation, if it has some. -/
def annotationValues (scope : Scope) (draft : AnnotationDraft) : Reading (Attempt Annotation) :=
  peek 0 >>= fun opening =>
    if opening.kind = .openParen then
      bump >>= fun _ => accept .closeParen >>= fun closed =>
        if closed = true then pure draft >>= fun draft => pure (annotationAttempt draft)
        else iterate (annotationParam scope) draft >>= fun draft => pure (annotationAttempt draft)
    else pure draft >>= fun draft => pure (annotationAttempt draft)

/-- An annotation from its name on. -/
def annotationRest (scope : Scope) : Reading (Attempt Annotation) :=
  qualifiedName scope .annotationName >>= fun name =>
    annotationValues scope (AnnotationDraft.withName {} name)

theorem annotationUse_eq :
    annotationUse = scopeHere .annotationUse >>= fun scope => finish scope
      (expect scope .atSign .atSign >>= fun _ => peek 0 >>= fun word =>
        if word.keyword? = some .interface then
          fail scope [.annotationType] >>= fun _ : Unit => annotationRest scope
        else annotationRest scope) :=
  rfl

/-- Values end with their closing parenthesis, or there are none. -/
theorem annotationValues_swap {draft : AnnotationDraft} {attempt : Attempt Annotation}
    (h : (annotationValues scope draft).Reads (front ++ x) attempt x []) (apart : Detached y) :
    (Closed front ∨ front = []) ∧
      (annotationValues scope' draft).Reads (front ++ y) attempt y [] := by
  have ends : Ends x y Eq
      (bump >>= fun _ => accept .closeParen >>= fun closed =>
        if closed = true then pure draft >>= fun draft => pure (annotationAttempt draft)
        else iterate (annotationParam scope) draft >>= fun draft => pure (annotationAttempt draft))
      (bump >>= fun _ => accept .closeParen >>= fun closed =>
        if closed = true then pure draft >>= fun draft => pure (annotationAttempt draft)
        else iterate (annotationParam scope') draft >>= fun draft =>
          pure (annotationAttempt draft)) := by
    refine steady_bump.ends fun _ => .accept (annotationAttempt draft) (annotationAttempt draft)
      (by decide) (fun kind => Token.closes_iff.2 (by simp [kind])) (by simp) (by simp) rfl ?_
    exact (Ends.iterate_each ends_annotationParam draft).pure fun _ _ same => same ▸ rfl
  rw [annotationValues, reads_peek_bind, reads_ite] at h ⊢
  rcases h with ⟨paren, h⟩ | ⟨noParen, h⟩
  · obtain ⟨closed, _, rfl, h'⟩ := @ends front [] attempt [] h
    obtain ⟨first, same, -⟩ := peek_append closed.any
    rw [same] at paren ⊢
    exact ⟨.inl closed, .inl ⟨paren, h'⟩⟩
  · rw [reads_pure_bind, reads_pure] at h
    obtain ⟨rfl, here, -⟩ := h
    obtain rfl := List.self_eq_append_left.1 here
    rw [reads_pure_bind, reads_pure]
    refine ⟨.inr rfl, .inr ⟨fun kind => apart ?_, rfl, rfl, rfl⟩⟩
    rw [List.nil_append] at kind
    simp [kind]

theorem annotationRest_swap {attempt : Attempt Annotation}
    (h : (annotationRest scope).Reads (front ++ x) attempt x []) (apart : Detached y) :
    (currentToken (significantFrom 0 (front ++ y))).kind = .identifier ∧
      (annotationRest scope').Reads (front ++ y) attempt y [] := by
  obtain ⟨name, mid, named, values⟩ := reads_bind_nil.1 h
  obtain ⟨more, rfl, -⟩ := values.advances
  obtain ⟨ended, values'⟩ := @annotationValues_swap _ _ _ _ scope' _ _ values apart
  have named' : (qualifiedName scope' .annotationName).Reads (front ++ y) name (more ++ y) [] := by
    rcases ended with closed | rfl
    · obtain ⟨part, split, -⟩ := named.advances
      rw [← List.append_assoc, List.append_cancel_right_eq] at split
      subst split
      rw [List.append_assoc] at named ⊢
      obtain ⟨_, rfl, named'⟩ := steady_qualifiedName closed.any named
      exact named'
    · exact qualifiedName_swap named fun stops => apart (by simp [stops.1])
  exact ⟨kind_of_qualifiedName named', reads_bind_nil.2 ⟨name, _, named', values'⟩⟩

/-- An annotation is read alike in front of anything that does not go on with it. -/
theorem annotationUse_swap {used : Annotation}
    (h : annotationUse.Reads (front ++ x) used x skipped) (apart : Detached y) :
    annotationUse.Reads (front ++ y) used y skipped := by
  rw [annotationUse_eq, reads_scopeHere_bind, reads_finish] at h ⊢
  obtain ⟨rfl, attempt, h, clean, built⟩ := h
  refine ⟨rfl, attempt, ?_, clean, built⟩
  obtain ⟨sign, mid, passed, later, mark, passes, h, none⟩ := (reads_expect_bind _ (by decide)).1 h
  obtain ⟨rfl, rfl⟩ := List.append_eq_nil_iff.1 none.symm
  obtain ⟨lead, behind, rfl, rfl, passes'⟩ := (passes_dropWhile.1 passes).swap_of h.advances
  rw [reads_peek_bind, reads_ite] at h
  obtain ⟨-, h⟩ | ⟨-, h⟩ := h
  · exact absurd h not_reads_fail_bind
  obtain ⟨word, rest⟩ := annotationRest_swap h apart
  refine (reads_expect_bind _ (by decide)).2
    ⟨sign, behind ++ y, [], [], mark, passes_dropWhile.2 (passes' y), ?_, rfl⟩
  rw [reads_peek_bind, if_neg (by simp [Token.keyword?, word])]
  exact rest

end Reading

/-! ### Tokens in front of a declaration -/

/-- Whether a token may be the first one of a declaration. -/
def Token.leads (token : Token) : Bool :=
  startsDeclaration true token && token.kind ≠ .docComment

namespace Token

variable {token : Token}

theorem leads_of_modifier {modifier : Modifier}
    (word : token.keyword?.bind Keyword.modifier? = some modifier) : token.leads = true := by
  obtain ⟨keyword, found, spells⟩ := Option.bind_eq_some_iff.1 word
  have kind := kind_of_keyword? found
  simp [leads, startsDeclaration, kind, spells]

theorem leads_of_atSign (sign : token.kind = .atSign) : token.leads = true := by
  simp [leads, startsDeclaration, sign]

theorem not_leads_of_mem (leads : token.leads = true) :
    token.kind ∉ [.eof, .whitespace, .lineComment, .blockComment, .docComment, .openBrace,
      .closeBrace, .openParen, .semicolon, .dot] := by
  intro mem
  simp only [List.mem_cons, List.not_mem_nil, or_false] at mem
  rcases mem with kind | kind | kind | kind | kind | kind | kind | kind | kind | kind <;>
    simp [Token.leads, startsDeclaration, kind] at leads

theorem isTrivia_of_leads (leads : token.leads = true) : token.isTrivia = false := by
  have kinds := not_leads_of_mem leads
  simp only [List.mem_cons, not_or] at kinds
  simp [isTrivia, isWhitespace, isPlainComment, kinds]

end Token

theorem significantFrom_of_leads {blanks tokens : List Token}
    (blank : ∀ token ∈ blanks, token.isWhitespace = true)
    (leads : (currentToken tokens).leads = true) :
    significantFrom 0 (blanks ++ tokens) = tokens := by
  rw [significantFrom_zero_eq, List.dropWhile_append_of_pos fun token mem =>
    Token.isTrivia_iff.2 (.inl (blank token mem)),
    Reading.dropWhile_of_current (Token.isTrivia_of_leads leads)]

theorem detached_of_leads {blanks tokens : List Token}
    (blank : ∀ token ∈ blanks, token.isWhitespace = true)
    (leads : (currentToken tokens).leads = true) : Detached (blanks ++ tokens) := by
  have kinds := Token.not_leads_of_mem leads
  rw [Detached, significantFrom_of_leads blank leads]
  simp only [List.mem_cons, not_or] at kinds ⊢
  tauto

namespace Reading

/-- The tokens begin with what is declared behind annotations and modifiers. -/
structure Declares (tokens : List Token) : Prop extends Unmodified tokens where
  target : (classifyTarget tokens).isSome = true

theorem ne_nil_of_sign {group : List Token} (sign : (currentToken group).kind = .atSign) :
    group ≠ [] := by
  rintro rfl
  cases sign

theorem Declares.leads {tokens : List Token} (h : Declares tokens) :
    (currentToken tokens).leads = true := by
  have target := h.target
  rw [classifyTarget, significantFrom_zero_eq, dropWhile_of_current h.matters] at target
  generalize currentToken tokens = token at target ⊢
  split at target
  · simp_all [Token.leads, startsDeclaration]
  · simp_all [Token.leads, startsDeclaration]
  · simp_all [Token.leads, startsDeclaration]
  · simp_all [Token.leads, startsDeclaration]
  · split at target <;> simp_all [Token.leads, startsDeclaration]
  · cases target

/-- An annotation is added to the preface. -/
theorem reads_prefaceItem_atSign {blanks group tokens : List Token} {preface : Preface}
    {used : Annotation} (blank : ∀ token ∈ blanks, token.isWhitespace = true)
    (sign : (currentToken group).kind = .atSign)
    (reads : annotationUse.Reads (group ++ tokens) used tokens []) :
    (prefaceItem preface).Reads (blanks ++ (group ++ tokens)) (.again (preface.addAnnotation used))
      tokens [] := by
  have here : currentToken (group ++ tokens) = currentToken group :=
    currentToken_append (ne_nil_of_sign sign) tokens
  rw [prefaceItem, reads_skipWhitespace_bind, List.dropWhile_append_of_pos blank,
    dropWhile_of_current (by simp [here, Token.isWhitespace, sign]), reads_current_bind, here,
    if_neg (by simp [Token.isPlainComment, sign]), if_pos sign]
  exact reads_bind_pure.2 ⟨used, rfl, reads⟩

end Reading

/-- Tokens of annotations and modifiers in any order, each with white space behind it. -/
inductive LeadTokens : List Annotation → List Modifier → List Token → Prop where
  | nil : LeadTokens [] [] []
  | used {node annotations given group blanks tokens}
      (sign : (currentToken group).kind = .atSign)
      (reads : Reading.annotationUse.Reads group node [] [])
      (blank : ∀ token ∈ blanks, token.isWhitespace = true)
      (later : LeadTokens annotations given tokens) :
      LeadTokens (node :: annotations) given (group ++ (blanks ++ tokens))
  | modifier {annotations modifier given token blanks tokens}
      (word : token.keyword?.bind Keyword.modifier? = some modifier)
      (blank : ∀ token ∈ blanks, token.isWhitespace = true)
      (later : LeadTokens annotations given tokens) :
      LeadTokens annotations (modifier :: given) (token :: (blanks ++ tokens))

namespace LeadTokens

variable {annotations : List Annotation} {given : List Modifier} {front here : List Token}

theorem eq_nil_iff (h : LeadTokens annotations given front) :
    front = [] ↔ annotations = [] ∧ given = [] := by
  cases h with
  | nil => simp
  | used sign => simp [Reading.ne_nil_of_sign sign]
  | modifier => simp

/-- A declaration begins with its first annotation or modifier. -/
theorem leads (h : LeadTokens annotations given front) (core : Reading.Declares here) :
    (currentToken (front ++ here)).leads = true := by
  cases h with
  | nil => exact core.leads
  | used sign =>
      rw [List.append_assoc, currentToken_append (Reading.ne_nil_of_sign sign)]
      exact Token.leads_of_atSign sign
  | modifier word => exact Token.leads_of_modifier word

/-- What is led by an annotation or a modifier is a declaration anywhere. -/
theorem starts (h : LeadTokens annotations given front) (some : front ≠ []) (inBody : Bool) :
    startsDeclaration inBody (currentToken (front ++ here)) = true := by
  cases h with
  | nil => exact absurd rfl some
  | used sign =>
      rw [List.append_assoc, currentToken_append (Reading.ne_nil_of_sign sign)]
      simp [startsDeclaration, sign]
  | modifier word =>
      obtain ⟨keyword, found, spells⟩ := Option.bind_eq_some_iff.1 word
      simp [startsDeclaration, currentToken, Token.kind_of_keyword? found, spells]

/-- All of them are added to a preface, each to those of its kind. -/
theorem reads_modifierRun (h : LeadTokens annotations given front) (core : Reading.Declares here)
    {blanks : List Token} (blank : ∀ token ∈ blanks, token.isWhitespace = true)
    (preface : Preface) :
    (Reading.modifierRun preface).Reads (blanks ++ (front ++ here))
      { preface with
        annotations := preface.annotations ++ annotations
        modifiers := preface.modifiers ++ given } here [] := by
  induction h generalizing preface blanks with
  | nil =>
      rw [Reading.modifierRun, List.append_nil, List.append_nil]
      exact Reading.reads_iterate_last (Reading.reads_prefaceItem_last blank core.toUnmodified)
  | @used node annotations given group more tokens sign reads white later ih =>
      have own : Reading.annotationUse.Reads (group ++ (more ++ (tokens ++ here))) node
          (more ++ (tokens ++ here)) [] := by
        rw [← List.append_nil group] at reads
        exact Reading.annotationUse_swap reads (detached_of_leads white (later.leads core))
      have step := @Reading.reads_prefaceItem_atSign _ _ _ preface _ blank sign own
      have whole := Reading.reads_iterate_again step (by
        have some := List.length_pos_iff.2 (Reading.ne_nil_of_sign sign)
        simp only [List.length_append]
        omega) (ih white _)
      rw [Reading.modifierRun, List.append_assoc, List.append_assoc]
      simpa [Preface.addAnnotation] using whole
  | @modifier annotations modifier given token more tokens word white later ih =>
      have leads := later.leads core
      have noBlock : (currentToken (significantFrom 0 (more ++ (tokens ++ here)))).kind ≠
          .openBrace := by
        rw [significantFrom_of_leads white leads]
        exact fun kind => Token.not_leads_of_mem leads (by simp [kind])
      have step := @Reading.reads_prefaceItem_modifier _ _ preface blank _ _ word noBlock
      have whole := Reading.reads_iterate_again step (by simp; omega) (ih white _)
      rw [Reading.modifierRun, List.cons_append, List.append_assoc]
      simpa [Preface.addModifier] using whole

/-- The same tokens have no other lead. -/
theorem unique {annotations' : List Annotation} {given' : List Modifier} {front' here' : List Token}
    (h : LeadTokens annotations given front) (h' : LeadTokens annotations' given' front')
    (core : Reading.Declares here) (core' : Reading.Declares here')
    (same : front ++ here = front' ++ here') :
    annotations' = annotations ∧ given' = given ∧ here' = here := by
  have white : ∀ token ∈ ([] : List Token), token.isWhitespace = true := by simp
  have reads := h.reads_modifierRun core white { start := [] }
  have reads' := h'.reads_modifierRun core' white { start := [] }
  rw [← same] at reads'
  obtain ⟨run, rfl, -⟩ := reads'.unique reads
  exact ⟨congrArg (fun run => run.annotations) run, congrArg (fun run => run.modifiers) run, rfl⟩

end LeadTokens

/-! ### Every lead -/

/-- The number of comments that a preface has taken up, those that it has no room for included. -/
def Preface.commentCount (preface : Preface) : Nat :=
  preface.sectionComment.toList.length + preface.defects.length

theorem Preface.commentCount_addComment (preface : Preface) (comment : Comment) :
    (preface.addComment comment).commentCount = preface.commentCount + 1 := by
  obtain ⟨⟨sectionComment, javadoc, annotations, modifiers⟩, start, defects⟩ := preface
  cases sectionComment <;> simp +arith [addComment, commentCount]

namespace Reading

variable {tokens own core rest skipped blanks front : List Token} {preface run next : Preface}
  {turn : Turn Preface}

/-- One step in reading a preface, from the next token on that is not white space. -/
inductive PrefaceStep (preface : Preface) : List Token → Turn Preface → List Token → Prop where
  | comment {tokens rest : List Token} {node : Comment}
      (plain : (currentToken tokens).isPlainComment = true)
      (reads : comment.Reads tokens node rest []) :
      PrefaceStep preface tokens (.again (preface.addComment node)) rest
  | used {tokens rest : List Token} {node : Annotation}
      (sign : (currentToken tokens).kind = .atSign)
      (reads : annotationUse.Reads tokens node rest []) :
      PrefaceStep preface tokens (.again (preface.addAnnotation node)) rest
  | modifier {token : Token} {rest : List Token} {modifier : Modifier}
      (word : token.keyword?.bind Keyword.modifier? = some modifier) :
      PrefaceStep preface (token :: rest) (.again (preface.addModifier modifier)) rest
  | ends {tokens : List Token} (plain : (currentToken tokens).isPlainComment = false)
      (sign : (currentToken tokens).kind ≠ .atSign)
      (word : (currentToken (significantFrom 0 tokens)).keyword? = some .static ∨
        (currentToken tokens).keyword?.bind Keyword.modifier? = none) :
      PrefaceStep preface tokens (.last preface) tokens

theorem reads_prefaceItem_dropWhile :
    (prefaceItem preface).Reads (tokens.dropWhile Token.isWhitespace) turn rest skipped ↔
      (prefaceItem preface).Reads tokens turn rest skipped := by
  rw [prefaceItem, reads_skipWhitespace_bind, reads_skipWhitespace_bind,
    dropWhile_of_current (isWhitespace_of_dropWhile tokens)]

theorem prefaceStep_of_reads (h : (prefaceItem preface).Reads tokens turn rest []) :
    PrefaceStep preface (tokens.dropWhile Token.isWhitespace) turn rest := by
  rw [prefaceItem, reads_skipWhitespace_bind, reads_current_bind] at h
  generalize tokens.dropWhile Token.isWhitespace = tokens at h
  simp only [reads_ite, reads_atStaticBlock_bind, reads_bind_pure] at h
  rcases h with ⟨plain, node, rfl, reads⟩ | ⟨plain, ⟨sign, node, rfl, reads⟩ | ⟨sign, h⟩⟩
  · exact .comment plain reads
  · exact .used sign reads
  have plain : (currentToken tokens).isPlainComment = false := by simpa using plain
  rcases h with ⟨block, h⟩ | ⟨-, h⟩
  · obtain ⟨rfl, rfl, -⟩ := reads_pure.1 h
    exact .ends plain sign (.inl (of_decide_eq_true (Bool.and_eq_true_iff.1 block).1))
  cases word : (currentToken tokens).keyword?.bind Keyword.modifier? with
  | none =>
      rw [word] at h
      obtain ⟨rfl, rfl, -⟩ := reads_pure.1 h
      exact .ends plain sign (.inr word)
  | some modifier =>
      rw [word] at h
      obtain ⟨token, rfl, moved⟩ := reads_bind_pure.1 h
      obtain ⟨rfl, ahead, -⟩ := reads_advance.1 moved
      obtain ⟨keyword, found, -⟩ := Option.bind_eq_some_iff.1 word
      have inside : (currentToken tokens).isEnd = false := by
        simp [Token.isEnd, Token.kind_of_keyword? found]
      rw [if_neg (by simp [inside])] at ahead
      have whole := eq_cons_tail (show currentToken tokens = _ from rfl) inside
      rw [whole, ahead]
      exact .modifier word

namespace PrefaceStep

/-- What is declared begins where the lead ends. -/
theorem declares (h : PrefaceStep preface tokens (.last run) core)
    (ink : (currentToken tokens).isWhitespace = false)
    (target : (classifyTarget core).isSome = true) :
    run = preface ∧ core = tokens ∧ Declares core := by
  generalize same : Turn.last run = turn at h
  cases h with
  | comment | used | modifier => cases same
  | ends plain sign word =>
      obtain rfl := Turn.last.inj same
      have matters : (currentToken tokens).isTrivia = false := by
        rw [Token.isTrivia, ink, plain, Bool.false_or]
      have here := dropWhile_of_current matters
      rw [significantFrom_zero_eq, here] at word
      have noDoc : (currentToken tokens).kind ≠ .docComment := by
        intro kind
        simp [classifyTarget, significantFrom_zero_eq, here, kind] at target
      refine ⟨rfl, rfl, ⟨ink, by simp [Token.isComment, plain, noDoc], sign, ?_⟩, target⟩
      rcases word with static | word
      · simp [classifyTarget, significantFrom_zero_eq, here, Token.kind_of_keyword? static,
          Keyword.isType] at target
      · exact word

/-- No step gives up a comment. -/
theorem commentCount_le (h : PrefaceStep preface tokens (.again next) rest) :
    preface.commentCount ≤ next.commentCount := by
  generalize same : Turn.again next = turn at h
  cases h with
  | ends => cases same
  | comment =>
      obtain rfl := Turn.again.inj same
      rw [preface.commentCount_addComment]
      exact Nat.le_succ _
  | used | modifier =>
      obtain rfl := Turn.again.inj same
      exact Nat.le_refl _

/-- A step takes up a comment, or it puts an annotation or a modifier in front of the lead. -/
theorem exists_leadTokens {annotations : List Annotation} {given : List Modifier}
    (h : PrefaceStep preface (own ++ core) (.again next) (blanks ++ (front ++ core)))
    (blank : ∀ token ∈ blanks, token.isWhitespace = true)
    (lead : LeadTokens annotations given front) :
    ((∃ token ∈ own, token.isPlainComment = true) ∧
        next.commentCount = preface.commentCount + 1) ∨
      ∃ annotations' given', LeadTokens annotations' given' own ∧
        preface.annotations ++ annotations' = next.annotations ++ annotations ∧
        preface.modifiers ++ given' = next.modifiers ++ given ∧
        ∀ used modifiers, { next with annotations := used, modifiers } =
          { preface with annotations := used, modifiers } := by
  generalize same : Turn.again next = turn at h
  generalize whole : own ++ core = tokens at h
  rw [← List.append_assoc] at h
  generalize more : blanks ++ front ++ core = mid at h
  cases h with
  | ends => cases same
  | comment plain reads =>
      obtain rfl := Turn.again.inj same
      obtain ⟨-, token, _, ahead, -⟩ := reads_comment.1 reads
      have comment : (currentToken tokens).isComment = true := by simp [Token.isComment, plain]
      rw [dropWhile_of_current (isWhitespace_eq_false_of_isComment comment)] at ahead
      rw [ahead] at plain
      rw [ahead, ← more, ← List.cons_append, List.append_cancel_right_eq] at whole
      exact .inl ⟨⟨token, whole ▸ List.mem_cons_self, plain⟩, preface.commentCount_addComment _⟩
  | @used _ _ node sign reads =>
      obtain rfl := Turn.again.inj same
      obtain ⟨group, rfl, -⟩ := reads.advances
      have present : group ≠ [] := by
        rintro rfl
        exact @moves_annotationUse [] mid _ _ (by simpa using reads)
      have apart : Detached [] := by
        rw [Detached]
        decide
      have alone := annotationUse_swap reads apart
      rw [List.append_nil] at alone
      rw [currentToken_append present] at sign
      rw [← more, ← List.append_assoc, List.append_cancel_right_eq] at whole
      exact .inr ⟨node :: annotations, given, whole ▸ .used sign alone blank lead,
        by simp [Preface.addAnnotation], rfl, fun _ _ => rfl⟩
  | @modifier token _ modifier word =>
      obtain rfl := Turn.again.inj same
      rw [← more, ← List.cons_append, List.append_cancel_right_eq] at whole
      exact .inr ⟨annotations, modifier :: given, whole ▸ .modifier word blank lead, rfl,
        by simp [Preface.addModifier], fun _ _ => rfl⟩

end PrefaceStep

/-- The lead of a declaration has a comment in it, or it is made of annotations and modifiers. -/
theorem exists_comment_or_leadTokens (h : (modifierRun preface).Reads (own ++ core) run core [])
    (target : (classifyTarget core).isSome = true) :
    ((∃ token ∈ own, token.isPlainComment = true) ∧
        preface.commentCount < run.commentCount) ∨
      ∃ annotations given blanks front, own = blanks ++ front ∧
        (∀ token ∈ blanks, token.isWhitespace = true) ∧ LeadTokens annotations given front ∧
        Declares core ∧ run = { preface with
          annotations := preface.annotations ++ annotations
          modifiers := preface.modifiers ++ given } := by
  induction size : own.length using Nat.strongRecOn generalizing own preface with
  | _ n ih =>
      have blank : ∀ token ∈ (own ++ core).takeWhile Token.isWhitespace,
          token.isWhitespace = true :=
        fun token mem => List.all_eq_true.1 List.all_takeWhile token mem
      have split := List.takeWhile_append_dropWhile (p := Token.isWhitespace) (l := own ++ core)
      generalize (own ++ core).takeWhile Token.isWhitespace = blanks at blank split
      rcases reads_iterate_cases h with ends | ⟨stalls, still⟩ |
        ⟨next, mid, passed, later, one, moved, others, skips⟩
      · obtain ⟨rfl, here, declares⟩ :=
          (prefaceStep_of_reads ends).declares (isWhitespace_of_dropWhile _) target
        rw [← here, List.append_cancel_right_eq] at split
        exact .inr ⟨[], [], blanks, [], by simp [split], blank, .nil, declares, by simp⟩
      · exact absurd (progresses_prefaceItem stalls) still
      · obtain ⟨rfl, rfl⟩ := List.append_eq_nil_iff.1 skips.symm
        obtain ⟨group, ahead, -⟩ := (reads_prefaceItem_dropWhile.2 one).advances
        obtain ⟨back, rfl, -⟩ := others.advances
        have step := prefaceStep_of_reads one
        rw [ahead, ← List.append_assoc] at step split
        rw [← List.append_assoc, List.append_cancel_right_eq] at split
        subst split
        have smaller : back.length < n := by
          simp only [List.length_append] at moved size
          omega
        have kept := step.commentCount_le
        rcases ih _ smaller others rfl with ⟨⟨token, mem, plain⟩, more⟩ |
          ⟨annotations, given, blanks', front, rfl, white, lead, declares, same⟩
        · exact .inl ⟨⟨token, by simp [mem], plain⟩, Nat.lt_of_le_of_lt kept more⟩
        rw [List.append_assoc blanks' front core] at step
        rw [List.append_assoc blanks group]
        rcases step.exists_leadTokens white lead with ⟨⟨token, mem, plain⟩, more⟩ |
          ⟨annotations', given', lead', annotated, modified, kept⟩
        · refine .inl ⟨⟨token, List.mem_append_right _ mem, plain⟩, ?_⟩
          rw [same]
          exact Nat.lt_of_lt_of_eq (Nat.lt_succ_self _) more.symm
        · refine .inr ⟨annotations', given', blanks, _, rfl, blank, lead', declares, ?_⟩
          rw [same, annotated, modified, kept]

/-- The lead of a declaration without a comment in it is made of annotations and modifiers. -/
theorem exists_leadTokens (h : (modifierRun preface).Reads (own ++ core) run core [])
    (clear : ∀ token ∈ own, token.isPlainComment = false)
    (target : (classifyTarget core).isSome = true) :
    ∃ annotations given blanks front, own = blanks ++ front ∧
      (∀ token ∈ blanks, token.isWhitespace = true) ∧ LeadTokens annotations given front ∧
      Declares core ∧ run = { preface with
        annotations := preface.annotations ++ annotations
        modifiers := preface.modifiers ++ given } := by
  refine (exists_comment_or_leadTokens h target).resolve_left fun ⟨⟨token, mem, plain⟩, _⟩ => ?_
  exact Bool.false_ne_true ((clear token mem).symm.trans plain)

end Reading

/-! ### Modifiers in another order -/

section

variable {given given' : List Modifier}

theorem modifierRunDefects_of_perm (order : given.Perm given')
    (clean : modifierRunDefects given = []) : modifierRunDefects given' = [] := by
  rw [modifierRunDefects, List.append_eq_nil_iff, List.map_eq_nil_iff, requirement_eq_nil,
    decide_eq_true_iff, Modifier.repeats, Modifier.repeatsAfter_eq_nil_iff,
    Modifier.length_visibilities_le_one] at clean ⊢
  simpa only [order.nodup_iff, order.mem_iff] using clean

theorem kindReport_of_perm (order : given.Perm given') (kind : DeclarationKind) :
    kindReport kind given' = kindReport kind given := by
  simp only [kindReport, order.mem_iff]

theorem Declaration.bodyReport_of_perm (order : given.Perm given') (declared : Declaration) :
    declared.bodyReport given' = declared.bodyReport given := by
  cases declared <;> simp only [bodyReport, order.mem_iff]

/-- Nothing is wrong with modifiers in one order if nothing is in another. -/
theorem Declaration.modifierReport_of_perm (order : given.Perm given') {declared : Declaration}
    (clean : declared.modifierReport given = []) : declared.modifierReport given' = [] := by
  rw [modifierReport, List.append_eq_nil_iff, ← modifierRunDefects_eq] at clean ⊢
  rw [kindReport_of_perm order, bodyReport_of_perm order]
  exact ⟨modifierRunDefects_of_perm order clean.1, clean.2⟩

theorem Modifiers.ofList_of_perm (order : given.Perm given') :
    Modifiers.ofList given' = Modifiers.ofList given :=
  Modifiers.ext_mem fun m => by rw [mem_ofList, mem_ofList, order.mem_iff]

end

/-- Annotations and modifiers are put in place of those there. -/
def LeadChange.front (annotations : List Annotation) (given : List Modifier) : LeadChange where
  draft lead := { lead with annotations, modifiers := given }
  node lead := { lead with annotations, modifiers := Modifiers.ofList given }
  modifiers := given
  lead_draft _ := rfl
  commentDefects_draft clean := clean
  modifiers_draft _ := rfl

theorem Declaration.changed_front_of_perm {given given' : List Modifier} (order : given.Perm given')
    (annotations : List Annotation) (declared : Declaration) :
    declared.changed (.front annotations given) = declared.changed (.front annotations given') := by
  cases declared <;> simp only [changed, LeadChange.front, Modifiers.ofList_of_perm order]

namespace Reading

variable {tokens rest skipped : List Token} {inner : Bool} {kind : DeclarationKind}
  {declared : Declaration}

/-- Nothing is wrong with the modifiers of a declaration that is read. -/
theorem modifierReport_of_declarationOf {run : Preface}
    (h : (declarationOf nestedDeclaration run inner kind).Reads tokens declared rest skipped) :
    declared.modifierReport run.modifiers = [] := by
  let still := LeadChange.front run.annotations run.modifiers
  have settles := (@settles_declarationOf _ _ _ run run still _ _ _ h rfl).2
  by_contra wrong
  obtain ⟨failure, ⟨_, fails⟩, -⟩ := settles.2 wrong
  obtain ⟨_, reads⟩ := h
  rw [reads] at fails
  cases fails

/-- Behind something else with the same modifiers, a declaration differs in that only. -/
theorem declarationOf_changed {run run' : Preface} {change : LeadChange}
    (h : (declarationOf nestedDeclaration run inner kind).Reads tokens declared rest skipped)
    (own : run'.toLeadDraft = change.draft run.toLeadDraft)
    (same : change.modifiers = run.modifiers) :
    (declarationOf nestedDeclaration run' inner kind).Reads tokens (declared.changed change) rest
      [] := by
  refine (settles_declarationOf h own).2.1 ?_
  rw [same]
  exact modifierReport_of_declarationOf h

/-- Behind other annotations and the modifiers in another order, a declaration differs in its
annotations only. -/
theorem declarationOf_of_perm {run run' : Preface}
    (h : (declarationOf nestedDeclaration run inner kind).Reads tokens declared rest skipped)
    (order : run.modifiers.Perm run'.modifiers)
    (own : run'.toLeadDraft = { run.toLeadDraft with
      annotations := run'.annotations, modifiers := run'.modifiers }) :
    declared = declared.changed (.front run.annotations run.modifiers) ∧
      (declarationOf nestedDeclaration run' inner kind).Reads tokens
        (declared.changed (.front run'.annotations run.modifiers)) rest [] := by
  let still := LeadChange.front run.annotations run.modifiers
  obtain ⟨same, -, -⟩ := h.unique (@declarationOf_changed _ _ _ _ _ _ run run still h rfl rfl)
  let moved := LeadChange.front run'.annotations run'.modifiers
  have settles := (@settles_declarationOf _ _ _ run run' moved _ _ _ h own).2
  have reads := settles.1
    (declared.modifierReport_of_perm order (modifierReport_of_declarationOf h))
  refine ⟨same, ?_⟩
  rwa [Declaration.changed_front_of_perm order]

end Reading

/-! ### The same declaration -/

namespace LeadTokens

variable {annotations annotations' : List Annotation} {given given' : List Modifier}
  {front front' here blanks blanks' rest skipped : List Token} {inner : Bool}
  {preface preface' : Preface} {declared : Declaration}

/-- The lead of a declaration decides about its annotations and its modifiers only, and the order
of the modifiers does not matter. -/
theorem reads_declaration (lead : LeadTokens annotations given front)
    (lead' : LeadTokens annotations' given' front') (order : given.Perm given')
    (core : Reading.Declares here) (alike : preface.Alike preface')
    (blank : ∀ token ∈ blanks, token.isWhitespace = true)
    (blank' : ∀ token ∈ blanks', token.isWhitespace = true)
    (reads : (Reading.declaration preface inner).Reads (blanks ++ (front ++ here)) declared rest
      skipped) :
    declared = declared.changed
        (.front (preface.annotations ++ annotations) (preface.modifiers ++ given)) ∧
      (Reading.declaration preface' inner).Reads (blanks' ++ (front' ++ here))
        (declared.changed
          (.front (preface.annotations ++ annotations') (preface.modifiers ++ given))) rest [] := by
  obtain ⟨run, mid, passed, later, kind, modified, target, clean, declared, rfl⟩ :=
    Reading.reads_declarationWith.1 reads
  obtain ⟨rfl, rfl, rfl⟩ := modified.unique (lead.reads_modifierRun core blank preface)
  obtain ⟨start, rfl⟩ : ∃ start, preface' = { preface with start } := ⟨_, alike⟩
  have order' := order.append_left preface.modifiers
  let run' : Preface := { preface with
    start
    annotations := preface.annotations ++ annotations'
    modifiers := preface.modifiers ++ given' }
  obtain ⟨same, reads'⟩ := @Reading.declarationOf_of_perm _ _ _ _ _ _ _ run' declared order' rfl
  refine ⟨same, Reading.reads_declarationWith.2 ⟨run', _, [], [], kind,
    lead'.reads_modifierRun core blank' _, target, ?_, reads', rfl⟩⟩
  rw [Preface.allDefects, List.append_eq_nil_iff] at clean ⊢
  exact ⟨modifierRunDefects_of_perm order' clean.1, clean.2⟩

end LeadTokens

/-- Two rows of tokens begin with one declaration: the annotations in front of it are the same in
the same order, the modifiers in any order. -/
inductive Reordered : List Token → List Token → Prop where
  | intro {annotations given given' front front' core}
      (lead : LeadTokens annotations given front) (lead' : LeadTokens annotations given' front')
      (order : given.Perm given') (declares : Reading.Declares core) :
      Reordered (front ++ core) (front' ++ core)

namespace Reordered

variable {x y blanks rest skipped : List Token}

theorem symm (h : Reordered x y) : Reordered y x := by
  obtain ⟨lead, lead', order, declares⟩ := h
  exact .intro lead' lead order.symm declares

theorem leads (h : Reordered x y) : (currentToken y).leads = true := by
  obtain ⟨lead, lead', order, declares⟩ := h
  exact lead'.leads declares

/-- A declaration behind one lead is the declaration behind the other. -/
theorem reads_declaration (h : Reordered x y) (blank : ∀ token ∈ blanks, token.isWhitespace = true)
    {preface preface' : Preface} (alike : preface.Alike preface') {inner : Bool}
    {declared : Declaration}
    (reads : (Reading.declaration preface inner).Reads (blanks ++ x) declared rest skipped) :
    (Reading.declaration preface' inner).Reads (blanks ++ y) declared rest [] := by
  obtain ⟨lead, lead', order, declares⟩ := h
  obtain ⟨same, reads'⟩ := lead.reads_declaration lead' order declares alike blank blank reads
  rwa [← same] at reads'

/-- Whether a comment in front of the declaration belongs to it does not change. -/
theorem startsDeclaration_eq (h : Reordered x y) (inBody : Bool) :
    startsDeclaration inBody (currentToken y) = startsDeclaration inBody (currentToken x) := by
  obtain ⟨lead, lead', order, declares⟩ := h
  rename_i annotations given given' front front' core
  have both : front' = [] ↔ front = [] := by
    rw [lead.eq_nil_iff, lead'.eq_nil_iff]
    exact and_congr_right fun _ => by rw [← List.length_eq_zero_iff, ← order.length_eq,
      List.length_eq_zero_iff]
  by_cases bare : front = []
  · rw [bare, both.2 bare]
  · rw [lead.starts bare, lead'.starts (both.not.2 bare)]

end Reordered

end JavaUnit
