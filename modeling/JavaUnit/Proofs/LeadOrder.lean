/-
Module: JavaUnit.Proofs.LeadOrder
Purpose: The order of modifiers does not matter, nor where annotations stand among them. Two leads
  of a declaration with the same annotations in the same order and with the same modifiers are told
  apart nowhere: not where the declaration is all that is read, not by the file it is an outermost
  class of, and not by the class it is a member of. What is read of the whole text is the same.
Main exports: Reading.MemberAt, Reading.MemberAt.swap, Reading.DeclaredAt, Reading.DeclaredAt.swap,
  lead_order_immaterial
-/
import JavaUnit.Proofs.FileSwap

namespace JavaUnit

namespace Reading

variable {tokens rest skipped blanks : List Token} {state : FileState}

/-! ### In front of the lead -/

/-- Nothing stands in front of a lead. -/
theorem reads_preface_of_leads {read : Preface}
    (blank : ∀ token ∈ blanks, token.isWhitespace = true)
    (leads : (currentToken tokens).leads = true) :
    preface.Reads (blanks ++ tokens) read rest skipped ↔
      read = { start := tokens } ∧ rest = tokens ∧ skipped = [] := by
  have kinds := Token.not_leads_of_mem leads
  simp only [List.mem_cons, List.not_mem_nil, or_false, not_or] at kinds
  have ink : (currentToken tokens).isWhitespace = false := by simp [Token.isWhitespace, kinds]
  have plain : (currentToken tokens).isPlainComment = false := by
    simp [Token.isPlainComment, kinds]
  rw [preface, reads_skipWhitespace_bind, List.dropWhile_append_of_pos blank,
    dropWhile_of_current ink, reads_emptyPreface_bind, reads_current_bind,
    if_neg (by simp [plain]), reads_pure_bind, reads_current_bind, if_neg (by simp [kinds]),
    reads_pure]

theorem reads_outerPreface_of_leads {both : FileState × Preface}
    (leads : (currentToken tokens).leads = true) :
    (outerPreface state).Reads tokens both rest [] ↔
      both = ({ state with sectionComment := none },
        { start := tokens, sectionComment := state.sectionComment }) ∧ rest = tokens := by
  have kinds := Token.not_leads_of_mem leads
  simp only [List.mem_cons, List.not_mem_nil, or_false, not_or] at kinds
  have ink : (currentToken tokens).isWhitespace = false := by simp [Token.isWhitespace, kinds]
  have plain : (currentToken tokens).isPlainComment = false := by
    simp [Token.isPlainComment, kinds]
  have none : ∀ (both : FileState × Preface),
      (iterate prefaceComment both).Reads tokens both tokens [] := by
    intro both
    refine reads_iterate_last ?_
    rw [prefaceComment, reads_skipWhitespace_bind, dropWhile_of_current ink, reads_current_bind,
      if_neg (by simp [plain]), reads_pure]
    exact ⟨rfl, rfl, rfl⟩
  rw [reads_outerPreface]
  simp only [reads_documented, kinds, false_and, false_or, ne_eq, not_false_eq_true, true_and]
  constructor
  · rintro ⟨_, _, ⟨rfl, rfl⟩, comments⟩
    obtain ⟨rfl, rfl, -⟩ := comments.unique (none _)
    exact ⟨rfl, rfl⟩
  · rintro ⟨rfl, rfl⟩
    exact ⟨_, _, ⟨rfl, rfl⟩, none _⟩

end Reading

/-! ### The first declaration -/

namespace Reordered

open Reading

variable {x y blanks rest skipped : List Token} (h : Reordered x y)

include h

theorem reads_declaration_here {preface preface' : Preface} {inner : Bool} {declared : Declaration}
    (reads : (declaration preface inner).Reads x declared rest skipped)
    (alike : preface.Alike preface') : (declaration preface' inner).Reads y declared rest [] := by
  have none : ∀ token ∈ ([] : List Token), token.isWhitespace = true := by simp
  exact h.reads_declaration none alike reads

theorem reads_outerDeclaration {state last : FileState}
    (reads : (outerDeclaration state).Reads x last rest []) :
    (outerDeclaration state).Reads y last rest [] := by
  obtain ⟨both, mid, declared, prefaced, declares, rfl⟩ := reads_outerDeclaration_parts.1 reads
  obtain ⟨rfl, rfl⟩ := (reads_outerPreface_of_leads h.symm.leads).1 prefaced
  exact reads_outerDeclaration_parts.2 ⟨_, y, declared,
    (reads_outerPreface_of_leads h.leads).2 ⟨rfl, rfl⟩, h.reads_declaration_here declares rfl, rfl⟩

theorem filesAgree (blank : ∀ token ∈ blanks, token.isWhitespace = true) (state : FileState) :
    FilesAgree state (blanks ++ x) (blanks ++ y) :=
  filesAgree_of_outer blank (beginsOuter_of_leads h.symm.leads) (beginsOuter_of_leads h.leads)
    fun _ _ => h.reads_outerDeclaration

theorem filesInterchangeable (blank : ∀ token ∈ blanks, token.isWhitespace = true) :
    FilesInterchangeable (blanks ++ x) (blanks ++ y) where
  precedes front := by
    rw [← List.append_assoc, ← List.append_assoc]
    exact h.precedes false (front ++ blanks)
  announces := announces_append (iff_of_false (not_announces_of_leads blank h.symm.leads)
    (not_announces_of_leads blank h.leads))

/-- A declaration on its own stays the same. -/
theorem reads_prefaced {inner : Bool} {declared : Declaration}
    (reads : (preface >>= fun preface => declaration preface inner).Reads x declared rest skipped) :
    (preface >>= fun preface => declaration preface inner).Reads y declared rest [] := by
  have none : ∀ token ∈ ([] : List Token), token.isWhitespace = true := by simp
  obtain ⟨_, _, _, later, prefaced, declares, rfl⟩ := reads_bind.1 reads
  obtain ⟨rfl, rfl, rfl⟩ := (@reads_preface_of_leads x _ _ [] _ none h.symm.leads).1 prefaced
  exact reads_bind_nil.2 ⟨_, y, (@reads_preface_of_leads y _ _ [] _ none h.leads).2 ⟨rfl, rfl, rfl⟩,
    h.reads_declaration_here declares rfl⟩

theorem reads_declarationAs {wanted : DeclarationKind} {part : Declaration → Option α} {node : α}
    (blank : ∀ token ∈ blanks, token.isWhitespace = true)
    (reads : (declarationAs wanted part).Reads (blanks ++ x) node rest skipped) :
    (declarationAs wanted part).Reads (blanks ++ y) node rest [] := by
  obtain ⟨_, _, _, later, prefaced, others, rfl⟩ := reads_bind.1 reads
  obtain ⟨rfl, rfl, rfl⟩ := (reads_preface_of_leads blank h.symm.leads).1 prefaced
  obtain ⟨declared, mid, _, _, declares, settled, rfl⟩ := reads_bind.1 others
  cases found : part declared with
  | none =>
      rw [found] at settled
      exact absurd settled not_reads_fail
  | some value =>
      rw [found] at settled
      obtain ⟨rfl, rfl, -⟩ := reads_pure.1 settled
      refine reads_bind_nil.2 ⟨_, y, (reads_preface_of_leads blank h.leads).2 ⟨rfl, rfl, rfl⟩,
        reads_bind_nil.2 ⟨declared, _, h.reads_declaration_here declares rfl, ?_⟩⟩
      rw [found]
      exact reads_pure.2 ⟨rfl, rfl, rfl⟩

theorem noBlock : blockAhead y = false := by
  obtain ⟨lead, lead', order, core⟩ := h
  exact lead'.blockAhead_eq core

theorem noComment : commentAhead y = false := by
  have matters := Token.isTrivia_of_leads h.leads
  rw [Token.isTrivia, Bool.or_eq_false_iff] at matters
  rw [commentAhead, matters.2, Bool.false_and]

theorem readsMember {node : Member} (reads : ReadsMember x node rest skipped) :
    ReadsMember y node rest [] := by
  cases reads with
  | staticBlock block => simp [h.symm.noBlock] at block
  | comment _ alone => simp [h.symm.noComment] at alone
  | declared _ _ reads =>
      exact .declared h.noBlock h.noComment (h.reads_prefaced reads)

theorem reads_member {node : Member} (blank : ∀ token ∈ blanks, token.isWhitespace = true)
    (reads : member.Reads (blanks ++ x) node rest skipped) :
    member.Reads (blanks ++ y) node rest [] := by
  have behind : ∀ {tokens : List Token}, (currentToken tokens).leads = true →
      (blanks ++ tokens).dropWhile Token.isWhitespace = tokens := by
    intro tokens leads
    have matters := Token.isTrivia_of_leads leads
    rw [Token.isTrivia, Bool.or_eq_false_iff] at matters
    rw [List.dropWhile_append_of_pos blank, dropWhile_of_current matters.1]
  rw [Reading.reads_member, behind h.symm.leads] at reads
  rw [Reading.reads_member, behind h.leads]
  exact h.readsMember reads

end Reordered

/-! ### Inside of classes -/

namespace Reading

variable {tokens rest skipped x y blanks : List Token} {state : FileState}

/-- Where a member of the class that is read from the first tokens on begins, or a member of a class
inside of it. -/
inductive MemberAt : Preface → List Token → List Token → Prop where
  | member {preface tokens blanks here}
      (blank : ∀ token ∈ blanks, token.isWhitespace = true)
      (body : InBody preface tokens (blanks ++ here)) : MemberAt preface tokens here
  | nested {preface tokens blanks outer here}
      (blank : ∀ token ∈ blanks, token.isWhitespace = true)
      (body : InBody preface tokens (blanks ++ outer))
      (starts : startsItem (currentToken outer) = false) (noBlock : blockAhead outer = false)
      (deeper : MemberAt { start := outer } outer here) : MemberAt preface tokens here

theorem MemberAt.leads {read : Preface} (h : MemberAt read tokens x)
    (starts : startsItem (currentToken tokens) = false) : (currentToken tokens).leads = true := by
  cases h with
  | member _ body => exact body.leads starts
  | nested _ body => exact body.leads starts

/-- A class stays the same class if the lead of a member is written in another order. -/
theorem MemberAt.swap {read : Preface} (h : MemberAt read tokens x) (same : Reordered x y) :
    ∃ front back, tokens = front ++ (back ++ x) ∧ Closed front ∧
      ∀ ⦃read' inner declared rest skipped⦄, read.Alike read' →
        (declaration read inner).Reads tokens declared rest skipped →
        (declaration read' inner).Reads (front ++ (back ++ y)) declared rest [] := by
  induction h with
  | @member read tokens blanks here blank body =>
      obtain ⟨front, back, rfl, closed, swap⟩ :=
        body.swap (same.interchangeable blank) (same.bodiesAgree blank)
      refine ⟨front, back ++ blanks, by simp, closed, ?_⟩
      simpa using swap
  | @nested read tokens blanks outer here blank body starts noBlock deeper ih =>
      obtain ⟨front', back', rfl, closed', swap'⟩ := ih same
      have leads := deeper.leads starts
      have first := closed'.currentToken_append (back' ++ y) (back' ++ here)
      have block := closed'.blockAhead_append (back' ++ here) (back' ++ y)
      have agree : BodiesAgree (blanks ++ (front' ++ (back' ++ here)))
          (blanks ++ (front' ++ (back' ++ y))) :=
        bodiesAgree_nested blank starts noBlock (first ▸ starts) (block ▸ noBlock)
          fun declared rest reads =>
            reads_nestedDeclaration.2 (swap' rfl (reads_nestedDeclaration.1 reads))
      obtain ⟨front, back, rfl, closed, swap⟩ :=
        body.swap (closed'.interchangeable blank (first ▸ leads)) agree
      refine ⟨front, back ++ (blanks ++ (front' ++ back')), by simp, closed, ?_⟩
      simpa using swap

/-- A file agrees with itself from its outermost class on, if a member is written otherwise. -/
theorem MemberAt.reads_outerDeclaration {both : FileState × Preface} {opened : List Token}
    (h : MemberAt both.2 opened x) (same : Reordered x y)
    (prefaced : (outerPreface state).Reads tokens both opened []) :
    ∃ front back, tokens = front ++ (back ++ x) ∧ Closed front ∧ ∀ ⦃last rest⦄,
      (outerDeclaration state).Reads tokens last rest [] →
      (outerDeclaration state).Reads (front ++ (back ++ y)) last rest [] := by
  obtain ⟨front, back, rfl, closed, swap⟩ := h.swap same
  obtain ⟨lead, rfl, -⟩ := prefaced.advances
  refine ⟨lead ++ front, back, by simp, closed.append lead, fun last rest reads => ?_⟩
  obtain ⟨_, _, declared, prefaced', declares, rfl⟩ := reads_outerDeclaration_parts.1 reads
  obtain ⟨rfl, rfl, -⟩ := prefaced'.unique prefaced
  obtain ⟨⟨_, after⟩, ⟨rfl, alike⟩, prefaced'⟩ :=
    @steady_outerPreface (back ++ x) (back ++ y) state lead front _ _ closed.any prefaced
  rw [List.append_assoc]
  exact reads_outerDeclaration_parts.2 ⟨_, _, declared, prefaced', swap alike declares, rfl⟩

theorem MemberAt.reads_prefaced {read : Preface} {opened : List Token}
    (h : MemberAt read opened x) (same : Reordered x y)
    (prefaced : preface.Reads tokens read opened []) :
    ∃ front back, tokens = front ++ (back ++ x) ∧ Closed front ∧
      ∀ ⦃inner declared rest skipped⦄,
        (preface >>= fun preface => declaration preface inner).Reads tokens declared rest skipped →
        (preface >>= fun preface => declaration preface inner).Reads (front ++ (back ++ y)) declared
          rest [] := by
  obtain ⟨front, back, rfl, closed, swap⟩ := h.swap same
  obtain ⟨lead, rfl, -⟩ := prefaced.advances
  refine ⟨lead ++ front, back, by simp, closed.append lead, ?_⟩
  intro inner declared rest skipped reads
  obtain ⟨_, _, _, later, prefaced', declares, rfl⟩ := reads_bind.1 reads
  obtain ⟨rfl, rfl, rfl⟩ := prefaced'.unique prefaced
  obtain ⟨after, alike, prefaced'⟩ :=
    @steady_preface (back ++ x) (back ++ y) lead front _ _ closed.any prefaced
  rw [List.append_assoc]
  exact reads_bind_nil.2 ⟨after, _, prefaced', swap alike declares⟩

/-! ### Whole texts -/

/-- Where a declaration begins in what is read for a goal: in front of everything but white space,
as the outermost class of a file, or as a member of a class at any depth. -/
inductive DeclaredAt : Goal → List Token → List Token → Prop where
  | field {blanks here} (blank : ∀ token ∈ blanks, token.isWhitespace = true) :
      DeclaredAt .field (blanks ++ here) here
  | method {blanks here} (blank : ∀ token ∈ blanks, token.isWhitespace = true) :
      DeclaredAt .method (blanks ++ here) here
  | member {blanks here} (blank : ∀ token ∈ blanks, token.isWhitespace = true) :
      DeclaredAt .member (blanks ++ here) here
  | outermost {state tokens blanks here}
      (goes : Goes fileItem {} tokens state (blanks ++ here))
      (blank : ∀ token ∈ blanks, token.isWhitespace = true) : DeclaredAt .file tokens here
  | inMember {read blanks tokens opened here}
      (blank : ∀ token ∈ blanks, token.isWhitespace = true)
      (ink : (currentToken tokens).isWhitespace = false) (noBlock : blockAhead tokens = false)
      (noComment : commentAhead tokens = false) (prefaced : preface.Reads tokens read opened [])
      (member : MemberAt read opened here) : DeclaredAt .member (blanks ++ tokens) here
  | inFile {state both tokens blanks outer opened here}
      (goes : Goes fileItem {} tokens state (blanks ++ outer))
      (blank : ∀ token ∈ blanks, token.isWhitespace = true) (begins : BeginsOuter outer)
      (prefaced : (outerPreface state).Reads outer both opened [])
      (member : MemberAt both.2 opened here) : DeclaredAt .file tokens here

/-- What is read for a goal stays the same if the lead of a declaration is written in another
order. -/
theorem DeclaredAt.swap {goal : Goal} (h : DeclaredAt goal tokens x) (same : Reordered x y) :
    ∃ front, tokens = front ++ x ∧ ∀ ⦃node rest skipped⦄,
      goal.entry.reading.Reads tokens node rest skipped →
      ∃ skipped', goal.entry.reading.Reads (front ++ y) node rest skipped' := by
  cases h with
  | field blank =>
      refine ⟨_, rfl, fun node rest skipped reads => ?_⟩
      obtain ⟨field, read, rfl⟩ := reads_map.1 reads
      exact ⟨_, reads_map.2 ⟨field, same.reads_declarationAs blank read, rfl⟩⟩
  | method blank =>
      refine ⟨_, rfl, fun node rest skipped reads => ?_⟩
      obtain ⟨method, read, rfl⟩ := reads_map.1 reads
      exact ⟨_, reads_map.2 ⟨method, same.reads_declarationAs blank read, rfl⟩⟩
  | member blank =>
      refine ⟨_, rfl, fun node rest skipped reads => ?_⟩
      obtain ⟨member, read, rfl⟩ := reads_map.1 reads
      exact ⟨_, reads_map.2 ⟨member, same.reads_member blank read, rfl⟩⟩
  | @outermost state tokens blanks _ goes blank =>
      obtain ⟨before, rfl, -⟩ := goes.advances
      have agree := filesAgree_of_goes goes (same.filesInterchangeable blank)
        (same.filesAgree blank state)
      refine ⟨before ++ blanks, by simp, fun node rest skipped reads => ?_⟩
      obtain ⟨outer, read, rfl⟩ := reads_map.1 reads
      rw [List.append_assoc]
      exact ⟨_, reads_map.2 ⟨outer, reads_compilationUnit_of_agree agree read, rfl⟩⟩
  | @inMember _ blanks _ _ _ blank ink noBlock noComment prefaced member =>
      obtain ⟨front, back, rfl, closed, swap⟩ := member.reads_prefaced same prefaced
      refine ⟨blanks ++ (front ++ back), by simp, fun node rest skipped reads => ?_⟩
      obtain ⟨member, read, rfl⟩ := reads_map.1 reads
      have first := closed.currentToken_append (back ++ y) (back ++ x)
      have here := reads_member.1 read
      rw [List.dropWhile_append_of_pos blank, dropWhile_of_current ink] at here
      have read' : Reading.member.Reads (blanks ++ (front ++ (back ++ y))) member rest [] := by
        rw [reads_member, List.dropWhile_append_of_pos blank, dropWhile_of_current (first ▸ ink)]
        cases here with
        | staticBlock block => simp [noBlock] at block
        | comment _ alone => simp [noComment] at alone
        | declared _ _ declares =>
            exact .declared (closed.blockAhead_append _ _ ▸ noBlock)
              (closed.commentAhead_append _ _ ▸ noComment) (swap declares)
      simp only [List.append_assoc]
      exact ⟨_, reads_map.2 ⟨member, read', rfl⟩⟩
  | @inFile state both tokens blanks outer opened _ goes blank begins prefaced member =>
      obtain ⟨before, rfl, -⟩ := goes.advances
      obtain ⟨front, back, rfl, closed, swap⟩ := member.reads_outerDeclaration same prefaced
      have later := filesAgree_of_outer blank begins (begins.swap closed) swap
      have agree := filesAgree_of_goes goes
        (filesInterchangeable_of_closed closed blanks (back ++ x) (back ++ y)) later
      refine ⟨before ++ (blanks ++ (front ++ back)), by simp, fun node rest skipped reads => ?_⟩
      obtain ⟨outer, read, rfl⟩ := reads_map.1 reads
      simp only [List.append_assoc]
      exact ⟨_, reads_map.2 ⟨outer, reads_compilationUnit_of_agree agree read, rfl⟩⟩

end Reading

open Reading in
/-- Where a declaration without comments is read, its annotations and its modifiers may be written
in another order: the modifiers in any, the annotations in their own in front of them or among them.
What is read of the whole text is the same. -/
theorem lead_order_immaterial {goal : Goal} {name source : Text} {node : Node} {inner : Bool}
    {before own rest skipped : List Token} {declared : Declaration}
    (lexed : lex source = .ok (before ++ (own ++ rest)))
    (place : DeclaredAt goal (before ++ (own ++ rest)) (own ++ rest))
    (ink : (currentToken (own ++ rest)).isWhitespace = false)
    (reads : (declaration { start := own ++ rest } inner).Reads (own ++ rest) declared rest skipped)
    (clear : ∀ token ∈ own, token.isComment = false)
    (parsed : goal.entry.parseText name source = .ok node) :
    ∃ annotations given front core, own = front ++ core ∧ LeadTokens annotations given front ∧
      Declares (core ++ rest) ∧ ∀ given' front' source' name', given.Perm given' →
        LeadTokens annotations given' front' →
        lex source' = .ok (before ++ (front' ++ (core ++ rest))) →
        goal.entry.parseText name' source' = .ok node := by
  obtain ⟨run, mid, passed, later, kind, modified, target, -, declares, -⟩ :=
    reads_declarationWith.1 reads
  obtain ⟨rfl, -⟩ := gains_modifierRun modified
  obtain ⟨core, rfl, -⟩ := declares.advances
  obtain ⟨lead, split, -⟩ := modified.advances
  rw [← List.append_assoc, List.append_cancel_right_eq] at split
  subst split
  rw [List.append_assoc] at modified
  have plain : ∀ token ∈ lead, token.isPlainComment = false := fun token mem =>
    (Bool.or_eq_false_iff.1 (clear token (List.mem_append_left _ mem))).1
  obtain ⟨annotations, given, blanks, front, rfl, blank, leads, begins, -⟩ :=
    exists_leadTokens modified plain (by simp [target])
  -- The declaration begins with its lead: no white space is left in front of it.
  obtain rfl : blanks = [] := by
    by_contra some
    obtain ⟨token, others, rfl⟩ := List.exists_cons_of_ne_nil some
    simp [currentToken, blank token] at ink
  refine ⟨annotations, given, front, core, rfl, leads, begins, ?_⟩
  intro given' front' source' name' order leads' lexed'
  have same := Reordered.intro leads leads' order begins
  rw [List.nil_append, List.append_assoc] at lexed place
  obtain ⟨before', split, swap⟩ := place.swap same
  obtain rfl := List.append_cancel_right split
  obtain ⟨tokens, rest', skipped', lexed'', parses, ends⟩ := exists_reads_of_parseText parsed
  obtain rfl := Except.ok.inj (lexed.symm.trans lexed'')
  obtain ⟨skipped'', parses'⟩ := swap parses
  exact Entry.parseText_eq_ok_iff.2
    ⟨_, lexed', Entry.readAll_eq_ok_iff.2 ⟨rest', skipped'', parses', ends⟩⟩

/-- A blank between two other tokens. -/
def oneBlank : Token := ⟨.whitespace, [' ']⟩

/-- The tokens of an annotation without values. -/
def markerTokens (name : Char) : List Token := [⟨.atSign, ['@']⟩, ⟨.identifier, [name]⟩]

/-- An annotation in front of two modifiers and one behind them. -/
def mixedLead : List Token :=
  markerTokens 'A' ++ ([oneBlank] ++ (⟨.keyword .«public», "public".toList⟩ :: ([oneBlank] ++
    (⟨.keyword .static, "static".toList⟩ :: ([oneBlank] ++ (markerTokens 'B' ++
      ([oneBlank] ++ [])))))))

/-- The same lead in another order. -/
def sortedLead : List Token :=
  ⟨.keyword .static, "static".toList⟩ :: ([oneBlank] ++ (markerTokens 'A' ++ ([oneBlank] ++
    (markerTokens 'B' ++ ([oneBlank] ++ (⟨.keyword .«public», "public".toList⟩ ::
      ([oneBlank] ++ [])))))))

/-- A field without its lead. -/
def fieldTokens : List Token :=
  [⟨.keyword .int, "int".toList⟩, oneBlank, ⟨.identifier, ['x']⟩, ⟨.semicolon, [';']⟩]

/-- A class up to the brace that opens its body. -/
def classTokens : List Token :=
  [⟨.keyword .class, "class".toList⟩, oneBlank, ⟨.identifier, ['C']⟩, oneBlank,
    ⟨.openBrace, ['\x7b']⟩]

/-- The end of a class and of the input. -/
def closingTokens : List Token := [oneBlank, ⟨.closeBrace, ['\x7d']⟩, Token.endOfInput]

/-- Both hold the same annotations, and the same modifiers the other way round. -/
theorem exists_mixedLead : ∃ first second,
    LeadTokens [first, second] [.«public», .static] mixedLead ∧
      LeadTokens [first, second] [.static, .«public»] sortedLead := by
  have white : ∀ token ∈ [oneBlank], token.isWhitespace = true := by decide
  have used : ∀ name, name = 'A' ∨ name = 'B' →
      ∃ used, Reading.annotationUse.Reads (markerTokens name) used [] [] := by
    intro name either
    have read : ((Entry.read ⟨.node .annotationUse, Reading.annotationUse⟩
        (markerTokens name)).toOption.map Prod.snd) = some [] := by
      rcases either with rfl | rfl <;> decide +kernel
    obtain ⟨⟨used, rest⟩, is, rfl⟩ := Option.map_eq_some_iff.1 read
    obtain ⟨skipped, reads⟩ := Entry.read_eq_ok_iff.1 (eq_ok_of_toOption is)
    obtain ⟨rfl, -⟩ := Reading.openComments_annotationUse reads
    exact ⟨used, reads⟩
  obtain ⟨first, readsA⟩ := used 'A' (.inl rfl)
  obtain ⟨second, readsB⟩ := used 'B' (.inr rfl)
  refine ⟨first, second, ?_, ?_⟩
  · exact .used rfl readsA white (.modifier rfl white (.modifier rfl white
      (.used rfl readsB white .nil)))
  · exact .modifier rfl white (.used rfl readsA white (.used rfl readsB white
      (.modifier rfl white .nil)))

open Reading in
/-- The field is the first item of a class, whose tokens are all of the input. -/
theorem declaredAt_classTokens :
    DeclaredAt .file (classTokens ++ [oneBlank] ++ (mixedLead ++ fieldTokens ++ closingTokens))
      (mixedLead ++ fieldTokens ++ closingTokens) := by
  rw [List.append_assoc]
  generalize own : mixedLead ++ fieldTokens ++ closingTokens = here
  have none : ∀ token ∈ ([] : List Token), token.isWhitespace = true := by simp
  have white : ∀ token ∈ [oneBlank], token.isWhitespace = true := by decide
  have begins : Declares (classTokens ++ ([oneBlank] ++ here)) :=
    ⟨⟨rfl, rfl, by simp [classTokens, currentToken], rfl⟩, rfl⟩
  have opens : ((Entry.read ⟨.member, (opening ⟨.member, []⟩).withSkipped⟩
      (classTokens ++ ([oneBlank] ++ here))).toOption.map fun read => (read.1.2, read.2)) =
        some ([], [oneBlank] ++ here) := by
    rw [← own]
    decide +kernel
  obtain ⟨⟨⟨head, _⟩, _⟩, is, same⟩ := Option.map_eq_some_iff.1 opens
  obtain ⟨rfl, rfl⟩ := Prod.mk.inj same
  obtain ⟨_, reads⟩ := Entry.read_eq_ok_iff.1 (eq_ok_of_toOption is)
  obtain ⟨-, opens⟩ := reads_withSkipped.1 reads
  have modified := LeadTokens.nil.reads_modifierRun begins none
    { start := classTokens ++ ([oneBlank] ++ here) }
  have goes : Goes fileItem {} (classTokens ++ ([oneBlank] ++ here)) {}
      ([] ++ (classTokens ++ ([oneBlank] ++ here))) := .here
  exact .inFile goes none (beginsOuter_of_leads begins.leads)
    ((reads_outerPreface_of_leads begins.leads).2 ⟨rfl, rfl⟩)
    (.member white (.intro modified rfl opens .nil))

open Reading in
/-- An annotation that waits in the body of the class for the field, and one behind its modifiers,
come to stand between the modifiers, and those change places. -/
theorem lead_order_immaterial_inClass :
    ∃ node, Goal.file.entry.parseText defaultName
        "class C \x7b @A public static @B int x; \x7d".toList = .ok node ∧
      Goal.file.entry.parseText defaultName
        "class C \x7b static @A @B public int x; \x7d".toList = .ok node := by
  obtain ⟨first, second, lead, lead'⟩ := exists_mixedLead
  have core : Declares (fieldTokens ++ closingTokens) := ⟨⟨rfl, rfl, by decide, rfl⟩, rfl⟩
  let own := mixedLead ++ fieldTokens
  have lexed : lex "class C \x7b @A public static @B int x; \x7d".toList =
      .ok (classTokens ++ [oneBlank] ++ (own ++ closingTokens)) := by
    decide +kernel
  have read : ((Entry.read ⟨.member, declaration { start := own ++ closingTokens } true⟩
      (own ++ closingTokens)).toOption.map Prod.snd) = some closingTokens := by
    decide +kernel
  obtain ⟨⟨field, rest⟩, is, left⟩ := Option.map_eq_some_iff.1 read
  subst left
  obtain ⟨_, declares⟩ := Entry.read_eq_ok_iff.1 (eq_ok_of_toOption is)
  have parsed : ((Goal.file.entry.parseText defaultName
      "class C \x7b @A public static @B int x; \x7d".toList).toOption.map fun _ => ()) =
        some () := by decide +kernel
  obtain ⟨node, is, -⟩ := Option.map_eq_some_iff.1 parsed
  have parsed := eq_ok_of_toOption is
  obtain ⟨annotations, given, front, more, split, found, begins, swap⟩ :=
    lead_order_immaterial lexed declaredAt_classTokens rfl declares (by decide) parsed
  have begun : mixedLead ++ (fieldTokens ++ closingTokens) = front ++ (more ++ closingTokens) := by
    rw [← List.append_assoc, ← List.append_assoc, ← split]
  obtain ⟨rfl, rfl, behind⟩ := lead.unique found core begins begun
  refine ⟨node, parsed, swap _ _ _ _ (.swap _ _ _) lead' ?_⟩
  rw [behind]
  decide +kernel

end JavaUnit
