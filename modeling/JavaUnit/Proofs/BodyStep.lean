/-
Module: JavaUnit.Proofs.BodyStep
Purpose: What a step in reading a class body can be: it comes to the brace that closes the body,
  passes over a semicolon, or takes up a Javadoc, a comment, an annotation, a static block or a
  declaration. The items that a step takes up depend neither on those in front of it nor on the
  class that it is in.
Main exports: Reading.BodyStep, Reading.reads_bodyItem, Reading.BodyItems,
  Reading.BodyItems.reads_iterate, Reading.exists_more_of_body
-/
import JavaUnit.Proofs.Attaching
import JavaUnit.Proofs.ClassRules
import JavaUnit.Proofs.Origins
import JavaUnit.Proofs.Progress

namespace JavaUnit

namespace Reading

/-! ### Steps -/

/-- A declaration inside of a class is one with an empty preface. -/
theorem reads_nestedDeclaration {tokens rest skipped : List Token} {declared : Declaration} :
    nestedDeclaration.Reads tokens declared rest skipped ↔
      (declaration { start := tokens } true).Reads tokens declared rest skipped := by
  have agree : AgreeBelow tokens.length
      (below tokens.length (do fail ⟨.member, ← left⟩ [.undetermined]) nestedDeclaration)
      nestedDeclaration :=
    fun _ fewer => if_pos fewer
  rw [Reads, nestedDeclaration, run_recurse, ← nestedDeclaration, Reads, declaration,
    ← run_declarationWith_congr agree]
  exact reads_emptyPreface_bind

/-- The tokens that no static block and no declaration begins with. -/
def startsItem (token : Token) : Bool :=
  token.kind ∈ [.whitespace, .closeBrace, .eof, .semicolon, .docComment, .lineComment,
    .blockComment, .atSign]

theorem not_startsItem {token : Token} (h : startsItem token = false) :
    token.kind ≠ .closeBrace ∧ ¬ token.isEnd = true ∧ token.kind ≠ .semicolon ∧
      token.kind ≠ .docComment ∧ ¬ token.isPlainComment = true ∧ token.kind ≠ .atSign := by
  simp only [startsItem, List.mem_cons, List.not_mem_nil, or_false, decide_eq_false_iff_not,
    not_or] at h
  simp [h, Token.isEnd, Token.isPlainComment]

/-- One step in reading a class body, from the next token on that is not white space: the items
that are taken up, unless the body ends. -/
inductive BodyStep : List Token → Option (List BodyItem) → List Token → Prop where
  | close {token rest} (kind : token.kind = .closeBrace) : BodyStep (token :: rest) none rest
  | semicolon {token rest} (kind : token.kind = .semicolon) :
      BodyStep (token :: rest) (some []) rest
  | javadoc {tokens rest node} (kind : (currentToken tokens).kind = .docComment)
      (reads : javadoc.Reads tokens node rest []) : BodyStep tokens (some [.javadoc node]) rest
  | comment {tokens rest node} (plain : (currentToken tokens).isPlainComment = true)
      (reads : comment.Reads tokens node rest []) :
      BodyStep tokens (some [if precedesDeclaration true (tokens.drop 1) then .sectionComment node
        else .member (.comment node)]) rest
  | annotationUse {tokens rest node} (sign : (currentToken tokens).kind = .atSign)
      (reads : annotationUse.Reads tokens node rest []) :
      BodyStep tokens (some [.annotationUse node]) rest
  | staticBlock {tokens rest node} (starts : startsItem (currentToken tokens) = false)
      (block : blockAhead tokens = true) (reads : staticBlock.Reads tokens node rest []) :
      BodyStep tokens (some [.member (.staticBlock node)]) rest
  | declared {tokens rest declared} (starts : startsItem (currentToken tokens) = false)
      (noBlock : blockAhead tokens = false)
      (reads : nestedDeclaration.Reads tokens declared rest []) :
      BodyStep tokens (some [.member declared.toMember]) rest

/-- How a step goes on behind some items. -/
def bodyTurn (items : List BodyItem) : Option (List BodyItem) → Turn (List BodyItem)
  | none => .last items
  | some more => .again (items ++ more)

variable {tokens rest skipped : List Token} {items : List BodyItem} {scope : Scope} {name : Text}
  {turn : Turn (List BodyItem)}

theorem reads_item {read : Reading α} {item : α → BodyItem} :
    (read >>= fun node => pure (Turn.again (items ++ [item node]))).Reads tokens turn rest [] ↔
      ∃ node, turn = bodyTurn items (some [item node]) ∧ read.Reads tokens node rest [] :=
  reads_bind_pure

/-- A class body is read step by step, each from the next token on that is not white space. -/
theorem reads_bodyItem :
    (bodyItem nestedDeclaration scope name items).Reads tokens turn rest skipped ↔
      skipped = [] ∧ ∃ added, turn = bodyTurn items added ∧
        BodyStep (tokens.dropWhile Token.isWhitespace) added rest := by
  have clean : (bodyItem nestedDeclaration scope name items).Reads tokens turn rest skipped →
      skipped = [] := fun h => (accounted_bodyItem keeps_nestedDeclaration h).1
  have ink := isWhitespace_of_dropWhile tokens
  rw [bodyItem, reads_skipWhitespace_bind, reads_current_bind] at clean ⊢
  generalize tokens.dropWhile Token.isWhitespace = tokens at clean ink ⊢
  constructor
  · intro h
    obtain rfl := clean h
    refine ⟨rfl, ?_⟩
    simp only [reads_ite, not_reads_fail, and_false, false_or, reads_left_bind,
      reads_atStaticBlock_bind, reads_item, reads_advance_bind, reads_pure] at h
    rcases h with ⟨close, rfl, stop, -⟩ | ⟨noClose, inside, ⟨semicolon, rfl, stop, -⟩ |
      ⟨noSemicolon, ⟨doc, node, rfl, reads⟩ | ⟨noDoc, ⟨plain, node, rfl, reads⟩ |
        ⟨noPlain, ⟨sign, node, rfl, reads⟩ | ⟨noSign, h⟩⟩⟩⟩⟩
    · rw [if_neg (by simp [Token.isEnd, close])] at stop
      have whole : tokens = _ := eq_cons_tail rfl (by simp [Token.isEnd, close])
      rw [whole, stop]
      exact ⟨none, rfl, .close close⟩
    · rw [if_neg inside] at stop
      have whole : tokens = _ := eq_cons_tail rfl (by simpa using inside)
      rw [whole, stop]
      exact ⟨some [], by simp [bodyTurn], .semicolon semicolon⟩
    · exact ⟨_, rfl, .javadoc doc reads⟩
    · exact ⟨_, rfl, .comment plain reads⟩
    · exact ⟨_, rfl, .annotationUse sign reads⟩
    · have starts : startsItem (currentToken tokens) = false := by
        simp only [Token.isPlainComment, Token.isEnd, Bool.or_eq_true, decide_eq_true_eq,
          not_or] at noPlain inside
        have ink : (currentToken tokens).kind ≠ .whitespace := by
          simpa [Token.isWhitespace] using ink
        simp [startsItem, ink, noClose, inside, noSemicolon, noDoc, noPlain, noSign]
      rcases h with ⟨block, node, rfl, reads⟩ | ⟨noBlock, declared, rfl, reads⟩
      · exact ⟨_, rfl, .staticBlock starts block reads⟩
      · exact ⟨_, rfl, .declared starts (by simpa [blockAhead] using noBlock) reads⟩
  · rintro ⟨rfl, added, rfl, step⟩
    simp only [reads_ite, not_reads_fail, and_false, false_or, reads_left_bind,
      reads_atStaticBlock_bind, reads_item, reads_advance_bind, reads_pure]
    cases step with
    | close kind => simp [currentToken, kind, Token.isEnd, bodyTurn]
    | semicolon kind => simp [currentToken, kind, Token.isEnd, bodyTurn]
    | javadoc kind reads => simp [kind, Token.isEnd, bodyTurn, reads]
    | comment plain reads =>
        have kinds := plain
        rw [Token.isPlainComment, Bool.or_eq_true, decide_eq_true_iff, decide_eq_true_iff] at kinds
        have inside : ¬ (currentToken tokens).isEnd = true := by
          rcases kinds with kind | kind <;> simp [Token.isEnd, kind]
        have other : ∀ kind ∈ [Kind.closeBrace, .semicolon, .docComment],
            (currentToken tokens).kind ≠ kind := by
          rcases kinds with kind | kind <;> simp [kind]
        exact .inr ⟨other _ (by simp), inside, .inr ⟨other _ (by simp), .inr ⟨other _ (by simp),
          .inl ⟨plain, _, rfl, reads⟩⟩⟩⟩
    | annotationUse sign reads =>
        simp [sign, Token.isEnd, Token.isPlainComment, bodyTurn, reads]
    | staticBlock starts block reads =>
        obtain ⟨noClose, inside, noSemicolon, noDoc, noPlain, noSign⟩ := not_startsItem starts
        exact .inr ⟨noClose, inside, .inr ⟨noSemicolon, .inr ⟨noDoc, .inr ⟨noPlain,
          .inr ⟨noSign, .inl ⟨block, _, rfl, reads⟩⟩⟩⟩⟩⟩
    | declared starts noBlock reads =>
        obtain ⟨noClose, inside, noSemicolon, noDoc, noPlain, noSign⟩ := not_startsItem starts
        exact .inr ⟨noClose, inside, .inr ⟨noSemicolon, .inr ⟨noDoc, .inr ⟨noPlain,
          .inr ⟨noSign, .inr ⟨by simpa [blockAhead] using noBlock, _, rfl, reads⟩⟩⟩⟩⟩⟩

namespace BodyStep

variable {added : Option (List BodyItem)} {more : List BodyItem} {blanks : List Token}

theorem ink (h : BodyStep tokens added rest) : (currentToken tokens).isWhitespace = false := by
  have kinds : ∀ {token : Token}, startsItem token = false → token.isWhitespace = false := by
    intro token starts
    simp only [startsItem, List.mem_cons, decide_eq_false_iff_not, not_or] at starts
    simp [Token.isWhitespace, starts]
  cases h with
  | close kind | semicolon kind => simp [currentToken, Token.isWhitespace, kind]
  | javadoc kind | annotationUse kind => simp [Token.isWhitespace, kind]
  | comment plain =>
      exact isWhitespace_eq_false_of_isComment (by simp [Token.isComment, plain])
  | staticBlock starts | declared starts => exact kinds starts

theorem reads (h : BodyStep tokens added rest) (scope : Scope) (name : Text)
    (items : List BodyItem) (blank : ∀ token ∈ blanks, token.isWhitespace = true) :
    (bodyItem nestedDeclaration scope name items).Reads (blanks ++ tokens) (bodyTurn items added)
      rest [] := by
  refine reads_bodyItem.2 ⟨rfl, added, rfl, ?_⟩
  rwa [List.dropWhile_append_of_pos blank, dropWhile_of_current h.ink]

theorem advances (h : BodyStep tokens added rest) : Advances tokens rest :=
  (h.reads ⟨.member, []⟩ [] [] (fun _ mem => absurd mem List.not_mem_nil)).advances

theorem length_lt (h : BodyStep tokens added rest) : rest.length < tokens.length := by
  obtain ⟨passed, rfl, -⟩ := h.advances
  cases passed with
  | nil =>
      have moves : Moves rest (bodyItem nestedDeclaration ⟨.member, []⟩ [] []) :=
        moves_bodyItem (@ends_nestedDeclaration rest rest).moves [] []
      exact absurd (h.reads ⟨.member, []⟩ [] [] fun _ mem => absurd mem List.not_mem_nil)
        (@moves [] _ _)
  | cons =>
      simp only [List.length_append, List.length_cons]
      omega

/-- A declaration that is read can be attached. -/
theorem fresh_of_nestedDeclaration {declared : Declaration}
    (reads : nestedDeclaration.Reads tokens declared rest skipped) :
    (BodyItem.member declared.toMember).Fresh := by
  intro lead leads
  have editable := (gives_nestedDeclaration reads).editable
  obtain ⟨-, -, javadoc⟩ := keeps_nestedDeclaration reads
  refine ⟨editable, ?_⟩
  cases declared <;> exact (Option.some.inj leads) ▸ javadoc

/-- What is taken up can be attached. -/
theorem fresh (h : BodyStep tokens (some more) rest) : ∀ item ∈ more, item.Fresh := by
  cases h with
  | semicolon => simp
  | javadoc | annotationUse => exact List.forall_mem_singleton.2 trivial
  | comment plain reads =>
      rw [List.forall_mem_singleton]
      split
      · exact (plain_of_comment reads plain).1
      · intro lead leads
        cases leads
  | staticBlock =>
      rw [List.forall_mem_singleton]
      intro lead leads
      cases leads
  | declared _ _ reads => exact List.forall_mem_singleton.2 (fresh_of_nestedDeclaration reads)

/-- Where neither an item of another sort nor a static block begins, a declaration is read. -/
theorem exists_declared (h : BodyStep tokens added rest)
    (starts : startsItem (currentToken tokens) = false) (noBlock : blockAhead tokens = false) :
    ∃ declared, added = some [.member declared.toMember] ∧
      nestedDeclaration.Reads tokens declared rest [] := by
  obtain ⟨noClose, -, noSemicolon, noDoc, noPlain, noSign⟩ := not_startsItem starts
  cases h with
  | close kind => exact absurd kind noClose
  | semicolon kind => exact absurd kind noSemicolon
  | javadoc kind => exact absurd kind noDoc
  | comment plain => exact absurd plain noPlain
  | annotationUse sign => exact absurd sign noSign
  | staticBlock _ block => simp [noBlock] at block
  | declared _ _ reads => exact ⟨_, rfl, reads⟩

end BodyStep

/-- A class body that is read begins with a step. -/
theorem exists_bodyStep {blanks : List Token} {last : List BodyItem}
    (blank : ∀ token ∈ blanks, token.isWhitespace = true)
    (ink : (currentToken tokens).isWhitespace = false)
    (h : (iterate (bodyItem nestedDeclaration scope name) items).Reads (blanks ++ tokens) last rest
      skipped) :
    ∃ added mid, BodyStep tokens added mid := by
  have step : ∀ {turn mid passed}, (bodyItem nestedDeclaration scope name items).Reads
      (blanks ++ tokens) turn mid passed → ∃ added mid, BodyStep tokens added mid := by
    intro turn mid passed reads
    obtain ⟨-, added, -, step⟩ := reads_bodyItem.1 reads
    rw [List.dropWhile_append_of_pos blank, dropWhile_of_current ink] at step
    exact ⟨added, mid, step⟩
  rcases reads_iterate_cases h with ends | ⟨stalls, -⟩ | ⟨_, _, _, _, one, -⟩
  · exact step ends
  · exact step stalls
  · exact step one

/-! ### Items in a row -/

/-- The items that steps in a row take up, with white space between them. -/
inductive BodyItems : List Token → List BodyItem → List Token → Prop where
  | nil {tokens : List Token} : BodyItems tokens [] tokens
  | cons {blanks tokens mid rest : List Token} {items more : List BodyItem}
      (blank : ∀ token ∈ blanks, token.isWhitespace = true)
      (step : BodyStep tokens (some more) mid) (later : BodyItems mid items rest) :
      BodyItems (blanks ++ tokens) (more ++ items) rest

/-- A step of a repetition that is known leaves the steps behind it. -/
theorem reads_iterate_step {step : σ → Reading (Turn σ)} {state next last : σ} {mid : List Token}
    (one : (step state).Reads tokens (.again next) mid []) (moved : mid.length < tokens.length) :
    (iterate step state).Reads tokens last rest skipped ↔
      (iterate step next).Reads mid last rest skipped := by
  constructor
  · intro h
    rcases reads_iterate_cases h with ends | ⟨stalls, still⟩ |
      ⟨_, _, _, later, step, -, others, rfl⟩
    · cases (one.unique ends).1
    · obtain ⟨-, rfl, -⟩ := one.unique stalls
      exact absurd moved still
    · obtain ⟨same, rfl, rfl⟩ := one.unique step
      cases same
      exact others
  · exact fun others => reads_iterate_again one moved others

namespace BodyItems

variable {more : List BodyItem} {last : List BodyItem} {mid : List Token}

theorem advances (h : BodyItems tokens items rest) : Advances tokens rest := by
  induction h with
  | nil => exact .refl _
  | cons blank step _ ih =>
      refine .trans ⟨_, rfl, fun token mem => ?_⟩ (step.advances.trans ih)
      exact Token.isEnd_eq_false_of_isTrivia (Token.isTrivia_iff.2 (.inl (blank token mem)))

theorem append {mid : List Token} (h : BodyItems tokens items mid)
    (later : BodyItems mid more rest) : BodyItems tokens (items ++ more) rest := by
  induction h with
  | nil => exact later
  | cons blank step _ ih =>
      rw [List.append_assoc]
      exact .cons blank step (ih later)

/-- A class body is read behind items in a row. -/
theorem reads_iterate (h : BodyItems tokens more mid) :
    (iterate (bodyItem nestedDeclaration scope name) items).Reads tokens last rest skipped ↔
      (iterate (bodyItem nestedDeclaration scope name) (items ++ more)).Reads mid last rest
        skipped := by
  induction h generalizing items with
  | nil => rw [List.append_nil]
  | @cons blanks tokens mid _ later more blank step _ ih =>
      have moved : mid.length < (blanks ++ tokens).length := by
        have shorter := step.length_lt
        simp only [List.length_append]
        omega
      rw [reads_iterate_step (step.reads scope name items blank) moved, ih, List.append_assoc]

theorem fresh (h : BodyItems tokens items rest) : ∀ item ∈ items, item.Fresh := by
  induction h with
  | nil => simp
  | cons _ step _ ih => exact List.forall_mem_append.2 ⟨step.fresh, ih⟩

/-- Behind items in a row, no doc-style comment waits. -/
theorem plain (h : BodyItems tokens items rest) {state : Attachment} (plain : state.Plain) :
    (items.foldl Attachment.add state).Plain := by
  have fresh := h.fresh
  clear h
  induction items generalizing state with
  | nil => exact plain
  | cons item rest ih =>
      rw [List.forall_mem_cons] at fresh
      exact ih (Attachment.plain_add fresh.1 plain) fresh.2

end BodyItems

/-- What is read of a class body depends neither on the items in front of it nor on the class. -/
theorem exists_more_of_body {last : List BodyItem}
    (h : (iterate (bodyItem nestedDeclaration scope name) items).Reads tokens last rest skipped) :
    ∃ more, last = items ++ more ∧ ∀ scope' name' items',
      (iterate (bodyItem nestedDeclaration scope' name') items').Reads tokens (items' ++ more) rest
        skipped := by
  induction size : tokens.length using Nat.strongRecOn generalizing tokens items skipped with
  | _ n ih =>
      rcases reads_iterate_cases h with ends | ⟨stalls, still⟩ |
        ⟨next, mid, passed, later, one, moved, others, rfl⟩
      · obtain ⟨rfl, added, same, step⟩ := reads_bodyItem.1 ends
        cases added with
        | some => cases same
        | none =>
            obtain rfl := Turn.last.inj same
            refine ⟨[], by simp, fun scope' name' items' => ?_⟩
            rw [List.append_nil]
            exact reads_iterate_last (reads_bodyItem.2 ⟨rfl, none, rfl, step⟩)
      · obtain ⟨rfl, added, -, step⟩ := reads_bodyItem.1 stalls
        have shorter := Nat.lt_of_lt_of_le step.length_lt
          (List.dropWhile_sublist Token.isWhitespace).length_le
        exact absurd shorter still
      · obtain ⟨rfl, added, same, step⟩ := reads_bodyItem.1 one
        cases added with
        | none => cases same
        | some more =>
            obtain rfl := Turn.again.inj same
            obtain ⟨later, rfl, anywhere⟩ := ih _ (size ▸ moved) others rfl
            refine ⟨more ++ later, by simp, fun scope' name' items' => ?_⟩
            have others := anywhere scope' name' (items' ++ more)
            rw [List.append_assoc] at others
            exact reads_iterate_again (reads_bodyItem.2 ⟨rfl, some more, rfl, step⟩) moved others

end Reading
end JavaUnit
