/-
Module: JavaUnit.Proofs.Progress
Purpose: Reading comes to an end by itself. Repetitions, nesting and the steps from member to member
  are written with a guard, which stops them where no token has been passed over; that never
  happens. Every turn of a loop that asks for another one has passed a token, and a class body reads
  declarations behind its opening brace only. So a construct that is read ends behind its beginning
  and in front of the end of the input.
Main exports: Repeats, ReaderLoop, unrolled, MemberChain, reading_progresses
-/
import JavaUnit.Proofs.Lookahead
import JavaUnit.Proofs.StatementGrammar
import JavaUnit.Proofs.Stepping
import JavaUnit.Proofs.Suffixes

namespace JavaUnit

/-- A token of another kind than that of the end. -/
theorem Token.isEnd_of_kind {token : Token} {kind : Kind} (same : token.kind = kind)
    (inside : kind ≠ .eof) : token.isEnd = false := by
  simpa [isEnd, same] using inside

namespace Reading

variable {tokens rest skipped : List Token} {scope : Scope}

/-! ### Repetitions without a guard -/

/-- A repetition that nothing but its steps can end, and the number of its turns. -/
inductive Repeats (step : σ → Reading (Turn σ)) : σ → List Token → Nat → Outcome σ → Prop where
  | failed {state tokens failure journal}
      (run : (step state).run tokens = .failed failure journal) :
      Repeats step state tokens 1 (.failed failure journal)
  | last {state tokens last rest skipped journal}
      (run : (step state).run tokens = .read (.last last) rest skipped journal) :
      Repeats step state tokens 1 (.read last rest skipped journal)
  | again {state tokens next rest skipped journal turns outcome}
      (run : (step state).run tokens = .read (.again next) rest skipped journal)
      (later : Repeats step next rest turns outcome) :
      Repeats step state tokens (turns + 1) (outcome.behind skipped journal)

/-- Wherever the step asks for another turn, it has passed over a token. -/
def Progresses (step : σ → Reading (Turn σ)) : Prop :=
  ∀ ⦃state tokens next rest skipped⦄, (step state).Reads tokens (.again next) rest skipped →
    rest.length < tokens.length

/-- Where every turn passes over a token, a repetition needs no guard. -/
theorem Progresses.repeats {step : σ → Reading (Turn σ)} (h : Progresses step) (state : σ)
    (tokens : List Token) :
    ∃ turns ≤ tokens.length + 1, Repeats step state tokens turns ((iterate step state).run tokens) := by
  show ∃ turns ≤ _, Repeats step state tokens turns (iterateTokens step state tokens)
  fun_induction iterateTokens step state tokens with
  | case1 state tokens failure journal run => exact ⟨1, Nat.le_add_left .., .failed run⟩
  | case2 state tokens last rest skipped journal run => exact ⟨1, Nat.le_add_left .., .last run⟩
  | case3 state tokens next rest skipped journal run shorter ih =>
      obtain ⟨turns, bound, later⟩ := ih
      exact ⟨turns + 1, by omega, .again run later⟩
  | case4 state tokens next rest skipped journal run stalled =>
      exact absurd (h ⟨journal, run⟩) stalled

/-! ### Passing over tokens -/

/-- A reading that moves on leaves fewer tokens. -/
theorem Moves.length_lt {reading : Reading α} {value : α} (h : Moves [] reading)
    (reads : reading.Reads tokens value rest skipped) : rest.length < tokens.length := by
  obtain ⟨passed, rfl, -⟩ := reads.advances
  cases passed with
  | nil =>
      rw [List.nil_append, ← List.append_nil rest] at reads
      exact absurd reads (@h rest value skipped)
  | cons token others => simp only [List.cons_append, List.length_cons, List.length_append]; omega

/-- A reading that always leaves fewer tokens does not stand still. -/
theorem Moves.of_length_lt {reading : Reading α}
    (h : ∀ {tokens value rest skipped}, reading.Reads tokens value rest skipped →
      rest.length < tokens.length) : Moves [] reading :=
  fun _ _ _ reads => Nat.lt_irrefl _ (h reads)

/-- What comes behind a reading leaves no more tokens than the reading. -/
theorem length_lt_of_bind {first : Reading α} {next : α → Reading β} {value : β}
    (h : Moves [] first) (reads : (first >>= next).Reads tokens value rest skipped) :
    rest.length < tokens.length :=
  (h.bind next).length_lt reads

/-- The next token is passed over unless it is the end of the input. -/
theorem length_lt_of_bump {next : Token → Reading β} {value : β}
    (inside : (currentToken (significantFrom 0 tokens)).isEnd = false)
    (reads : (bump >>= next).Reads tokens value rest skipped) : rest.length < tokens.length := by
  obtain ⟨mid, passed, passes⟩ := exists_passes inside
  obtain ⟨later, reads, -⟩ := (reads_bump_bind passes).1 reads
  exact Nat.lt_of_le_of_lt reads.length_le passes.length_lt

/-- A token that is passed over first is gone, whatever is read next. -/
theorem length_lt_of_advance {next : Token → Reading β} {value : β}
    (inside : (currentToken tokens).isEnd = false)
    (reads : (advance >>= next).Reads tokens value rest skipped) : rest.length < tokens.length := by
  rw [reads_advance_bind, if_neg (by simp [inside])] at reads
  have split := congrArg List.length (eq_cons_tail rfl inside)
  rw [List.length_cons] at split
  have shorter := reads.length_le
  omega

/-- Where a token is accepted it is passed over. -/
theorem length_lt_of_accept (kind : Kind) (inside : kind ≠ .eof) {next : Bool → Reading β}
    {value : β} (reads : (accept kind >>= next).Reads tokens value rest skipped) :
    rest.length < tokens.length ∨ ∃ mid later, (next false).Reads mid value rest later := by
  rcases (reads_accept_bind kind inside).1 reads with
    ⟨token, mid, passed, later, -, passes, reads, -⟩ | ⟨-, later, reads, -⟩
  · exact .inl (Nat.lt_of_le_of_lt reads.length_le passes.length_lt)
  · exact .inr ⟨_, later, reads⟩

/-! ### The loops -/

theorem length_lt_of_angleGroup
    (less : (currentToken (significantFrom 0 tokens)).kind = .less) {next : List Token → Reading β}
    {value : β} (reads : (angleGroup scope >>= next).Reads tokens value rest skipped) :
    rest.length < tokens.length := by
  obtain ⟨group, mid, first, second, one, two, -⟩ := reads_bind.1 reads
  exact Nat.lt_of_le_of_lt two.length_le
    (length_lt_of_bump (Token.isEnd_of_kind less (by decide)) one)

theorem progresses_typePart : Progresses (typePart scope) := by
  intro parts tokens next rest skipped reads
  rw [typePart, reads_peek_bind, reads_peek_bind, reads_ite] at reads
  rcases reads with ⟨pair, reads⟩ | ⟨-, reads⟩
  · refine length_lt_of_bump ?_ reads
    rcases pair with ⟨dot, -⟩ | ⟨bracket, -⟩
    · exact Token.isEnd_of_kind dot (by decide)
    · exact Token.isEnd_of_kind bracket (by decide)
  · rcases reads_ite.1 reads with ⟨less, reads⟩ | ⟨-, reads⟩
    · exact length_lt_of_angleGroup less reads
    · rcases reads_ite.1 reads with ⟨-, reads⟩ | ⟨-, reads⟩
      · obtain ⟨_, mid, first, second, -, ends, -⟩ := reads_bind.1 reads
        cases (reads_pure.1 ends).1
      · cases (reads_pure.1 reads).1

/-- One more type behind a comma, as the loop over a list of types takes it. -/
def moreTypes (scope : Scope) (types : List Text) : Reading (Turn (List Text)) := do
  if ← accept .comma then
    return .again (types ++ [← type scope])
  else
    return .last types

theorem typeList_eq : typeList scope = type scope >>= fun first => iterate (moreTypes scope) [first] :=
  rfl

theorem progresses_moreTypes : Progresses (moreTypes scope) := by
  intro types tokens next rest skipped reads
  rcases length_lt_of_accept .comma (by decide) reads with shorter | ⟨mid, later, ends⟩
  · exact shorter
  · cases (reads_pure.1 ends).1

/-- One more pair of brackets, as the loop over array dimensions takes it. -/
def moreDims (dims : Text) : Reading (Turn Text) := do
  if (← peek 0).kind = .openBracket ∧ (← peek 1).kind = .closeBracket then
    let _ ← bump
    let _ ← bump
    return .again (dims ++ "[]".toList)
  else
    return .last dims

example : arrayDims = iterate moreDims [] := rfl

theorem progresses_moreDims : Progresses moreDims := by
  intro dims tokens next rest skipped reads
  rw [moreDims, reads_peek_bind, reads_peek_bind, reads_ite] at reads
  rcases reads with ⟨⟨bracket, -⟩, reads⟩ | ⟨-, reads⟩
  · exact length_lt_of_bump (Token.isEnd_of_kind bracket (by decide)) reads
  · cases (reads_pure.1 reads).1

theorem progresses_namePart : Progresses namePart := by
  intro name tokens next rest skipped reads
  rw [namePart, reads_peek_bind, reads_peek_bind, reads_ite] at reads
  rcases reads with ⟨⟨dot, -⟩, reads⟩ | ⟨-, reads⟩
  · exact length_lt_of_bump (Token.isEnd_of_kind dot (by decide)) reads
  · cases (reads_pure.1 reads).1

/-- Reading something first leaves no more tokens for what is read behind it. -/
theorem length_lt_of_later {first : Reading α} {next : α → Reading β} {value : β}
    (h : ∀ {read tokens skipped}, (next read).Reads tokens value rest skipped →
      rest.length < tokens.length)
    (reads : (first >>= next).Reads tokens value rest skipped) : rest.length < tokens.length := by
  obtain ⟨_, mid, _, _, one, two, -⟩ := reads_bind.1 reads
  exact Nat.lt_of_lt_of_le (h two) one.length_le

/-- The comma that asks for another value is passed over. -/
theorem length_lt_of_annotationEnd {draft next : AnnotationDraft}
    (reads : (bump >>= fun closing =>
      if closing.kind = .comma then pure (Turn.again draft)
      else if closing.kind = .closeParen then pure (Turn.last draft)
      else unexpected scope .commaOrCloseParen : Reading (Turn AnnotationDraft)).Reads tokens
        (.again next) rest skipped) : rest.length < tokens.length := by
  cases ends : (currentToken (significantFrom 0 tokens)).isEnd with
  | false => exact length_lt_of_bump ends reads
  | true =>
      -- at the end of the input a bump answers with the end, which is no comma
      obtain ⟨closing, mid, first, second, one, two, -⟩ := reads_bind.1 reads
      obtain ⟨later, one, -⟩ := reads_skipTrivia_bind.1 one
      obtain ⟨rfl, -⟩ := reads_advance.1 one
      rcases reads_ite.1 two with ⟨comma, -⟩ | ⟨-, two⟩
      · rw [Token.isEnd_of_kind comma (by decide)] at ends
        cases ends
      · rcases reads_ite.1 two with ⟨-, two⟩ | ⟨-, two⟩
        · cases (reads_pure.1 two).1
        · exact absurd two not_reads_unexpected

theorem progresses_annotationParam : Progresses (annotationParam scope) := by
  intro draft tokens next rest skipped reads
  rw [annotationParam, reads_peek_bind, reads_peek_bind] at reads
  rcases reads_ite.1 reads with ⟨⟨word, -⟩, reads⟩ | ⟨-, reads⟩
  · exact length_lt_of_bump (Token.isEnd_of_kind word (by decide)) reads
  · exact length_lt_of_later (length_lt_of_later length_lt_of_annotationEnd) reads

theorem progresses_prefaceItem : Progresses prefaceItem := by
  intro preface tokens next rest skipped reads
  rw [prefaceItem, reads_skipWhitespace_bind, reads_current_bind] at reads
  refine Nat.lt_of_lt_of_le ?_ (List.dropWhile_sublist Token.isWhitespace).length_le
  rcases reads_ite.1 reads with ⟨-, reads⟩ | ⟨-, reads⟩
  · exact length_lt_of_bind moves_comment reads
  rcases reads_ite.1 reads with ⟨-, reads⟩ | ⟨-, reads⟩
  · exact length_lt_of_bind moves_annotationUse reads
  rw [reads_atStaticBlock_bind] at reads
  rcases reads_ite.1 reads with ⟨-, reads⟩ | ⟨-, reads⟩
  · cases (reads_pure.1 reads).1
  cases found : (currentToken (tokens.dropWhile Token.isWhitespace)).keyword?.bind
      Keyword.modifier? with
  | none =>
      rw [found] at reads
      cases (reads_pure.1 reads).1
  | some modifier =>
      rw [found] at reads
      obtain ⟨word, kind, -⟩ := Option.bind_eq_some_iff.1 found
      exact length_lt_of_advance (Token.isEnd_of_kind (Token.kind_of_keyword? kind) (by simp)) reads

theorem progresses_parameterModifier : Progresses parameterModifier := by
  intro parameter tokens next rest skipped reads
  rw [parameterModifier, reads_skipTrivia_bind] at reads
  obtain ⟨later, reads, -⟩ := reads
  rw [reads_current_bind, significantFrom_zero_eq] at reads
  refine Nat.lt_of_lt_of_le ?_ (List.dropWhile_sublist Token.isTrivia).length_le
  rcases reads_ite.1 reads with ⟨-, reads⟩ | ⟨-, reads⟩
  · exact length_lt_of_bind moves_annotationUse reads
  rcases reads_ite.1 reads with ⟨final, reads⟩ | ⟨-, reads⟩
  · exact length_lt_of_advance (Token.isEnd_of_kind (Token.kind_of_keyword? final) (by decide)) reads
  · cases (reads_pure.1 reads).1

/-- One more parameter, as the loop over the parameters of a method takes it. -/
def nextParameter (scope : Scope) (parameters : List Parameter) :
    Reading (Turn (List Parameter)) := do
  let parameters := parameters ++ [← parameter scope]
  if ← accept .comma then
    return .again parameters
  else
    expect scope .closeParen .commaOrCloseParen
    return .last parameters

example : parameters scope = (do
    expect scope .openParen .openParen
    if ← accept .closeParen then
      return []
    else
      iterate (nextParameter scope) []) :=
  rfl

theorem progresses_nextParameter : Progresses (nextParameter scope) := by
  intro parameters tokens next rest skipped reads
  obtain ⟨_, mid, first, second, one, two, -⟩ := reads_bind.1 reads
  refine Nat.lt_of_lt_of_le ?_ one.length_le
  rcases length_lt_of_accept .comma (by decide) two with shorter | ⟨mid, later, ends⟩
  · exact shorter
  · obtain ⟨_, _, _, _, -, ends, -⟩ := reads_bind.1 ends
    cases (reads_pure.1 ends).1

theorem progresses_ancestryClause (kind : ClassKind) (name : Text) :
    Progresses (ancestryClause scope kind name) := by
  intro ancestry tokens next rest skipped reads
  rw [ancestryClause, reads_skipTrivia_bind] at reads
  obtain ⟨later, reads, -⟩ := reads
  rw [reads_current_bind, significantFrom_zero_eq] at reads
  refine Nat.lt_of_lt_of_le ?_ (List.dropWhile_sublist Token.isTrivia).length_le
  rcases reads_ite.1 reads with ⟨word, reads⟩ | ⟨-, reads⟩
  · exact length_lt_of_advance (Token.isEnd_of_kind word (by decide)) reads
  rcases reads_ite.1 reads with ⟨word, reads⟩ | ⟨-, reads⟩
  · exact length_lt_of_advance (Token.isEnd_of_kind word (by decide)) reads
  rcases reads_ite.1 reads with ⟨brace, reads⟩ | ⟨-, reads⟩
  · exact length_lt_of_advance (Token.isEnd_of_kind brace (by decide)) reads
  · exact absurd reads not_reads_unexpected

theorem progresses_bodyItem {nested : Reading Declaration} (h : Moves [] nested) (name : Text) :
    Progresses (bodyItem nested scope name) :=
  fun items _ _ _ _ reads => (moves_bodyItem h name items).length_lt reads

theorem progresses_prefaceComment : Progresses prefaceComment := by
  intro state tokens next rest skipped reads
  rw [prefaceComment, reads_skipWhitespace_bind, reads_current_bind] at reads
  refine Nat.lt_of_lt_of_le ?_ (List.dropWhile_sublist Token.isWhitespace).length_le
  rcases reads_ite.1 reads with ⟨-, reads⟩ | ⟨-, reads⟩
  · exact length_lt_of_bind moves_comment reads
  · cases (reads_pure.1 reads).1

/-! ### What is read on its own -/

theorem moves_packageStatement : Moves [] packageStatement :=
  (ends_packageStatement (y := [])).moves

theorem moves_importStatement : Moves [] importStatement :=
  (ends_importStatement (y := [])).moves

theorem moves_declaration (preface : Preface) (inner : Bool) : Moves [] (declaration preface inner) :=
  (ends_declaration (.refl preface) inner (y := [])).moves

theorem moves_declarationAs (wanted : DeclarationKind) (part : Declaration → Option α) :
    Moves [] (declarationAs wanted part) :=
  .later fun preface => (moves_declaration preface true).bind _

theorem moves_member : Moves [] member := by
  refine .later fun _ => .of_length_lt fun reads => ?_
  rw [reads_atStaticBlock_bind] at reads
  rcases reads_ite.1 reads with ⟨-, reads⟩ | ⟨-, reads⟩
  · exact length_lt_of_bind moves_staticBlock reads
  rw [reads_current_bind, reads_left_bind] at reads
  rcases reads_ite.1 reads with ⟨-, reads⟩ | ⟨-, reads⟩
  · exact length_lt_of_bind moves_comment reads
  · exact length_lt_of_later (length_lt_of_bind (moves_declaration _ true)) reads

theorem moves_outerDeclaration (state : FileState) : Moves [] (outerDeclaration state) := by
  refine .later fun preface => .later fun next => .of_length_lt fun reads => ?_
  rcases reads_ite.1 reads with ⟨-, reads⟩ | ⟨-, reads⟩
  · refine length_lt_of_later (length_lt_of_later fun reads => Moves.length_lt ?_ reads) reads
    exact .later fun both => (moves_declaration both.2 false).bind _
  · refine length_lt_of_later (fun reads => Moves.length_lt ?_ reads) reads
    exact .later fun both => (moves_declaration both.2 false).bind _

/-- A step that asks for another one has passed over a token. -/
theorem FileStep.length_lt {state next : FileState} (h : FileStep state tokens (.again next) rest) :
    rest.length < tokens.length := by
  cases h with
  | semicolon => exact Nat.lt_succ_self _
  | comment _ reads => exact moves_comment.length_lt reads
  | header _ reads => exact moves_comment.length_lt reads
  | packageStatement _ reads => exact moves_packageStatement.length_lt reads
  | importStatement _ reads => exact moves_importStatement.length_lt reads
  | declaration _ _ _ reads => exact (moves_outerDeclaration state).length_lt reads

theorem FileStep.last_eq {state last : FileState} (h : FileStep state tokens (.last last) rest) :
    last = state := by
  cases h with
  | ends => rfl

theorem fileStep_dropWhile {state : FileState} {turn : Turn FileState}
    (reads : (fileItem state).Reads tokens turn rest skipped) :
    FileStep state (tokens.dropWhile Token.isWhitespace) turn rest :=
  fileStep_of_reads (isWhitespace_of_dropWhile tokens) (reads_fileItem_dropWhile.2 reads)

theorem progresses_fileItem : Progresses fileItem :=
  fun _ _ _ _ _ reads => Nat.lt_of_lt_of_le (fileStep_dropWhile reads).length_lt
    (List.dropWhile_sublist Token.isWhitespace).length_le

/-- A file without any item has no class. -/
theorem moves_compilationUnit : Moves [] compilationUnit := by
  refine .later fun start => .of_length_lt fun reads => ?_
  obtain ⟨state, mid, first, second, items, reads, -⟩ := reads_bind.1 reads
  refine Nat.lt_of_le_of_lt reads.length_le ?_
  rcases reads_iterate_cases items with ends | ⟨again, stalled⟩ |
    ⟨next, left, passed, later, again, shorter, others, -⟩
  · obtain rfl := (fileStep_dropWhile ends).last_eq
    exact absurd reads (by simp [outOfOrder])
  · exact absurd (progresses_fileItem again) stalled
  · exact Nat.lt_of_le_of_lt others.length_le shorter

theorem moves_map {reading : Reading α} (h : Moves [] reading) (f : α → β) :
    Moves [] (f <$> reading) :=
  h.bind _

/-! ### Nesting without a guard -/

/-- The two readings come to the same in front of fewer than `bound` tokens. -/
def AgreeBelow (bound : Nat) (left right : Reading α) : Prop :=
  ∀ tokens, tokens.length < bound → left.run tokens = right.run tokens

/-- What is read second matters only where something is read first. -/
theorem run_bind_congr {first : Reading α} {next next' : α → Reading β}
    (h : ∀ {value rest skipped}, first.Reads tokens value rest skipped →
      (next value).run rest = (next' value).run rest) :
    (first >>= next).run tokens = (first >>= next').run tokens := by
  rw [run_bind, run_bind]
  cases run : first.run tokens with
  | failed => rfl
  | read value rest skipped journal =>
      exact congrArg (Outcome.behind skipped journal) (h ⟨journal, run⟩)

theorem run_ite_congr {condition : Prop} [Decidable condition] {first second second' : Reading α}
    (h : ¬ condition → second.run tokens = second'.run tokens) :
    (if condition then first else second).run tokens =
      (if condition then first else second').run tokens := by
  split
  · rfl
  · next other => exact h other

theorem run_finish_congr {parts parts' : Reading (Attempt α)}
    (h : parts.run tokens = parts'.run tokens) :
    (finish scope parts).run tokens = (finish scope parts').run tokens := by
  have same : parts.withSkipped.run tokens = parts'.withSkipped.run tokens := by
    simp only [withSkipped, h]
  rw [finish, finish, run_bind, run_bind, same]

/-- Loops agree below a bound if their turns do. -/
theorem run_iterate_congr {bound : Nat} {step step' : σ → Reading (Turn σ)}
    (h : ∀ state, AgreeBelow bound (step state) (step' state)) (state : σ) :
    AgreeBelow bound (iterate step state) (iterate step' state) := by
  intro tokens within
  show iterateTokens step state tokens = iterateTokens step' state tokens
  fun_induction iterateTokens step state tokens with
  | case1 state tokens failure journal run =>
      rw [iterateTokens, ← h state tokens within, run]
  | case2 state tokens last rest skipped journal run =>
      rw [iterateTokens, ← h state tokens within, run]
  | case3 state tokens next rest skipped journal run shorter ih =>
      rw [ih (Nat.lt_trans shorter within)]
      conv => rhs; rw [iterateTokens, ← h state tokens within, run]
      simp only [shorter, if_true]
  | case4 state tokens next rest skipped journal run stalled =>
      rw [iterateTokens, ← h state tokens within, run]
      simp only [stalled, if_false]

theorem run_after_congr {leading : List Defect} {reading reading' : Reading α}
    (h : reading.run tokens = reading'.run tokens) :
    (after leading reading).run tokens = (after leading reading').run tokens := by
  simp only [after, h]

theorem AgreeBelow.mono {bound bound' : Nat} {left right : Reading α}
    (h : AgreeBelow bound left right) (fewer : bound' ≤ bound) : AgreeBelow bound' left right :=
  fun tokens within => h tokens (Nat.lt_of_lt_of_le within fewer)

variable {bound : Nat} {nested nested' : Reading Declaration} {preface : Preface}

/-- An item of a body reads nested declarations from what is left in front of it, and so below the
same bound. -/
theorem agreeBelow_bodyItem (h : AgreeBelow bound nested nested') (name : Text)
    (items : List BodyItem) :
    AgreeBelow bound (bodyItem nested scope name items) (bodyItem nested' scope name items) := by
  intro tokens within
  refine run_bind_congr fun blank => run_bind_congr fun first => ?_
  have within := Nat.lt_of_le_of_lt (Nat.le_trans first.length_le blank.length_le) within
  refine run_ite_congr fun _ => run_ite_congr fun _ => run_ite_congr fun _ => ?_
  refine run_ite_congr fun _ => run_ite_congr fun _ => run_ite_congr fun _ => ?_
  refine run_bind_congr fun block => run_ite_congr fun _ => ?_
  rw [run_bind, run_bind, h _ (Nat.lt_of_le_of_lt block.length_le within)]

/-- A class reads the declarations inside of it behind its name. -/
theorem run_classRest_congr (h : AgreeBelow tokens.length nested nested') (inner : Bool) :
    (classRest nested preface inner).run tokens = (classRest nested' preface inner).run tokens := by
  refine run_finish_congr (run_bind_congr fun word => run_bind_congr fun name => ?_)
  obtain ⟨_, -, -, passes⟩ := reads_identifier.1 name
  have shorter := Nat.lt_of_lt_of_le passes.length_lt word.length_le
  refine run_bind_congr fun noted => run_bind_congr fun parameters => run_bind_congr fun clauses => ?_
  have shorter := Nat.lt_of_le_of_lt
    (Nat.le_trans clauses.length_le (Nat.le_trans parameters.length_le noted.length_le)) shorter
  rw [run_bind, run_bind, run_iterate_congr (fun items => agreeBelow_bodyItem h _ items) _ _ shorter]

/-- Of the three kinds of declarations, only a class reads others inside of it. -/
theorem run_declarationOf_congr (h : AgreeBelow tokens.length nested nested') (inner : Bool)
    (kind : DeclarationKind) :
    (declarationOf nested preface inner kind).run tokens =
      (declarationOf nested' preface inner kind).run tokens := by
  cases kind with
  | classDecl =>
      rw [declarationOf, declarationOf, run_bind, run_bind, run_classRest_congr h]
  | field => rfl
  | method => rfl

/-- Nesting is used further on only. -/
theorem run_declarationWith_congr (h : AgreeBelow tokens.length nested nested') (inner : Bool) :
    (declarationWith nested preface inner).run tokens =
      (declarationWith nested' preface inner).run tokens := by
  refine run_bind_congr fun modifiers => run_bind_congr fun here => run_bind_congr fun noted => ?_
  have fewer := Nat.le_trans noted.length_le (Nat.le_trans here.length_le modifiers.length_le)
  split
  · rfl
  · next preface' _ _ _ _ kind _ =>
    rw [run_bind, run_bind, run_after_congr (run_declarationOf_congr (h.mono fewer) inner kind)]

/-- Declarations that contain declarations, with the nesting cut off at a depth: what stands inside
of that is read by `inner`. -/
def unrolled (inner : Reading Declaration) : Nat → Reading Declaration
  | 0 => inner
  | depth + 1 => emptyPreface >>= fun preface => declarationWith (unrolled inner depth) preface true

/-- Declarations are nested no deeper than there are tokens: what would be read further inside makes
no difference. -/
theorem agreeBelow_unrolled (inner : Reading Declaration) (depth : Nat) :
    AgreeBelow depth (unrolled inner depth) nestedDeclaration := by
  induction depth with
  | zero => exact fun tokens within => absurd within (Nat.not_lt_zero _)
  | succ depth ih =>
      intro tokens within
      rw [nestedDeclaration, run_recurse, unrolled]
      refine run_bind_congr fun start => run_declarationWith_congr (fun later fewer => ?_) true
      have fewer := Nat.lt_of_lt_of_le fewer start.length_le
      rw [ih later (Nat.lt_of_lt_of_le fewer (Nat.le_of_lt_succ within))]
      exact (if_pos fewer).symm

end Reading

/-- Whatever is read on its own has passed over a token. -/
theorem Goal.moves (goal : Goal) : Reading.Moves [] goal.entry.reading := by
  open Reading in
  cases goal with
  | packageStatement => exact moves_map moves_packageStatement _
  | importStatement => exact moves_map moves_importStatement _
  | annotationUse => exact moves_map moves_annotationUse _
  | javadoc => exact moves_map moves_javadoc _
  | comment => exact moves_map moves_comment _
  | field => exact moves_map (moves_declarationAs _ _) _
  | method => exact moves_map (moves_declarationAs _ _) _
  | staticBlock => exact moves_map moves_staticBlock _
  | file => exact moves_map moves_compilationUnit _
  | member => exact moves_map moves_member _

/-! ### Places in a stream -/

/-- The loops of the reader, each by the step that it repeats. -/
inductive ReaderLoop : {σ : Type} → (σ → Reading (Reading.Turn σ)) → Prop where
  | typeParts (scope : Scope) : ReaderLoop (Reading.typePart scope)
  | types (scope : Scope) : ReaderLoop (Reading.moreTypes scope)
  | dims : ReaderLoop Reading.moreDims
  | nameParts : ReaderLoop Reading.namePart
  | annotationParams (scope : Scope) : ReaderLoop (Reading.annotationParam scope)
  | preface : ReaderLoop Reading.prefaceItem
  | prefaceComments : ReaderLoop Reading.prefaceComment
  | parameterModifiers : ReaderLoop Reading.parameterModifier
  | parameters (scope : Scope) : ReaderLoop (Reading.nextParameter scope)
  | ancestry (scope : Scope) (kind : ClassKind) (name : Text) :
      ReaderLoop (Reading.ancestryClause scope kind name)
  | body (scope : Scope) (name : Text) :
      ReaderLoop (Reading.bodyItem Reading.nestedDeclaration scope name)
  | file : ReaderLoop Reading.fileItem

/-- Each loop of the reader passes over a token in every turn that asks for another one. -/
theorem ReaderLoop.progresses {step : σ → Reading (Reading.Turn σ)} (h : ReaderLoop step) :
    Reading.Progresses step := by
  open Reading in
  cases h with
  | typeParts => exact progresses_typePart
  | types => exact progresses_moreTypes
  | dims => exact progresses_moreDims
  | nameParts => exact progresses_namePart
  | annotationParams => exact progresses_annotationParam
  | preface => exact progresses_prefaceItem
  | prefaceComments => exact progresses_prefaceComment
  | parameterModifiers => exact progresses_parameterModifier
  | parameters => exact progresses_nextParameter
  | ancestry _ kind name => exact progresses_ancestryClause kind name
  | body _ name => exact progresses_bodyItem (ends_nestedDeclaration (y := [])).moves name
  | file => exact progresses_fileItem

section

variable {name source : Text} {stream : TokenStream} {start next : Nat}

/-- The end of the input is the last token of a stream, and no other. -/
theorem TokenStream.exists_last (made : TokenStream.make name source = .ok stream) :
    ∃ last, stream.tokens.length = last + 1 ∧
      ∀ index token, stream.tokens[index]? = some token → (token.isEnd = true ↔ index = last) := by
  obtain ⟨-, -, lexed⟩ := ofSource_eq_ok_iff.1 (make_eq_ok_iff.1 made)
  obtain ⟨lexemes, whole, inside⟩ := (lex_eq_ok_iff.1 lexed).exists_lexemes
  rw [whole]
  refine ⟨lexemes.length, by simp, fun index token there => ?_⟩
  rcases Nat.lt_trichotomy index lexemes.length with before | rfl | behind
  · rw [List.getElem?_append_left before] at there
    have kind := (inside token (List.mem_of_getElem? there)).1
    simp [Token.isEnd, kind, Nat.ne_of_lt before]
  · rw [List.getElem?_concat_length, Option.some.injEq] at there
    simp [← there, Token.isEnd, Token.endOfInput]
  · rw [List.getElem?_eq_none (by rw [List.length_append]; exact behind)] at there
    cases there

/-- A construct that is read ends behind its beginning, and in front of the end of the input. -/
theorem parseAt_bounds {entry : Entry α} {node : α} (moves : Reading.Moves [] entry.reading)
    (made : TokenStream.make name source = .ok stream) (inside : start < stream.tokens.length)
    (parsed : entry.parseAt stream start = .ok (node, next)) :
    start < next ∧ next < stream.tokens.length := by
  obtain ⟨later, -, continues⟩ :=
    TokenStream.exists_continues name (TokenStream.make_eq_ok_iff.1 made) inside
  have left : later.tokens = stream.startingAt start := by
    have split := continues.tokens
    conv at split => lhs; rw [← List.take_append_drop start stream.tokens]
    exact (List.append_cancel_left split).symm
  obtain ⟨rest, read, rfl⟩ := Entry.parseAt_eq_ok_iff.1 parsed
  obtain ⟨skipped, reads⟩ := Entry.read_eq_ok_iff.1 read
  have fewer := moves.length_lt reads
  have some := List.length_pos_iff.2 (continues.ne_nil (left ▸ reads.advances))
  rw [TokenStream.startingAt, List.length_drop] at fewer
  rw [TokenStream.index]
  omega

/-- Members read one after another, each from where the one before it ended. -/
inductive MemberChain (stream : TokenStream) : Nat → List Nat → Prop where
  | stop {start : Nat} : MemberChain stream start []
  | step {start next : Nat} {member : Member} {ends : List Nat}
      (parsed : Entry.member.parseAt stream start = .ok (member, next))
      (later : MemberChain stream next ends) : MemberChain stream start (next :: ends)

/-- Every member takes at least one of the tokens in front of the end of the input. -/
theorem MemberChain.length_lt {ends : List Nat} (h : MemberChain stream start ends)
    (made : TokenStream.make name source = .ok stream) (inside : start < stream.tokens.length) :
    start + ends.length < stream.tokens.length := by
  induction h with
  | stop => exact inside
  | step parsed _ ih =>
      obtain ⟨moved, within⟩ := parseAt_bounds Reading.moves_member made inside parsed
      have bound := ih within
      rw [List.length_cons]
      omega

end

/-- Reading members one after another needs no guard. -/
theorem memberSteps_unguarded {tokens rest : List Token} {member : Member}
    (read : Entry.member.read tokens = .ok (member, rest)) :
    memberSteps tokens =
      if isFinished rest then ([(member, rest)], none)
      else ((member, rest) :: (memberSteps rest).1, (memberSteps rest).2) := by
  obtain ⟨skipped, reads⟩ := Entry.read_eq_ok_iff.1 read
  rw [memberSteps_of_read read, if_pos (Reading.moves_member.length_lt reads)]

/-- Reading always comes to an end by itself, inside of the tokens, and moves on.

The guards of `iterate`, `recurse` and `memberSteps` are never met. (The scan for a closing token
is another matter: it stops at the end of the input, and does so in front of every block that is not
closed.) Each loop is the repetition of its step without a guard, which takes no more than one turn
for each token and a last one; declarations inside of declarations are read without a guard too,
since what is read by then at a depth of as many levels as there are tokens makes no difference. In
a stream, the end of the input is the last token and no other. From any start up to there, every
construct that is read ends behind the start, and not behind the end of the input; so members that
are read one after another are no more than there are tokens from the start up to the end, and
reading them until nothing is left or one fails does not need its guard either. -/
theorem reading_progresses :
    (∀ {σ : Type} {step : σ → Reading (Reading.Turn σ)}, ReaderLoop step → ∀ state tokens,
      ∃ turns ≤ tokens.length + 1,
        Reading.Repeats step state tokens turns ((Reading.iterate step state).run tokens)) ∧
    (∀ inner depth tokens, tokens.length < depth →
      (Reading.unrolled inner depth).run tokens = Reading.nestedDeclaration.run tokens) ∧
    (∀ name source stream, TokenStream.make name source = .ok stream →
      ∃ last, stream.tokens.length = last + 1 ∧
        (∀ index token, stream.tokens[index]? = some token →
          (token.isEnd = true ↔ index = last)) ∧
        ∀ start ≤ last,
          (∀ (goal : Goal) node next, goal.entry.parseAt stream start = .ok (node, next) →
            start < next ∧ next ≤ last) ∧
          ∀ ends, MemberChain stream start ends → ends.length ≤ last - start) ∧
    ∀ tokens member rest, Entry.member.read tokens = .ok (member, rest) →
      memberSteps tokens =
        if isFinished rest then ([(member, rest)], none)
        else ((member, rest) :: (memberSteps rest).1, (memberSteps rest).2) := by
  refine ⟨fun loop state tokens => loop.progresses.repeats state tokens,
    fun inner depth tokens within => Reading.agreeBelow_unrolled inner depth tokens within, ?_,
    fun _ _ _ => memberSteps_unguarded⟩
  intro name source stream made
  obtain ⟨last, length, only⟩ := TokenStream.exists_last made
  refine ⟨last, length, only, fun start within => ?_⟩
  have inside : start < stream.tokens.length := by omega
  refine ⟨fun goal node next parsed => ?_, fun ends chain => ?_⟩
  · have bounds := parseAt_bounds goal.moves made inside parsed
    omega
  · have bound := chain.length_lt made inside
    omega

def twoFields : Text :=
  "int a; int b = 1;\n".toList

theorem reading_progresses_twoFields :
    ∃ stream last node next, TokenStream.make [] twoFields = .ok stream ∧
      stream.tokens.length = last + 1 ∧
      Goal.member.entry.parseAt stream 0 = .ok (node, next) ∧ 0 < next ∧ next ≤ last := by
  have read : ((TokenStream.make [] twoFields).toOption.map fun stream =>
      ((Goal.member.entry.parseAt stream 0).toOption.map (·.2))) = some (some 4) := by
    decide +kernel
  obtain ⟨stream, made, first⟩ := Option.map_eq_some_iff.1 read
  obtain ⟨⟨node, next⟩, parsed, -⟩ := Option.map_eq_some_iff.1 first
  have parsed := eq_ok_of_toOption parsed
  have made := eq_ok_of_toOption made
  obtain ⟨last, length, -, bounds⟩ := reading_progresses.2.2.1 [] twoFields stream made
  exact ⟨stream, last, node, next, made, length, parsed,
    (bounds 0 (Nat.zero_le last)).1 .member node next parsed⟩

end JavaUnit
