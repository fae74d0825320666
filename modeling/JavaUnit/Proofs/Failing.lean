/-
Module: JavaUnit.Proofs.Failing
Purpose: Failed readings as a relation, taken apart along the combinators as successful ones are.
  What is wrong with a preface is reported whatever becomes of the declaration behind it. Classes
  and files do not do so: they fail as the first of their items does that cannot be read, and only
  what is read to its end reports what was wrong in front of it.
Main exports: Reading.Fails, Reading.fails_bind, Reading.fails_iterate,
  Reading.prefix_of_fails_declarationWith, Reading.fails_classRest_of_item,
  Reading.prefix_of_fails_classRest, Reading.fails_compilationUnit_of_item,
  Reading.fails_compilationUnit_of_end, Reading.reports_recorded
-/
import JavaUnit.Proofs.FileItems
import JavaUnit.Proofs.Reads

namespace JavaUnit

namespace Reading

/-- The reading fails in front of `tokens`, whatever it writes into the journal. -/
def Fails (reading : Reading α) (tokens : List Token) (failure : Failure) : Prop :=
  ∃ journal, reading.run tokens = .failed failure journal

variable {tokens rest skipped : List Token} {failure : Failure} {scope : Scope}
  {defects : List Defect}

/-- In front of the same tokens a reading reads one thing. -/
theorem Reads.unique {reading : Reading α} {value value' : α} {rest' skipped' : List Token}
    (h : reading.Reads tokens value rest skipped)
    (h' : reading.Reads tokens value' rest' skipped') :
    value = value' ∧ rest = rest' ∧ skipped = skipped' := by
  obtain ⟨_, run⟩ := h
  obtain ⟨_, run'⟩ := h'
  rw [run, Outcome.read.injEq] at run'
  exact ⟨run'.1, run'.2.1, run'.2.2.1⟩

/-- A reading that reads, and behind it the next one. -/
theorem Reads.bind {reading : Reading α} {next : α → Reading β} {value : α} {result : β}
    {mid first second : List Token} (h : reading.Reads tokens value mid first)
    (later : (next value).Reads mid result rest second) :
    (reading >>= next).Reads tokens result rest (first ++ second) :=
  reads_bind.2 ⟨value, mid, first, second, h, later, rfl⟩

@[simp] theorem not_fails_pure {value : α} : ¬ (pure value : Reading α).Fails tokens failure := by
  rintro ⟨_, run⟩
  cases run

@[simp] theorem fails_fail :
    (fail scope defects : Reading α).Fails tokens failure ↔ failure = ⟨scope, defects, tokens⟩ := by
  constructor
  · rintro ⟨_, run⟩
    cases run
    rfl
  · rintro rfl
    exact ⟨_, rfl⟩

/-- One reading after another fails where the first of them fails or the second one behind it. -/
theorem fails_bind {reading : Reading α} {next : α → Reading β} :
    (reading >>= next).Fails tokens failure ↔
      reading.Fails tokens failure ∨
        ∃ value mid first, reading.Reads tokens value mid first ∧
          (next value).Fails mid failure := by
  simp only [Fails, Reads, run_bind]
  cases run : reading.run tokens with
  | failed own journal => simp [Outcome.andThen]
  | read value mid first journal =>
      simp only [Outcome.andThen, reduceCtorEq, exists_false, false_or, Outcome.read.injEq]
      constructor
      · rintro ⟨events, h⟩
        cases later : (next value).run mid with
        | read => simp [later, Outcome.behind] at h
        | failed own journal' =>
            simp only [later, Outcome.behind, Outcome.failed.injEq] at h
            obtain ⟨rfl, -⟩ := h
            exact ⟨value, mid, first, ⟨journal, rfl, rfl, rfl, rfl⟩, journal', later⟩
      · rintro ⟨_, _, _, ⟨_, rfl, rfl, rfl, -⟩, events, later⟩
        exact ⟨journal ++ events, by rw [later, Outcome.behind]⟩

/-- Behind a reading with a single outcome. -/
theorem fails_bind_of {reading : Reading α} {next : α → Reading β} {value : α}
    {mid first : List Token} (h : reading.Reads tokens value mid first) :
    (reading >>= next).Fails tokens failure ↔ (next value).Fails mid failure := by
  rw [fails_bind]
  constructor
  · rintro (⟨_, run⟩ | ⟨value', mid', first', reads, fails⟩)
    · obtain ⟨_, run'⟩ := h
      rw [run] at run'
      cases run'
    · obtain ⟨rfl, rfl, -⟩ := h.unique reads
      exact fails
  · exact fun fails => .inr ⟨value, mid, first, h, fails⟩

@[simp] theorem fails_left_bind {next : List Token → Reading α} :
    (left >>= next).Fails tokens failure ↔ (next tokens).Fails tokens failure :=
  fails_bind_of (reads_left.2 ⟨rfl, rfl, rfl⟩)

@[simp] theorem fails_note_bind {events : List Event} {next : Unit → Reading α} :
    (note events >>= next).Fails tokens failure ↔ (next ()).Fails tokens failure :=
  fails_bind_of (reads_note.2 ⟨rfl, rfl⟩)

@[simp] theorem fails_after {leading : List Defect} {reading : Reading α} :
    (after leading reading).Fails tokens failure ↔
      ∃ own, reading.Fails tokens own ∧ failure = own.mergedAfter leading := by
  simp only [Fails, after]
  cases reading.run tokens with
  | read => simp
  | failed own journal =>
      constructor
      · rintro ⟨_, h⟩
        cases h
        exact ⟨own, ⟨journal, rfl⟩, rfl⟩
      · rintro ⟨_, ⟨_, h⟩, rfl⟩
        cases h
        exact ⟨journal, rfl⟩

/-! ### Repetition -/

/-- The states that a repetition goes through, and the tokens in front of which it does. -/
inductive Goes (step : σ → Reading (Turn σ)) : σ → List Token → σ → List Token → Prop where
  | here {state tokens} : Goes step state tokens state tokens
  | again {state tokens next mid last rest skipped}
      (one : (step state).Reads tokens (.again next) mid skipped)
      (moved : mid.length < tokens.length) (others : Goes step next mid last rest) :
      Goes step state tokens last rest

/-- A repetition fails where one of its steps fails, and as that step does. -/
theorem fails_iterate {step : σ → Reading (Turn σ)} {state : σ} :
    (iterate step state).Fails tokens failure ↔
      ∃ last mid, Goes step state tokens last mid ∧ (step last).Fails mid failure := by
  constructor
  · rintro ⟨journal, run⟩
    rw [iterate] at run
    simp only at run
    -- along the recursion of the repetition, whose first step decides
    induction size : tokens.length using Nat.strongRecOn generalizing tokens state journal with
    | _ n ih =>
        rw [iterateTokens] at run
        cases first : (step state).run tokens with
        | failed own events =>
            simp only [first, Outcome.failed.injEq] at run
            obtain ⟨rfl, -⟩ := run
            exact ⟨state, tokens, .here, events, first⟩
        | read turn mid passed events =>
            cases turn with
            | last => simp [first] at run
            | again next =>
                simp only [first] at run
                by_cases moved : mid.length < tokens.length
                · rw [if_pos moved] at run
                  cases later : iterateTokens step next mid with
                  | read => simp [later, Outcome.behind] at run
                  | failed own events' =>
                      simp only [later, Outcome.behind, Outcome.failed.injEq] at run
                      obtain ⟨rfl, -⟩ := run
                      obtain ⟨last, rest, goes, fails⟩ := ih _ (size ▸ moved) events' later rfl
                      exact ⟨last, rest, .again ⟨_, first⟩ moved goes, fails⟩
                · rw [if_neg moved] at run
                  cases run
  · rintro ⟨last, mid, goes, fails⟩
    induction goes with
    | here =>
        obtain ⟨journal, run⟩ := fails
        refine ⟨journal, ?_⟩
        rw [iterate]
        simp only
        rw [iterateTokens, run]
    | again one moved _ ih =>
        obtain ⟨journal, run⟩ := ih fails
        obtain ⟨events, first⟩ := one
        refine ⟨events ++ journal, ?_⟩
        rw [iterate] at run ⊢
        simp only at run ⊢
        rw [iterateTokens, first]
        simp only
        rw [if_pos moved, run, Outcome.behind]

/-! ### Declarations -/

/-- What is wrong with a preface comes first in the report, whatever the declaration behind it fails
with. -/
theorem prefix_of_fails_declarationWith {nested : Reading Declaration} {preface run : Preface}
    {inner : Bool} {mid : List Token}
    (modified : (modifierRun preface).Reads tokens run mid skipped)
    (h : (declarationWith nested preface inner).Fails tokens failure) :
    run.allDefects <+: failure.defects := by
  rw [declarationWith, fails_bind_of modified, fails_left_bind, fails_note_bind] at h
  cases target : classifyTarget mid with
  | none =>
      rw [target] at h
      rw [fails_fail.1 h]
      exact List.prefix_append _ _
  | some kind =>
      rw [target] at h
      rcases fails_bind.1 h with fails | ⟨declared, _, _, -, fails⟩
      · obtain ⟨own, -, rfl⟩ := fails_after.1 fails
        exact List.prefix_append _ _
      · split_ifs at fails
        · exact absurd fails not_fails_pure
        · obtain rfl := fails_fail.1 fails
          exact List.prefix_rfl

/-! ### Classes -/

theorem Fails.finish {parts : Reading (Attempt α)} (h : parts.Fails tokens failure) :
    (finish scope parts).Fails tokens failure := by
  obtain ⟨journal, run⟩ := h
  rw [Reading.finish, fails_bind]
  exact .inl ⟨journal, by simp [withSkipped, run]⟩

/-- Once the parts of a construct are read, what is wrong with them comes first in the report. -/
theorem prefix_of_fails_finish {parts : Reading (Attempt α)} {attempt : Attempt α}
    (reads : parts.Reads tokens attempt rest skipped)
    (h : (finish scope parts).Fails tokens failure) : attempt.defects <+: failure.defects := by
  have both : parts.withSkipped.Reads tokens (attempt, skipped) rest [] :=
    reads_withSkipped.2 ⟨rfl, reads⟩
  rw [finish, fails_bind_of both, fails_note_bind] at h
  cases built : attempt.built with
  | ok node =>
      simp only [built] at h
      split_ifs at h
      · exact absurd h not_fails_pure
      · rw [fails_fail.1 h]
        exact List.prefix_append _ _
  | error error =>
      simp only [built] at h
      rw [fails_fail.1 h]
      exact (List.prefix_append _ _).trans (List.prefix_append _ _)

/-- The head of a class stands in front of `body`: its word, its name, its type parameters and its
ancestry. -/
inductive ClassHead (scope : Scope) : List Token → Text → Ancestry → List Token → Prop where
  | intro {tokens named bounded derived body first second third fourth : List Token} {word : Token}
      {name : Text} {parameters : Option Text} {ancestry : Ancestry}
      (opens : bump.Reads tokens word named first)
      (names : (identifier scope .className).Reads named name bounded second)
      (bounds : (typeParameters scope).Reads bounded parameters derived third)
      (derives : (iterate (ancestryClause scope
        (if word.keyword? = some .interface then .interface else .class) name) {}).Reads derived
          ancestry body fourth) :
      ClassHead scope tokens name ancestry body

variable {nested : Reading Declaration} {preface : Preface} {inner : Bool} {name : Text}
  {ancestry : Ancestry} {body : List Token}

/-- A class fails as the first item of its body does that cannot be read. Nothing that was wrong
with its ancestry is reported. -/
theorem fails_classRest_of_item {items : List BodyItem} {mid : List Token}
    (head : ClassHead (preface.scope .classDecl) tokens name ancestry body)
    (goes : Goes (bodyItem nested (preface.scope .classDecl) name) [] body items mid)
    (h : (bodyItem nested (preface.scope .classDecl) name items).Fails mid failure) :
    (classRest nested preface inner).Fails tokens failure := by
  obtain ⟨opens, names, bounds, derives⟩ := head
  refine Fails.finish ?_
  rw [fails_bind_of opens, fails_bind_of names, fails_note_bind, fails_bind_of bounds,
    fails_bind_of derives, fails_bind]
  exact .inl (fails_iterate.2 ⟨items, mid, goes, h⟩)

/-- A class whose body is read to its end reports all that is wrong with its ancestry. -/
theorem prefix_of_fails_classRest {items : List BodyItem}
    (head : ClassHead (preface.scope .classDecl) tokens name ancestry body)
    (reads : (iterate (bodyItem nested (preface.scope .classDecl) name) []).Reads body items rest
      skipped)
    (h : (classRest nested preface inner).Fails tokens failure) :
    ancestry.defects <+: failure.defects := by
  obtain ⟨opens, names, bounds, derives⟩ := head
  rw [classRest] at h
  have report : ∀ {attempt : Attempt ClassDecl} {skipped}, Reads _ tokens attempt rest skipped →
      attempt.defects <+: failure.defects := fun parts => prefix_of_fails_finish parts h
  have whole := report (opens.bind (names.bind (reads_note_bind.2 (bounds.bind (derives.bind
    (reads.bind (reads_pure.2 ⟨rfl, rfl, rfl⟩)))))))
  exact (List.prefix_append _ _).trans whole

/-! ### Files -/

theorem fails_outOfOrder :
    (outOfOrder scope defects : Reading α).Fails tokens failure ↔
      failure = ⟨scope, defects, tokens⟩ := by
  rw [outOfOrder, fails_note_bind, fails_fail]

/-- A file fails as the first of its items does that cannot be read. Nothing that was out of order
before that item is reported. -/
theorem fails_compilationUnit_of_item {state : FileState} {mid : List Token}
    (goes : Goes fileItem {} tokens state mid) (h : (fileItem state).Fails mid failure) :
    compilationUnit.Fails tokens failure := by
  rw [compilationUnit, fails_left_bind, fails_bind]
  exact .inl (fails_iterate.2 ⟨state, mid, goes, h⟩)

/-- A file that is read to its end reports all that is out of order. -/
theorem fails_compilationUnit_of_end {state : FileState}
    (h : (iterate fileItem {}).Reads tokens state rest skipped) (some : state.allDefects ≠ []) :
    compilationUnit.Fails tokens ⟨⟨.compilationUnit, tokens⟩, state.allDefects, rest⟩ := by
  rw [compilationUnit, fails_left_bind, fails_bind_of h]
  cases outer : state.outer with
  | none =>
      have all : state.allDefects = state.defects ++ [.missingClass] := by
        simp [FileState.allDefects, outer]
      exact fails_outOfOrder.2 (by rw [all])
  | some node =>
      have all : state.allDefects = state.defects := by simp [FileState.allDefects, outer]
      rw [all] at some ⊢
      dsimp only
      rw [if_neg some]
      exact fails_outOfOrder.2 rfl

/-- What becomes of the defects that are recorded before a reading fails. A declaration puts those of
its preface first, whatever fails behind them. A class puts those of its ancestry first and a file
reports those of its items, but only at the end: where an item cannot be read, the failure is that of
the item alone. -/
theorem reports_recorded (nested : Reading Declaration) (preface : Preface) (inner : Bool)
    (tokens : List Token) (failure : Failure) :
    (∀ run mid skipped, (modifierRun preface).Reads tokens run mid skipped →
      (declarationWith nested preface inner).Fails tokens failure →
        run.allDefects <+: failure.defects) ∧
    (∀ name ancestry body, ClassHead (preface.scope .classDecl) tokens name ancestry body →
      (∀ items mid, Goes (bodyItem nested (preface.scope .classDecl) name) [] body items mid →
        (bodyItem nested (preface.scope .classDecl) name items).Fails mid failure →
          (classRest nested preface inner).Fails tokens failure) ∧
      ∀ items rest skipped,
        (iterate (bodyItem nested (preface.scope .classDecl) name) []).Reads body items rest
          skipped →
        (classRest nested preface inner).Fails tokens failure →
          ancestry.defects <+: failure.defects) ∧
    (∀ state mid, Goes fileItem {} tokens state mid → (fileItem state).Fails mid failure →
      compilationUnit.Fails tokens failure) ∧
    ∀ state rest skipped, (iterate fileItem {}).Reads tokens state rest skipped →
      state.allDefects ≠ [] →
        compilationUnit.Fails tokens ⟨⟨.compilationUnit, tokens⟩, state.allDefects, rest⟩ :=
  ⟨fun _ _ _ modified fails => prefix_of_fails_declarationWith modified fails,
    fun _ _ _ head => ⟨fun _ _ goes fails => fails_classRest_of_item head goes fails,
      fun _ _ _ reads fails => prefix_of_fails_classRest head reads fails⟩,
    fun _ _ goes fails => fails_compilationUnit_of_item goes fails,
    fun _ _ _ reads some => fails_compilationUnit_of_end reads some⟩

end Reading

/-- A source text that cannot be read is reported as its tokens are. -/
theorem Entry.parseText_eq_error {entry : Entry α} {name source : Text} {tokens : List Token}
    {failure : Failure} (lexed : lex source = .ok tokens)
    (h : entry.reading.Fails tokens failure) :
    ∃ span, entry.parseText name source =
      .error (.parse failure.construct failure.defects span name) := by
  obtain ⟨journal, run⟩ : entry.whole.Fails tokens failure := by
    rw [whole, Reading.fails_bind]
    exact .inl h
  simp only [parseText, TokenStream.make, TokenStream.ofSource, lexed, readAll]
  simp [Except.map, Except.mapError, run, Problem.ofFailure]

end JavaUnit
