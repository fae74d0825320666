/-
Module: JavaUnit.Proofs.Anchors
Purpose: Where failures begin, and that each of them has a reason. A failure is reported from the
  beginning of a construct on, and all constructs that are being read begin at the place where
  reading began or behind it. This is told along the combinators that a reading is made of.
Main exports: Failure.Anchored, Reading.Anchored, Reading.Anchored.bind,
  Reading.Anchored.iterate, Reading.Anchored.recurse, Goal.anchored
-/
import JavaUnit.Proofs.Failing
import JavaUnit.Proofs.Origins

namespace JavaUnit

/-! ### Reasons -/

/-- Nothing is lost when two reports are put together. -/
theorem mergeAfter_eq_nil_iff [DecidableEq α] {leading own : List α} :
    mergeAfter leading own = [] ↔ leading = [] ∧ own = [] := by
  rw [mergeAfter, List.append_eq_nil_iff]
  constructor
  · rintro ⟨rfl, rest⟩
    exact ⟨rfl, by simpa using rest⟩
  · rintro ⟨rfl, rfl⟩
    exact ⟨rfl, rfl⟩

/-- The failure begins behind `origin`, and has a reason. -/
structure Failure.Anchored (origin : List Token) (failure : Failure) : Prop where
  start : Advances origin failure.start
  told : failure.defects ≠ []

namespace Reading

/-! ### Readings that cannot fail -/

/-- The reading does not fail. -/
def Total (reading : Reading α) : Prop :=
  ∀ ⦃tokens failure⦄, ¬ reading.Fails tokens failure

section

variable {reading : Reading α}

theorem total_pure {value : α} : Total (pure value : Reading α) :=
  fun _ _ => not_fails_pure

theorem total_left : Total left := by
  rintro tokens failure ⟨_, run⟩
  cases run

theorem total_note {events : List Event} : Total (note events) := by
  rintro tokens failure ⟨_, run⟩
  cases run

theorem total_skip {comments : List Token} : Total (skip comments) := by
  rintro tokens failure ⟨_, run⟩
  cases run

/-- Scanning stops at the end of the input at the latest, so that it has no way to fail. -/
theorem total_scan {verdict : σ → Token → Option σ} {state : σ} : Total (scan verdict state) := by
  rintro tokens failure ⟨_, run⟩
  cases run

theorem total_advance : Total advance := by
  rintro tokens failure ⟨_, run⟩
  cases tokens <;> cases run

/-- What is made of readings that cannot fail cannot fail. -/
theorem Total.bind {next : α → Reading β} (h : Total reading) (later : ∀ value, Total (next value)) :
    Total (reading >>= next) := by
  intro tokens failure fails
  rcases fails_bind.1 fails with first | ⟨value, _, _, -, second⟩
  · exact h first
  · exact later value second

theorem Total.ite {condition : Prop} [Decidable condition] {other : Reading α} (h : Total reading)
    (h' : Total other) : Total (if condition then reading else other) := by
  split
  · exact h
  · exact h'

/-- A loop fails only where a turn of it does. -/
theorem Total.iterate {step : α → Reading (Turn α)} {state : α} (h : ∀ state, Total (step state)) :
    Total (Reading.iterate step state) := by
  intro tokens failure fails
  obtain ⟨last, mid, -, last⟩ := fails_iterate.1 fails
  exact h _ last

end

theorem total_current : Total current :=
  total_left.bind fun _ => total_pure

theorem total_peek {n : Nat} : Total (peek n) :=
  total_left.bind fun _ => total_pure

theorem total_skipWhitespace : Total skipWhitespace :=
  total_scan.bind fun _ => total_pure

theorem total_skipTrivia : Total skipTrivia :=
  total_scan.bind fun _ => total_skip

theorem total_bump : Total bump :=
  total_skipTrivia.bind fun _ => total_advance

theorem total_accept {kind : Kind} : Total (accept kind) :=
  total_skipTrivia.bind fun _ => total_current.bind fun _ => .ite
    (total_advance.bind fun _ => total_pure) total_pure

theorem total_arrayDims : Total arrayDims :=
  .iterate fun _ => total_peek.bind fun _ => total_peek.bind fun _ => .ite
    (total_bump.bind fun _ => total_bump.bind fun _ => total_pure) total_pure

theorem total_scopeHere {kind : NodeKind} : Total (scopeHere kind) :=
  total_skipWhitespace.bind fun _ => total_left.bind fun _ => total_pure

theorem total_emptyPreface : Total emptyPreface :=
  total_left.bind fun _ => total_pure

theorem total_atStaticBlock : Total atStaticBlock :=
  total_peek.bind fun _ => total_peek.bind fun _ => total_pure

/-! ### Where failures begin -/

/-- Behind `origin` the reading fails only with what begins there, and never without a reason. -/
def Anchored (origin : List Token) (reading : Reading α) : Prop :=
  ∀ ⦃tokens failure⦄, Advances origin tokens → reading.Fails tokens failure →
    failure.Anchored origin

section

variable {origin : List Token} {reading : Reading α} {scope : Scope}

/-- What cannot fail is anchored anywhere. -/
theorem Total.anchored (h : Total reading) : Anchored origin reading :=
  fun _ _ _ fails => absurd fails (@h _ _)

/-- A construct may fail wherever it is, as long as it began behind the origin and says why. -/
theorem anchored_fail_of {defects : List Defect} (start : Advances origin scope.start)
    (told : defects ≠ []) : Anchored origin (fail scope defects : Reading α) := by
  intro tokens failure _ fails
  rw [fails_fail.1 fails]
  exact ⟨start, told⟩

theorem anchored_fail {defect : Defect} {others : List Defect}
    (start : Advances origin scope.start) :
    Anchored origin (fail scope (defect :: others) : Reading α) :=
  anchored_fail_of start (List.cons_ne_nil defect others)

/-- The second of two readings may rely on the first one having read its value behind the
origin. -/
theorem Anchored.bind_reads {next : α → Reading β} (h : Anchored origin reading)
    (later : ∀ ⦃tokens value rest skipped⦄, Advances origin tokens →
      reading.Reads tokens value rest skipped → Anchored origin (next value)) :
    Anchored origin (reading >>= next) := by
  intro tokens failure behind fails
  rcases fails_bind.1 fails with first | ⟨value, mid, skipped, reads, second⟩
  · exact h behind first
  · exact later behind reads (behind.trans reads.advances) second

/-- Readings in a row are anchored where each of them is, since reading goes forward only. -/
theorem Anchored.bind {next : α → Reading β} (h : Anchored origin reading)
    (later : ∀ value, Anchored origin (next value)) : Anchored origin (reading >>= next) :=
  h.bind_reads fun _ value _ _ _ _ => later value

/-- The second reading only has to be anchored for what the first one can give. -/
theorem Anchored.bind_gives {next : α → Reading β} {P : α → Prop} (h : Anchored origin reading)
    (gives : reading.Gives P) (later : ∀ value, P value → Anchored origin (next value)) :
    Anchored origin (reading >>= next) :=
  h.bind_reads fun _ value _ _ _ reads => later value (gives reads)

theorem Total.bind_anchored {next : α → Reading β} (h : Total reading)
    (later : ∀ value, Anchored origin (next value)) : Anchored origin (reading >>= next) :=
  h.anchored.bind later

/-- What is in front of the reader stands at the origin or behind it. -/
theorem anchored_left_bind {next : List Token → Reading β}
    (later : ∀ here, Advances origin here → Anchored origin (next here)) :
    Anchored origin (left >>= next) :=
  total_left.anchored.bind_reads fun _ here _ _ behind reads =>
    later here ((reads_left.1 reads).1 ▸ behind)

/-- Each branch may rely on being taken. -/
theorem Anchored.ite_of {condition : Prop} [Decidable condition] {other : Reading α}
    (h : condition → Anchored origin reading) (h' : ¬ condition → Anchored origin other) :
    Anchored origin (if condition then reading else other) := by
  split
  · next holds => exact h holds
  · next fails => exact h' fails

theorem Anchored.ite {condition : Prop} [Decidable condition] {other : Reading α}
    (h : Anchored origin reading) (h' : Anchored origin other) :
    Anchored origin (if condition then reading else other) :=
  .ite_of (fun _ => h) fun _ => h'

theorem Anchored.map {f : α → β} (h : Anchored origin reading) : Anchored origin (f <$> reading) :=
  h.bind fun _ => total_pure.anchored

/-- Reports that are put in front of those of a failure do not move it. -/
theorem Anchored.after {leading : List Defect} (h : Anchored origin reading) :
    Anchored origin (Reading.after leading reading) := by
  intro tokens failure behind fails
  obtain ⟨own, inside, rfl⟩ := fails_after.1 fails
  obtain ⟨start, told⟩ := h behind inside
  exact ⟨start, fun none => told (mergeAfter_eq_nil_iff.1 none).2⟩

/-- Collecting the comments that are passed over leaves each failure as it is. -/
theorem Anchored.withSkipped (h : Anchored origin reading) : Anchored origin reading.withSkipped := by
  rintro tokens failure behind ⟨journal, run⟩
  rw [Reading.withSkipped] at run
  cases inside : reading.run tokens with
  | read => simp [inside] at run
  | failed own events =>
      simp only [inside, Outcome.failed.injEq] at run
      exact run.1 ▸ h behind ⟨events, inside⟩

theorem gives_withSkipped {P : α → Prop} (h : reading.Gives P) :
    reading.withSkipped.Gives fun both => P both.1 :=
  fun _ _ _ _ reads => h (reads_withSkipped.1 reads).2

/-- What settles a draft gives its reasons. -/
theorem gives_settle {kind : NodeKind} {defects noticed : List Defect} {examined : List Text}
    {node : α} :
    (pure { defects := noticed, examined, built := settle kind defects node } :
      Reading (Attempt α)).Gives fun attempt => Explains attempt.built :=
  gives_pure Explains.settle

/-- A construct fails with its own scope, unless a part of it fails. Its parts give reasons for what
they do not build. -/
theorem Anchored.finish {parts : Reading (Attempt α)} (start : Advances origin scope.start)
    (built : parts.Gives fun attempt => Explains attempt.built) (h : Anchored origin parts) :
    Anchored origin (Reading.finish scope parts) := by
  refine h.withSkipped.bind_gives (gives_withSkipped built) fun both explained =>
    total_note.bind_anchored fun _ => ?_
  split
  · exact .ite_of (fun _ => total_pure.anchored) fun noticed => anchored_fail_of start noticed
  · next error refused =>
      exact anchored_fail_of start fun none =>
        explained error refused (mergeAfter_eq_nil_iff.1 none).2

/-- Each step of a repetition may rely on what the steps preserve. -/
theorem Anchored.iterate_of {step : α → Reading (Turn α)} {state : α} (P : α → Prop)
    (start : P state) (kept : ∀ state, P state → (step state).Gives fun turn => P turn.state)
    (h : ∀ state, P state → Anchored origin (step state)) :
    Anchored origin (Reading.iterate step state) := by
  intro tokens failure behind
  rw [fails_iterate]
  rintro ⟨last, mid, goes, fails⟩
  induction goes with
  | here => exact h _ start behind fails
  | again one _ _ ih => exact ih (kept _ start one) (behind.trans one.advances) fails

/-- A loop is anchored where each turn of it is, whatever its state. -/
theorem Anchored.iterate {step : α → Reading (Turn α)} {state : α}
    (h : ∀ state, Anchored origin (step state)) : Anchored origin (Reading.iterate step state) :=
  .iterate_of (fun _ => True) trivial (fun _ _ _ _ _ _ _ => trivial) fun state _ => h state

/-- A reading that is only tried on fewer tokens is anchored where it is tried. -/
theorem Anchored.below {bound : Nat} {stalled : Reading α}
    (h : ∀ ⦃tokens failure⦄, tokens.length < bound → Advances origin tokens →
      reading.Fails tokens failure → failure.Anchored origin)
    (blocked : Anchored origin stalled) : Anchored origin (Reading.below bound stalled reading) := by
  rintro tokens failure behind ⟨journal, run⟩
  rw [Reading.below] at run
  dsimp only at run
  split at run
  · next shorter => exact h shorter behind ⟨journal, run⟩
  · exact blocked behind ⟨journal, run⟩

/-- What contains itself is told from its body. -/
theorem Anchored.recurse {stalled : Reading α} {body : Reading α → Reading α}
    (blocked : Anchored origin stalled)
    (h : ∀ nested, Anchored origin nested → Anchored origin (body nested)) :
    Anchored origin (Reading.recurse stalled body) := by
  intro tokens failure
  -- on the number of tokens that are left: inside the body there are fewer
  induction size : tokens.length using Nat.strongRecOn generalizing tokens failure with
  | _ n ih =>
      rintro behind ⟨journal, run⟩
      rw [run_recurse] at run
      exact h _ (.below (fun later own shorter => ih later.length (size ▸ shorter) rfl) blocked)
        behind ⟨journal, run⟩

end

/-! ### Steps, types and names -/

section

variable {origin : List Token} {scope : Scope}

/-- A construct that opens its scope where it begins has all of its failures in it. -/
theorem anchored_scopeHere_bind {kind : NodeKind} {next : Scope → Reading α}
    (later : ∀ scope : Scope, Advances origin scope.start → Anchored origin (next scope)) :
    Anchored origin (scopeHere kind >>= next) := by
  refine total_scopeHere.anchored.bind_reads fun tokens scope rest skipped behind reads => ?_
  obtain ⟨_, mid, _, _, -, here, -⟩ := reads_bind.1 reads
  rw [reads_left_bind, reads_pure] at here
  obtain ⟨rfl, rfl, -⟩ := here
  exact later _ (behind.trans reads.advances)

variable (start : Advances origin scope.start)

include start

theorem anchored_unexpected {what : Expectation} :
    Anchored origin (unexpected scope what : Reading α) :=
  total_current.bind_anchored fun _ => anchored_fail start

/-- A token that is missing is reported from the construct that wants it. -/
theorem anchored_expect {kind : Kind} {what : Expectation} :
    Anchored origin (expect scope kind what) :=
  total_skipTrivia.bind_anchored fun _ => total_current.bind_anchored fun _ => .ite
    (total_advance.bind fun _ => total_pure).anchored (anchored_unexpected start)

theorem anchored_identifier {what : Expectation} : Anchored origin (identifier scope what) :=
  total_skipTrivia.bind_anchored fun _ => total_current.bind_anchored fun _ => .ite
    (total_advance.bind fun _ => total_pure).anchored (anchored_unexpected start)

theorem anchored_angleGroup : Anchored origin (angleGroup scope) :=
  total_bump.bind_anchored fun _ => total_scan.bind_anchored fun _ => total_skip.bind_anchored
    fun _ => total_advance.bind_anchored fun _ => .ite total_pure.anchored (anchored_fail start)

theorem anchored_typePart {parts : List Token} : Anchored origin (typePart scope parts) :=
  total_peek.bind_anchored fun _ => total_peek.bind_anchored fun _ => .ite
    (total_bump.bind fun _ => total_bump.bind fun _ => total_pure).anchored <| .ite
    ((anchored_angleGroup start).bind fun _ => total_pure.anchored) <| .ite
    (total_bump.bind fun _ => total_pure).anchored total_pure.anchored

/-- A type has no scope of its own: its failures are those of the construct around it. -/
theorem anchored_type : Anchored origin (type scope) :=
  total_skipTrivia.bind_anchored fun _ => total_current.bind_anchored fun _ => .ite
    (total_advance.bind_anchored fun _ =>
      (Anchored.iterate fun _ => anchored_typePart start).bind fun _ => total_pure.anchored)
    (anchored_unexpected start)

theorem anchored_typeList : Anchored origin (typeList scope) :=
  (anchored_type start).bind fun _ => .iterate fun _ => total_accept.bind_anchored fun _ => .ite
    ((anchored_type start).bind fun _ => total_pure.anchored) total_pure.anchored

theorem anchored_qualifiedName {what : Expectation} : Anchored origin (qualifiedName scope what) :=
  (anchored_identifier start).bind fun _ => .iterate fun _ => total_peek.bind_anchored fun _ =>
    total_peek.bind_anchored fun _ => .ite
      (total_bump.bind fun _ => total_bump.bind fun _ => total_pure).anchored total_pure.anchored

/-! ### Statements, comments and annotations -/

theorem anchored_annotationValue : Anchored origin (annotationValue scope) :=
  total_skipTrivia.bind_anchored fun _ => total_scan.bind_anchored fun _ =>
    total_current.bind_anchored fun _ => .ite (anchored_fail start) total_pure.anchored

theorem anchored_annotationParam {draft : AnnotationDraft} :
    Anchored origin (annotationParam scope draft) := by
  have closed : ∀ draft : AnnotationDraft, Anchored origin
      (do
        let closing ← bump
        if closing.kind = .comma then return .again draft
        else if closing.kind = .closeParen then return .last draft
        else unexpected scope .commaOrCloseParen : Reading (Turn AnnotationDraft)) :=
    fun _ => total_bump.bind_anchored fun _ => .ite total_pure.anchored
      (.ite total_pure.anchored (anchored_unexpected start))
  exact total_peek.bind_anchored fun _ => total_peek.bind_anchored fun _ => .ite
    (total_bump.bind_anchored fun _ => total_bump.bind_anchored fun _ =>
      (anchored_annotationValue start).bind fun _ => total_pure.bind_anchored closed)
    ((anchored_annotationValue start).bind fun _ => total_pure.bind_anchored closed)

omit start

/-- A statement opens a scope, and is built at its end. -/
theorem anchored_packageStatement : Anchored origin packageStatement := by
  refine anchored_scopeHere_bind fun _ start => .finish start ?built ?parts
  case built =>
    exact gives_bind fun _ => gives_bind fun _ => gives_bind fun _ => gives_settle
  case parts =>
    exact (anchored_expect start).bind fun _ => (anchored_qualifiedName start).bind fun _ =>
      (anchored_expect start).bind fun _ => total_pure.anchored

theorem anchored_importStatement : Anchored origin importStatement := by
  refine anchored_scopeHere_bind fun scope start => .finish start ?built ?parts
  case built =>
    refine gives_bind fun _ => gives_bind fun _ => .ite (gives_bind fun _ => ?_) ?_
    all_goals
      exact gives_bind fun _ => gives_bind fun _ => gives_bind fun _ => .ite
        (gives_bind fun _ => gives_bind fun _ => gives_bind fun _ => gives_settle)
        (gives_bind fun _ => gives_settle)
  case parts =>
    have ended : ∀ build : Attempt Import, Anchored origin
        (expect scope .semicolon .semicolon >>= fun _ => pure build) := fun _ =>
      (anchored_expect start).bind fun _ => total_pure.anchored
    refine (anchored_expect start).bind fun _ => total_peek.bind_anchored fun _ =>
      .ite (total_bump.bind_anchored fun _ => ?_) ?_
    all_goals
      exact (anchored_qualifiedName start).bind fun _ => total_peek.bind_anchored fun _ =>
        total_peek.bind_anchored fun _ => .ite
          (total_bump.bind_anchored fun _ => total_bump.bind_anchored fun _ => ended _) (ended _)

/-- An annotation opens a scope of its own, which its values share. -/
theorem anchored_annotationUse : Anchored origin annotationUse := by
  refine anchored_scopeHere_bind fun scope start => .finish start ?built ?parts
  case built =>
    exact gives_bind fun _ => gives_bind fun _ => .ite gives_fail_bind <|
      gives_bind fun _ => gives_bind fun _ => .ite
        (gives_bind fun _ => gives_bind fun _ => .ite
          (gives_bind fun _ => gives_settle)
          (gives_bind fun _ => gives_settle))
        (gives_bind fun _ => gives_settle)
  case parts =>
    refine (anchored_expect start).bind fun _ => total_peek.bind_anchored fun _ => .ite
      ((anchored_fail start).bind fun _ => ?_) ?_
    all_goals
      exact (anchored_qualifiedName start).bind fun _ => total_peek.bind_anchored fun _ => .ite
        (total_bump.bind_anchored fun _ => total_accept.bind_anchored fun _ => .ite
          (total_pure.bind_anchored fun _ => total_pure.anchored)
          ((Anchored.iterate fun _ => anchored_annotationParam start).bind
            fun _ => total_pure.anchored))
        (total_pure.bind_anchored fun _ => total_pure.anchored)

theorem anchored_comment : Anchored origin comment := by
  refine anchored_scopeHere_bind fun scope start => .finish start ?built ?parts
  case built =>
    refine gives_bind fun _ => ?_
    split
    · exact gives_unexpected
    · exact gives_bind fun _ => gives_settle
  case parts =>
    refine total_current.bind_anchored fun token => ?_
    split
    · exact anchored_unexpected start
    · exact (total_advance.bind fun _ => total_pure).anchored

theorem anchored_javadoc : Anchored origin javadoc := by
  refine anchored_scopeHere_bind fun _ start => .finish start ?built ?parts
  case built =>
    exact gives_bind fun _ => .ite (gives_bind fun _ => gives_settle) gives_unexpected
  case parts =>
    exact total_current.bind_anchored fun _ => .ite
      (total_advance.bind fun _ => total_pure).anchored (anchored_unexpected start)

/-! ### In front of a declaration -/

/-- A declaration begins with its preface, which is behind the origin. -/
theorem anchored_emptyPreface_bind {next : Preface → Reading α}
    (later : ∀ preface : Preface, Advances origin preface.start → Anchored origin (next preface)) :
    Anchored origin (emptyPreface >>= next) := by
  refine total_emptyPreface.anchored.bind_reads fun tokens preface _ _ behind reads => ?_
  rw [emptyPreface, reads_left_bind, reads_pure] at reads
  obtain ⟨rfl, -, -⟩ := reads
  exact later _ behind

/-- What a preface is made of opens a scope of its own where it can fail. -/
theorem anchored_prefaceItem {preface : Preface} : Anchored origin (prefaceItem preface) := by
  refine total_skipWhitespace.bind_anchored fun _ => total_current.bind_anchored fun _ => .ite
    (anchored_comment.bind fun _ => total_pure.anchored) <| .ite
    (anchored_annotationUse.bind fun _ => total_pure.anchored) <|
    total_atStaticBlock.bind_anchored fun _ => .ite total_pure.anchored ?_
  split
  · exact (total_advance.bind fun _ => total_pure).anchored
  · exact total_pure.anchored

/-- Whatever is added to a preface, it begins where it did. -/
theorem gives_start_modifierRun {preface : Preface} :
    (modifierRun preface).Gives fun last => last.start = preface.start := by
  refine .iterate rfl fun state same => gives_bind fun _ => gives_bind fun _ => .ite
    (gives_bind fun node => gives_pure ?_) <| .ite (gives_bind fun _ => gives_pure same) <|
    gives_bind fun _ => .ite (gives_pure same) ?_
  · rw [Turn.state, Preface.addComment]
    split
    · exact same
    · exact same
  · split
    · exact gives_bind fun _ => gives_pure same
    · exact gives_pure same

/-- A preface begins behind white space. -/
theorem advances_start_of_preface {preface : Preface} {tokens rest skipped : List Token}
    (h : Reading.preface.Reads tokens preface rest skipped) : Advances tokens preface.start := by
  obtain ⟨_, mid, _, _, blank, h, -⟩ := reads_bind.1 h
  refine blank.advances.trans ?_
  rw [reads_emptyPreface_bind] at h
  have documented : ∀ state : Preface, state.start = mid →
      (do
        if (← current).kind = .docComment then
          return { state with javadoc := some (← javadoc) }
        else
          return state : Reading Preface).Gives fun last => last.start = mid :=
    fun _ same => gives_bind fun _ => .ite (gives_bind fun _ => gives_pure same) (gives_pure same)
  have same : preface.start = mid := by
    refine (?_ : Gives _ fun last : Preface => last.start = mid) h
    exact gives_bind fun _ => .ite
      (gives_bind fun _ => gives_bind fun _ =>
        .bind (P := fun state : Preface => state.start = mid) (gives_pure rfl) documented)
      (.bind (P := fun state : Preface => state.start = mid) (gives_pure rfl) documented)
  rw [same]
  exact .refl mid

/-- Behind a preface the declaration begins where the preface did. -/
theorem anchored_preface_bind {next : Preface → Reading α}
    (later : ∀ preface : Preface, Advances origin preface.start → Anchored origin (next preface)) :
    Anchored origin (preface >>= next) := by
  have own : Anchored origin preface := by
    refine total_skipWhitespace.bind_anchored fun _ => total_emptyPreface.bind_anchored fun _ =>
      total_current.bind_anchored fun _ => .ite
      (anchored_comment.bind fun _ => total_skipWhitespace.bind_anchored fun _ =>
        total_pure.bind_anchored fun _ => ?_) (total_pure.bind_anchored fun _ => ?_)
    all_goals
      exact total_current.bind_anchored fun _ => .ite
        (anchored_javadoc.bind fun _ => total_pure.anchored) total_pure.anchored
  exact own.bind_reads fun _ preface _ _ behind reads =>
    later preface (behind.trans (advances_start_of_preface reads))

/-! ### Fields, methods and static blocks -/

section

variable (start : Advances origin scope.start)

include start

theorem anchored_initializer : Anchored origin (initializer scope) :=
  total_scan.bind_anchored fun _ => total_current.bind_anchored fun _ => .ite
    (total_advance.bind fun _ => total_pure).anchored <| .ite (anchored_fail start)
    (anchored_unexpected start)

/-- An unclosed block is reported from the construct that it is the body of. -/
theorem anchored_block : Anchored origin (block scope) :=
  total_advance.bind_anchored fun _ => total_scan.bind_anchored fun _ =>
    total_current.bind_anchored fun _ => .ite (anchored_fail start)
      (total_advance.bind fun _ => total_pure).anchored

theorem anchored_parameter : Anchored origin (parameter scope) :=
  (Anchored.iterate fun _ => total_skipTrivia.bind_anchored fun _ => total_current.bind_anchored
    fun _ => .ite (anchored_annotationUse.bind fun _ => total_pure.anchored) <| .ite
      (total_advance.bind fun _ => total_pure).anchored total_pure.anchored).bind fun _ =>
    (anchored_type start).bind fun _ => (anchored_identifier start).bind fun _ =>
      (total_arrayDims.bind fun _ => total_pure).anchored

theorem anchored_parameters : Anchored origin (parameters scope) :=
  (anchored_expect start).bind fun _ => total_accept.bind_anchored fun _ => .ite
    total_pure.anchored <| .iterate fun _ => (anchored_parameter start).bind fun _ =>
      total_accept.bind_anchored fun _ => .ite total_pure.anchored
        ((anchored_expect start).bind fun _ => total_pure.anchored)

theorem anchored_returnType {draft : MethodDraft} : Anchored origin (returnType scope draft) :=
  total_peek.bind_anchored fun _ => total_peek.bind_anchored fun _ => .ite total_pure.anchored
    ((anchored_type start).bind fun _ => total_pure.anchored)

theorem anchored_typeParameters : Anchored origin (typeParameters scope) :=
  total_peek.bind_anchored fun _ => .ite
    ((anchored_angleGroup start).bind fun _ => total_pure.anchored) total_pure.anchored

theorem anchored_throwsClause : Anchored origin (throwsClause scope) :=
  total_peek.bind_anchored fun _ => .ite
    (total_bump.bind_anchored fun _ => anchored_typeList start) total_pure.anchored

theorem anchored_methodBody {name : Text} {draft : MethodDraft} :
    Anchored origin (methodBody scope name draft) :=
  total_skipTrivia.bind_anchored fun _ => total_current.bind_anchored fun _ => .ite
    ((anchored_block start).bind fun _ => total_pure.anchored) <| .ite
    (total_advance.bind fun _ => total_pure).anchored (anchored_unexpected start)

end

/-- A field begins at its preface, not at its type. -/
theorem anchored_field {preface : Preface} (start : Advances origin preface.start) :
    Anchored origin (field preface) := by
  have start : Advances origin (preface.scope .field).start := start
  refine .finish start ?built ?parts
  case built =>
    exact gives_bind fun _ => gives_bind fun _ => gives_bind fun _ => gives_bind fun _ =>
      gives_bind fun _ => .ite
        (gives_bind fun _ => gives_bind fun _ => gives_settle) <| .ite
        (gives_bind fun _ => gives_bind fun _ => gives_bind fun _ => gives_settle) <|
        .ite gives_fail_bind gives_unexpected_bind
  case parts =>
    exact (anchored_type start).bind fun _ => (anchored_identifier start).bind fun _ =>
      total_arrayDims.bind_anchored fun _ => total_skipTrivia.bind_anchored fun _ =>
      total_current.bind_anchored fun _ => .ite
        (total_advance.bind_anchored fun _ => (total_pure.bind fun _ => total_pure).anchored) <|
      .ite
        (total_advance.bind_anchored fun _ => (anchored_initializer start).bind fun _ =>
          (total_pure.bind fun _ => total_pure).anchored) <| .ite
        ((anchored_fail start).bind fun _ => total_pure.anchored)
        ((anchored_unexpected start).bind fun _ => total_pure.anchored)

/-- A method begins at its preface, and so do the failures of its parameters and of its body. -/
theorem anchored_method {preface : Preface} (start : Advances origin preface.start) :
    Anchored origin (method preface) := by
  have start : Advances origin (preface.scope .method).start := start
  refine .finish start ?built ?parts
  case built =>
    exact gives_bind fun _ => gives_bind fun _ => gives_bind fun _ => gives_bind fun _ =>
      gives_bind fun _ => gives_bind fun _ => gives_settle
  case parts =>
    exact (anchored_typeParameters start).bind fun _ => (anchored_returnType start).bind fun _ =>
      (anchored_identifier start).bind fun _ => (anchored_parameters start).bind fun _ =>
      (anchored_throwsClause start).bind fun _ => (anchored_methodBody start).bind fun _ =>
        total_pure.anchored

theorem anchored_staticBlock : Anchored origin staticBlock := by
  refine anchored_scopeHere_bind fun _ start => .finish start ?built ?parts
  case built =>
    exact gives_bind fun _ => gives_bind fun _ => gives_bind fun _ => .ite
      (gives_bind fun _ => gives_settle) gives_unexpected
  case parts =>
    exact (anchored_expect start).bind fun _ => total_skipTrivia.bind_anchored fun _ =>
      total_current.bind_anchored fun _ => .ite
        ((anchored_block start).bind fun _ => total_pure.anchored) (anchored_unexpected start)

/-! ### Classes and declarations -/

/-- A clause belongs to the head of its class. -/
theorem anchored_ancestryClause (start : Advances origin scope.start) {kind : ClassKind}
    {name : Text} {ancestry : Ancestry} :
    Anchored origin (ancestryClause scope kind name ancestry) :=
  total_skipTrivia.bind_anchored fun _ => total_current.bind_anchored fun _ => .ite
    (total_advance.bind_anchored fun _ => (anchored_typeList start).bind
      fun _ => total_pure.anchored) <| .ite
    (total_advance.bind_anchored fun _ => (anchored_typeList start).bind
      fun _ => total_pure.anchored) <| .ite
    (total_advance.bind fun _ => total_pure).anchored (anchored_unexpected start)

variable {nested : Reading Declaration}

/-- An item of a body fails as the comment, the block or the declaration that it is. -/
theorem anchored_bodyItem (h : Anchored origin nested) (start : Advances origin scope.start)
    {name : Text} {items : List BodyItem} : Anchored origin (bodyItem nested scope name items) :=
  total_skipWhitespace.bind_anchored fun _ => total_current.bind_anchored fun _ => .ite
    (total_advance.bind fun _ => total_pure).anchored <| .ite (anchored_fail start) <| .ite
    (total_advance.bind fun _ => total_pure).anchored <| .ite
    (anchored_javadoc.bind fun _ => total_pure.anchored) <| .ite
    (total_left.bind_anchored fun _ => anchored_comment.bind fun _ => total_pure.anchored) <| .ite
    (anchored_annotationUse.bind fun _ => total_pure.anchored) <|
    total_atStaticBlock.bind_anchored fun _ => .ite
      (anchored_staticBlock.bind fun _ => total_pure.anchored)
      (h.bind fun _ => total_pure.anchored)

/-- A class begins at its preface. Nested declarations are taken to be anchored, since they come
from a reader of less input. -/
theorem anchored_classRest (h : Anchored origin nested) {preface : Preface}
    (start : Advances origin preface.start) {inner : Bool} :
    Anchored origin (classRest nested preface inner) := by
  have start : Advances origin (preface.scope .classDecl).start := start
  refine .finish start ?built ?parts
  case built =>
    exact gives_bind fun _ => gives_bind fun _ => gives_bind fun _ => gives_bind fun _ =>
      gives_bind fun _ => gives_bind fun _ => gives_settle
  case parts =>
    exact total_bump.bind_anchored fun _ => (anchored_identifier start).bind fun _ =>
      total_note.bind_anchored fun _ => (anchored_typeParameters start).bind fun _ =>
      (Anchored.iterate fun _ => anchored_ancestryClause start).bind fun _ =>
      (Anchored.iterate fun _ => anchored_bodyItem h start).bind fun _ => total_pure.anchored

theorem anchored_declarationOf (h : Anchored origin nested) {preface : Preface}
    (start : Advances origin preface.start) {inner : Bool} (kind : DeclarationKind) :
    Anchored origin (declarationOf nested preface inner kind) := by
  cases kind with
  | classDecl => exact (anchored_classRest h start).bind fun _ => total_pure.anchored
  | field => exact (anchored_field start).bind fun _ => total_pure.anchored
  | method => exact (anchored_method start).bind fun _ => total_pure.anchored

/-- The kind of a declaration is settled behind its preface, and its failures begin in front of
it. -/
theorem anchored_declarationWith (h : Anchored origin nested) {preface : Preface}
    (start : Advances origin preface.start) {inner : Bool} :
    Anchored origin (declarationWith nested preface inner) := by
  have modified : Anchored origin (modifierRun preface) := .iterate fun _ => anchored_prefaceItem
  refine modified.bind_gives gives_start_modifierRun fun run same => ?_
  rw [← same] at start
  refine total_left.bind_anchored fun _ => total_note.bind_anchored fun _ => ?_
  split
  · exact anchored_fail_of start (by simp)
  · exact (anchored_declarationOf h start _).after.bind fun _ =>
      .ite_of (fun _ => total_pure.anchored) fun given => anchored_fail_of start given

/-- Nested declarations are anchored at any depth, by the recursion on what is left to read. -/
theorem anchored_nestedDeclaration : Anchored origin nestedDeclaration :=
  .recurse (anchored_left_bind fun _ start => anchored_fail start) fun _ h =>
    anchored_emptyPreface_bind fun _ start => anchored_declarationWith h start

theorem anchored_declaration {preface : Preface} (start : Advances origin preface.start)
    {inner : Bool} : Anchored origin (declaration preface inner) :=
  anchored_declarationWith anchored_nestedDeclaration start

theorem anchored_declarationAs {wanted : DeclarationKind} {part : Declaration → Option α} :
    Anchored origin (declarationAs wanted part) := by
  refine anchored_preface_bind fun preface start => (anchored_declaration start).bind fun _ => ?_
  split
  · exact total_pure.anchored
  · exact anchored_fail start

theorem anchored_member : Anchored origin member :=
  total_skipWhitespace.bind_anchored fun _ => total_atStaticBlock.bind_anchored fun _ => .ite
    (anchored_staticBlock.bind fun _ => total_pure.anchored) <|
    total_current.bind_anchored fun _ => total_left.bind_anchored fun _ => .ite
    (anchored_comment.bind fun _ => total_pure.anchored) <|
    anchored_preface_bind fun _ start => (anchored_declaration start).bind
      fun _ => total_pure.anchored

/-! ### Files -/

theorem anchored_prefaceComment {state : FileState × Preface} :
    Anchored origin (prefaceComment state) :=
  total_skipWhitespace.bind_anchored fun _ => total_current.bind_anchored fun _ => .ite
    (anchored_comment.bind fun _ => total_pure.anchored) total_pure.anchored

/-- Where comments stand between a preface and its declaration, failures still begin at the preface at
the earliest. -/
theorem anchored_prefacedDeclaration {preface : Preface} (start : Advances origin preface.start)
    (state : FileState) :
    Anchored origin (do
      let both ← iterate prefaceComment (state, preface)
      return both.1.addDeclaration (← declaration both.2 false) : Reading FileState) := by
  have run : Anchored origin (iterate prefaceComment (state, preface)) :=
    .iterate fun _ => anchored_prefaceComment
  refine run.bind_gives (P := fun both => both.2.start = preface.start)
    (.iterate rfl fun _ same => gives_bind fun _ => gives_bind fun _ => .ite
      (gives_bind fun _ => gives_pure same) (gives_pure same)) fun both same => ?_
  rw [← same] at start
  exact (anchored_declaration start).bind fun _ => total_pure.anchored

theorem anchored_outerDeclaration {state : FileState} :
    Anchored origin (outerDeclaration state) := by
  refine anchored_emptyPreface_bind fun preface start => total_current.bind_anchored fun _ => .ite
    (anchored_javadoc.bind fun _ => ?_) ?_
  all_goals
    exact total_pure.anchored.bind_gives (P := fun own => own.start = preface.start)
      (gives_pure rfl) fun own same => anchored_prefacedDeclaration (same ▸ start) _

/-- A file is read item by item, and each item begins behind the one before it. -/
theorem anchored_fileItem {state : FileState} : Anchored origin (fileItem state) :=
  total_skipWhitespace.bind_anchored fun _ => total_current.bind_anchored fun _ => .ite
    total_pure.anchored <| .ite (total_advance.bind fun _ => total_pure).anchored <| .ite
    (total_left.bind_anchored fun _ => anchored_comment.bind fun _ => total_pure.anchored) <|
    total_peek.bind_anchored fun _ => .ite
    (anchored_comment.bind fun _ => total_pure.anchored) <| .ite
    (anchored_packageStatement.bind fun _ => total_pure.anchored) <| .ite
    (anchored_importStatement.bind fun _ => total_pure.anchored)
    (anchored_outerDeclaration.bind fun _ => total_pure.anchored)

/-- The scope of a file opens at its first token, so that each of its failures is anchored there. -/
theorem anchored_compilationUnit : Anchored origin compilationUnit := by
  refine anchored_left_bind fun here start =>
    (Anchored.iterate fun _ => anchored_fileItem).bind fun state => ?_
  split
  · exact total_note.bind_anchored fun _ => anchored_fail_of start (by simp)
  · exact .ite_of (fun _ => .finish start (gives_pure (.attachFile _ _)) total_pure.anchored)
      fun misplaced => total_note.bind_anchored fun _ => anchored_fail_of start misplaced

end

end Reading

/-- Reading for a goal fails only with what begins behind the place where it begins itself, and
never without a reason. -/
theorem Goal.anchored (goal : Goal) (origin : List Token) :
    Reading.Anchored origin goal.entry.reading := by
  cases goal with
  | packageStatement => exact Reading.anchored_packageStatement.map
  | importStatement => exact Reading.anchored_importStatement.map
  | annotationUse => exact Reading.anchored_annotationUse.map
  | javadoc => exact Reading.anchored_javadoc.map
  | comment => exact Reading.anchored_comment.map
  | field => exact Reading.anchored_declarationAs.map
  | method => exact Reading.anchored_declarationAs.map
  | staticBlock => exact Reading.anchored_staticBlock.map
  | file => exact Reading.anchored_compilationUnit.map
  | member => exact Reading.anchored_member.map

end JavaUnit
