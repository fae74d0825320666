/-
Module: JavaUnit.Proofs.Routing
Purpose: Looking ahead for the kind of a declaration agrees with reading it. What stands in front of
  the name of a field or a method does not settle which of the two it is, and the token behind the
  name does, so whatever reads as a field is taken for a field, and likewise for methods. What stands
  behind the token that settles it is not looked at.
Main exports: Reading.LeavesOpen, Reading.classifyTarget_of_field, Reading.classifyTarget_of_method,
  classifyDeclaration_swap, declarations_routed
-/
import JavaUnit.Proofs.OpenComments

namespace JavaUnit

/-! ### Looking past a token -/

/-- Whether a token outside of angle brackets leaves it open what is declared. -/
def Kind.leavesOpen : Kind → Bool
  | .less | .openParen | .equals | .semicolon | .comma | .openBrace | .closeBrace | .eof => false
  | _ => true

theorem classifyDeclaration_cons {token : Token} (h : token.kind.leavesOpen = true)
    (rest : List Token) : classifyDeclaration 0 (token :: rest) = classifyDeclaration 0 rest := by
  cases token with
  | mk kind text => cases kind <;> first | rfl | cases h

/-- Trivia do not matter at any depth. -/
theorem classifyDeclaration_significantFrom (depth : Nat) (tokens : List Token) :
    classifyDeclaration depth (significantFrom 0 tokens) = classifyDeclaration depth tokens := by
  induction tokens with
  | nil => rfl
  | cons first others ih =>
      rw [significantFrom]
      by_cases trivia : first.isTrivia = true
      · rw [if_pos trivia, ih, classifyDeclaration]
        rcases Token.isTrivia_iff.1 trivia with blank | plain
        · simp_all [Token.isWhitespace]
        · rw [Token.isPlainComment, Bool.or_eq_true] at plain
          rcases plain with kind | kind <;> simp_all
      · rw [if_neg trivia, ite_self]

theorem Passes.classifyDeclaration_eq {tokens rest skipped : List Token} {token : Token}
    (h : Passes tokens token rest skipped) (depth : Nat) :
    classifyDeclaration depth tokens = classifyDeclaration depth (token :: rest) := by
  rw [← classifyDeclaration_significantFrom, h.significantFrom_zero]

theorem Passes.classifyDeclaration_of_leavesOpen {tokens rest skipped : List Token} {token : Token}
    (h : Passes tokens token rest skipped) (open_ : token.kind.leavesOpen = true) :
    classifyDeclaration 0 tokens = classifyDeclaration 0 rest := by
  rw [h.classifyDeclaration_eq, classifyDeclaration_cons open_]

/-- Inside angle brackets, looking ahead keeps count of them as reading does. -/
theorem classifyDeclaration_of_insideAngles {depth next : Nat} (nested : depth ≠ 0) {token : Token}
    (h : Reading.insideAngles depth token = some next) (rest : List Token) :
    next ≠ 0 ∧ classifyDeclaration depth (token :: rest) = classifyDeclaration next rest := by
  cases token with
  | mk kind text =>
      cases kind with
      | less =>
          cases h
          exact ⟨Nat.succ_ne_zero depth, rfl⟩
      | greater =>
          by_cases outermost : depth = 1
          · simp [Reading.insideAngles, outermost] at h
          · obtain rfl : depth - 1 = next := by simpa [Reading.insideAngles, outermost] using h
            exact ⟨by omega, rfl⟩
      | _ =>
          simp [Reading.insideAngles, Reading.endsAngleGroup] at h
          try (subst h; exact ⟨nested, by simp [classifyDeclaration, nested]⟩)

/-- From inside angle brackets the search goes on behind the one that closes the outermost. -/
theorem classifyDeclaration_scanTokens {depth : Nat} (nested : depth ≠ 0) {tokens : List Token}
    (closes : (currentToken (Reading.scanTokens Reading.insideAngles depth tokens).2).kind =
      .greater) :
    classifyDeclaration depth tokens =
      classifyDeclaration 0 (Reading.scanTokens Reading.insideAngles depth tokens).2.tail := by
  induction tokens generalizing depth with
  | nil => cases closes
  | cons first others ih =>
      rw [Reading.scanTokens] at closes ⊢
      split at closes
      · next ends => simp_all [currentToken, Token.isEnd]
      · next inside =>
          rw [if_neg inside]
          cases passes : Reading.insideAngles depth first with
          | none =>
              simp only [passes] at closes ⊢
              have kind : first.kind = .greater := closes
              have outermost : depth = 1 := by
                by_contra deeper
                simp [Reading.insideAngles, kind, deeper] at passes
              rw [classifyDeclaration, outermost]
              simp [kind]
          | some next =>
              simp only [passes] at closes ⊢
              obtain ⟨deep, same⟩ := classifyDeclaration_of_insideAngles nested passes others
              rw [same, ih deep closes]

namespace Reading

variable {tokens rest skipped : List Token} {scope : Scope}

/-! ### Readings that settle nothing -/

/-- What the reading passes over leaves it open what is declared. -/
def LeavesOpen (reading : Reading α) : Prop :=
  ∀ ⦃tokens value rest skipped⦄, reading.Reads tokens value rest skipped →
    classifyDeclaration 0 tokens = classifyDeclaration 0 rest

theorem LeavesOpen.bind {reading : Reading α} {next : α → Reading β} (h : LeavesOpen reading)
    (later : ∀ value, LeavesOpen (next value)) : LeavesOpen (reading >>= next) := by
  intro tokens result rest skipped reads
  obtain ⟨value, mid, first, second, one, two, -⟩ := reads_bind.1 reads
  exact (h one).trans (later value two)

theorem leavesOpen_pure (value : α) : LeavesOpen (pure value) := by
  intro tokens result rest skipped reads
  obtain ⟨-, rfl, -⟩ := reads_pure.1 reads
  rfl

theorem LeavesOpen.iterate {step : σ → Reading (Turn σ)} (h : ∀ state, LeavesOpen (step state))
    (state : σ) : LeavesOpen (Reading.iterate step state) := by
  intro tokens last rest skipped reads
  obtain ⟨before, mid, done, passed, same, -, ends⟩ := reads_iterate reads
    (fun _ here _ => classifyDeclaration 0 tokens = classifyDeclaration 0 here) rfl
    (fun same one => same.trans (h _ one))
  rcases ends with ends | ⟨ends, -⟩
  · exact same.trans (h _ ends)
  · exact same.trans (h _ ends)

theorem isEnd_eq_false_of_leavesOpen {token : Token} (h : token.kind.leavesOpen = true) :
    token.isEnd = false := by
  rw [Token.isEnd, decide_eq_false_iff_not]
  intro ends
  rw [ends] at h
  cases h

theorem classifyDeclaration_bump {token : Token}
    (leaves : (currentToken (significantFrom 0 tokens)).kind.leavesOpen = true)
    (h : bump.Reads tokens token rest skipped) :
    classifyDeclaration 0 tokens = classifyDeclaration 0 rest := by
  obtain ⟨mid, passed, passes⟩ := exists_passes (isEnd_eq_false_of_leavesOpen leaves)
  obtain ⟨rfl, rfl, rfl⟩ := (reads_bump passes).1 h
  exact passes.classifyDeclaration_of_leavesOpen leaves

theorem leavesOpen_identifier {what : Expectation} : LeavesOpen (identifier scope what) := by
  intro tokens text rest skipped reads
  obtain ⟨token, kind, -, passes⟩ := reads_identifier.1 reads
  exact passes.classifyDeclaration_of_leavesOpen (by rw [kind]; rfl)

theorem classifyDeclaration_angleGroup {group : List Token}
    (opens : (currentToken (significantFrom 0 tokens)).kind = .less)
    (h : (angleGroup scope).Reads tokens group rest skipped) :
    classifyDeclaration 0 tokens = classifyDeclaration 0 rest := by
  obtain ⟨token, mid, passed, kind, passes⟩ := exists_passes_of_kind opens (by decide)
  simp only [angleGroup, reads_bump_bind passes, reads_scan_bind, reads_skip_bind,
    reads_advance_bind, reads_ite, reads_pure, not_reads_fail, and_false, or_false] at h
  obtain ⟨_, ⟨_, ⟨closing, -, rfl, rfl⟩, rfl⟩, -⟩ := h
  have inside : (currentToken (scanTokens insideAngles 1 mid).2).isEnd = false := by
    simp [Token.isEnd, closing]
  rw [passes.classifyDeclaration_eq, if_neg (by simp [inside]),
    ← classifyDeclaration_scanTokens (by decide) closing, classifyDeclaration]
  simp [kind]

/-- Two tokens in a row that leave it open what is declared. -/
theorem classifyDeclaration_bump_bump {first second : Kind} {next : Token → Token → Reading α}
    {value : α} (is : (currentToken (significantFrom 0 tokens)).kind = first)
    (is' : (currentToken (significantFrom 1 tokens)).kind = second)
    (leaves : first.leavesOpen = true) (leaves' : second.leavesOpen = true)
    (later : ∀ token token', LeavesOpen (next token token'))
    (h : (bump >>= fun token => bump >>= next token).Reads tokens value rest skipped) :
    classifyDeclaration 0 tokens = classifyDeclaration 0 rest := by
  have inside : first ≠ .eof := by
    rintro rfl
    cases leaves
  have inside' : second ≠ .eof := by
    rintro rfl
    cases leaves'
  obtain ⟨token, mid, passed, token', mid', passed', kind, passes, kind', passes'⟩ :=
    exists_passes_of_kinds is is' inside inside'
  simp only [reads_bump_bind passes, reads_bump_bind passes'] at h
  obtain ⟨_, ⟨_, reads, -⟩, -⟩ := h
  rw [passes.classifyDeclaration_of_leavesOpen (by rw [kind, leaves]),
    passes'.classifyDeclaration_of_leavesOpen (by rw [kind', leaves']), later _ _ reads]

theorem leavesOpen_typePart (parts : List Token) : LeavesOpen (typePart scope parts) := by
  intro tokens turn rest skipped h
  simp only [typePart, reads_peek_bind, reads_ite] at h
  rcases h with ⟨⟨is, is'⟩ | ⟨is, is'⟩, h⟩ | ⟨-, ⟨opens, h⟩ | ⟨-, ⟨dots, h⟩ | ⟨-, h⟩⟩⟩
  · exact classifyDeclaration_bump_bump is is' rfl rfl (fun _ _ => leavesOpen_pure _) h
  · exact classifyDeclaration_bump_bump is is' rfl rfl (fun _ _ => leavesOpen_pure _) h
  · obtain ⟨group, mid, _, _, reads, ends, -⟩ := reads_bind.1 h
    rw [classifyDeclaration_angleGroup opens reads, leavesOpen_pure _ ends]
  · obtain ⟨token, mid, _, _, reads, ends, -⟩ := reads_bind.1 h
    rw [classifyDeclaration_bump (by rw [dots]; rfl) reads, leavesOpen_pure _ ends]
  · exact leavesOpen_pure _ h

theorem leavesOpen_of_startsType {token : Token} (h : startsType token = true) :
    token.kind.leavesOpen = true := by
  cases token with
  | mk kind text => cases kind <;> first | rfl | simp [startsType, Token.keyword?] at h

theorem leavesOpen_type : LeavesOpen (type scope) := by
  intro tokens text rest skipped h
  simp only [type, reads_skipTrivia_bind, reads_current_bind, reads_ite, reads_advance_bind,
    not_reads_unexpected, and_false, or_false] at h
  obtain ⟨later, ⟨starts, h⟩, -⟩ := h
  have leaves := leavesOpen_of_startsType starts
  obtain ⟨mid, passed, passes⟩ := exists_passes (isEnd_eq_false_of_leavesOpen leaves)
  rw [isEnd_eq_false_of_leavesOpen leaves, passes.significantFrom_zero] at h
  rw [passes.classifyDeclaration_of_leavesOpen leaves]
  exact ((LeavesOpen.iterate leavesOpen_typePart _).bind fun _ => leavesOpen_pure _) h

theorem startsType_of_type {text : Text} (h : (type scope).Reads tokens text rest skipped) :
    startsType (currentToken (significantFrom 0 tokens)) = true := by
  simp only [type, reads_skipTrivia_bind, reads_current_bind, reads_ite, reads_advance_bind,
    not_reads_unexpected, and_false, or_false] at h
  obtain ⟨later, ⟨starts, -⟩, -⟩ := h
  exact starts

theorem leavesOpen_arrayDims : LeavesOpen arrayDims := by
  refine .iterate (fun dims => ?_) []
  intro tokens turn rest skipped step
  simp only [reads_peek_bind, reads_ite] at step
  rcases step with ⟨⟨is, is'⟩, step⟩ | ⟨-, step⟩
  · exact classifyDeclaration_bump_bump is is' rfl rfl (fun _ _ => leavesOpen_pure _) step
  · exact leavesOpen_pure _ step

theorem leavesOpen_typeParameters : LeavesOpen (typeParameters scope) := by
  intro tokens parameters rest skipped h
  simp only [typeParameters, reads_peek_bind, reads_ite] at h
  rcases h with ⟨opens, h⟩ | ⟨-, h⟩
  · obtain ⟨group, mid, _, _, reads, ends, -⟩ := reads_bind.1 h
    rw [classifyDeclaration_angleGroup opens reads, leavesOpen_pure _ ends]
  · exact leavesOpen_pure _ h

theorem leavesOpen_returnType (draft : MethodDraft) : LeavesOpen (returnType scope draft) := by
  intro tokens next rest skipped h
  simp only [returnType, reads_peek_bind, reads_ite] at h
  rcases h with ⟨-, h⟩ | ⟨-, h⟩
  · exact leavesOpen_pure _ h
  · exact (leavesOpen_type.bind fun _ => leavesOpen_pure _) h

/-! ### What is declared -/

/-- A declaration that begins like a type is taken for what its later tokens settle. -/
theorem classifyTarget_of_startsType
    (h : startsType (currentToken (significantFrom 0 tokens)) = true) :
    classifyTarget tokens = classifyDeclaration 0 tokens := by
  rw [classifyTarget]
  cases next : currentToken (significantFrom 0 tokens) with
  | mk kind text =>
      rw [next] at h
      cases kind with
      | identifier => exact classifyDeclaration_significantFrom 0 tokens
      | keyword word =>
          have type : word.isType = true := by simpa [startsType, Token.keyword?] using h
          rw [← classifyDeclaration_significantFrom 0 tokens]
          cases word <;> first | rfl | cases type
      | _ => simp [startsType, Token.keyword?] at h

theorem classifyTarget_of_less
    (h : (currentToken (significantFrom 0 tokens)).kind = .less) :
    classifyTarget tokens = classifyDeclaration 0 tokens := by
  rw [classifyTarget, h, classifyDeclaration_significantFrom]

theorem classifyTarget_of_class
    (h : (currentToken (significantFrom 0 tokens)).kind = .keyword .class ∨
      (currentToken (significantFrom 0 tokens)).kind = .keyword .interface) :
    classifyTarget tokens = some .classDecl := by
  rw [classifyTarget]
  rcases h with kind | kind <;> rw [kind]

/-- The next token settles it. -/
theorem classifyDeclaration_of_kind {kind : Kind} {declared : DeclarationKind}
    (next : (currentToken (significantFrom 0 tokens)).kind = kind) (inside : kind ≠ .eof)
    (settles : ∀ text rest, classifyDeclaration 0 (⟨kind, text⟩ :: rest) = some declared) :
    classifyDeclaration 0 tokens = some declared := by
  obtain ⟨token, mid, passed, rfl, passes⟩ := exists_passes_of_kind next inside
  rw [passes.classifyDeclaration_eq]
  exact settles token.text mid

/-- Whatever reads as a field is taken for a field. -/
theorem classifyTarget_of_field {preface : Preface} {node : Field}
    (h : (field preface).Reads tokens node rest skipped) : classifyTarget tokens = some .field := by
  simp only [field, reads_finish, reads_bind_nil] at h
  obtain ⟨-, attempt, ⟨type, first, typed, name, second, named, dims, third, sized, _, fourth,
    trivia, next, _, here, settled⟩, -⟩ := h
  rw [classifyTarget_of_startsType (startsType_of_type typed), leavesOpen_type typed,
    leavesOpen_identifier named, leavesOpen_arrayDims sized]
  obtain ⟨rfl, -⟩ := reads_skipTrivia.1 trivia
  obtain ⟨rfl, -, -⟩ := reads_current.1 here
  simp only [reads_ite, not_reads_fail_bind, not_reads_unexpected_bind, and_false, or_false]
    at settled
  rcases settled with ⟨semicolon, -⟩ | ⟨-, equals, -⟩
  · exact classifyDeclaration_of_kind semicolon (by decide) fun _ _ => rfl
  · exact classifyDeclaration_of_kind equals (by decide) fun _ _ => rfl

/-- What stands in front of the name of a method is looked past. -/
theorem classifyTarget_of_returnType {first second : List Token} {parameters : Option Text}
    {draft result : MethodDraft} (h : (typeParameters scope).Reads tokens parameters first [])
    (h' : (returnType scope draft).Reads first result second []) :
    classifyTarget tokens = classifyDeclaration 0 tokens := by
  simp only [typeParameters, reads_peek_bind, reads_ite, reads_pure] at h
  rcases h with ⟨less, -⟩ | ⟨-, -, rfl, -⟩
  · exact classifyTarget_of_less less
  · simp only [returnType, reads_peek_bind, reads_ite] at h'
    rcases h' with ⟨⟨name, -⟩, -⟩ | ⟨-, h'⟩
    · exact classifyTarget_of_startsType (by simp [startsType, name])
    · obtain ⟨type, mid, typed, -⟩ := reads_bind_nil.1 h'
      exact classifyTarget_of_startsType (startsType_of_type typed)

/-- Whatever reads as a method is taken for a method. -/
theorem classifyTarget_of_method {preface : Preface} {node : Method}
    (h : (method preface).Reads tokens node rest skipped) :
    classifyTarget tokens = some .method := by
  simp only [method, reads_finish, reads_bind_nil] at h
  obtain ⟨-, attempt, ⟨parameters, first, angled, draft, second, typed, name, third, named,
    list, fourth, listed, -⟩, -⟩ := h
  rw [classifyTarget_of_returnType angled typed, leavesOpen_typeParameters angled,
    leavesOpen_returnType _ typed, leavesOpen_identifier named]
  rw [Reading.parameters, reads_expect_bind .openParen (by decide)] at listed
  obtain ⟨token, _, _, _, kind, passes, -⟩ := listed
  rw [passes.classifyDeclaration_eq, classifyDeclaration]
  simp [kind]

end Reading

/-! ### The token that settles it -/

/-- Whether a token settles, where `depth` angle brackets are open, what is declared or that nothing
is. -/
def Kind.settles (depth : Nat) (kind : Kind) : Bool :=
  kind ∈ [.openBrace, .closeBrace, .eof]
    || depth = 0 && kind ∈ [.openParen, .equals, .semicolon, .comma]

/-- The number of angle brackets that are open behind some tokens, `depth` of them in front. One that
closes nothing does not count. -/
def anglesOpen (depth : Nat) : List Token → Nat
  | [] => depth
  | token :: rest =>
    if token.kind = .less then anglesOpen (depth + 1) rest
    else if token.kind = .greater then anglesOpen (depth - 1) rest
    else anglesOpen depth rest

/-- A token that settles it is the last one looked at. -/
theorem classifyDeclaration_of_settles {depth : Nat} {token : Token}
    (settles : token.kind.settles depth = true) (rest rest' : List Token) :
    classifyDeclaration depth (token :: rest) = classifyDeclaration depth (token :: rest') := by
  cases token with
  | mk kind text => cases kind <;> simp_all [Kind.settles, classifyDeclaration]

/-- Any other token is passed over, and its brackets are counted. -/
theorem classifyDeclaration_of_not_settles {depth : Nat} {token : Token}
    (leaves : token.kind.settles depth = false) (rest : List Token) :
    classifyDeclaration depth (token :: rest) =
      classifyDeclaration (anglesOpen depth [token]) rest := by
  cases token with
  | mk kind text => cases kind <;> simp_all [Kind.settles, classifyDeclaration, anglesOpen]

theorem anglesOpen_cons (depth : Nat) (token : Token) (rest : List Token) :
    anglesOpen depth (token :: rest) = anglesOpen (anglesOpen depth [token]) rest := by
  simp only [anglesOpen]
  split
  · rfl
  · split <;> rfl

/-- What stands behind a token that settles it does not matter. -/
theorem classifyDeclaration_swap {depth : Nat} {front : List Token} {token : Token}
    (settles : token.kind.settles (anglesOpen depth front) = true) (rest rest' : List Token) :
    classifyDeclaration depth (front ++ token :: rest) =
      classifyDeclaration depth (front ++ token :: rest') := by
  induction front generalizing depth with
  | nil => exact classifyDeclaration_of_settles settles rest rest'
  | cons first others ih =>
      rw [List.cons_append, List.cons_append]
      cases leaves : first.kind.settles depth with
      | true => exact classifyDeclaration_of_settles leaves _ _
      | false =>
          rw [anglesOpen_cons] at settles
          rw [classifyDeclaration_of_not_settles leaves, classifyDeclaration_of_not_settles leaves,
            ih settles]

/-- Declarations are told apart as they are read: what reads as a field is taken for a field, what
reads as a method for a method, so nothing reads as both; and nothing behind the token that settles
it has a say. -/
theorem declarations_routed (tokens : List Token) :
    (∀ preface node rest skipped, (Reading.field preface).Reads tokens node rest skipped →
      classifyTarget tokens = some .field) ∧
    (∀ preface node rest skipped, (Reading.method preface).Reads tokens node rest skipped →
      classifyTarget tokens = some .method) ∧
    (∀ preface preface' node node' rest rest' skipped skipped',
      ¬ ((Reading.field preface).Reads tokens node rest skipped ∧
        (Reading.method preface').Reads tokens node' rest' skipped')) ∧
    ∀ front token rest rest', tokens = front ++ token :: rest →
      token.kind.settles (anglesOpen 0 front) = true →
      classifyDeclaration 0 (front ++ token :: rest') = classifyDeclaration 0 tokens := by
  refine ⟨fun _ _ _ _ => Reading.classifyTarget_of_field,
    fun _ _ _ _ => Reading.classifyTarget_of_method, ?_, ?_⟩
  · rintro preface preface' node node' rest rest' skipped skipped' ⟨field, method⟩
    have both := (Reading.classifyTarget_of_field field).symm.trans
      (Reading.classifyTarget_of_method method)
    cases both
  · rintro front token rest rest' rfl settles
    exact classifyDeclaration_swap settles rest' rest

/-- The tokens of a field; its equals sign is the eleventh of them. -/
def routedField : List Token :=
  (lex "Map<K,List<?>>x=f(1);".toList).toOption.getD []

/-- The tokens of a method whose types hold commas, too. -/
def routedMethod : List Token :=
  (lex "<A extends B<A, C>> Map<K, V>[] f(int a, B... b) throws D;".toList).toOption.getD []

/-- Both are told apart from each other, the field even if a method goes on behind its equals
sign. -/
theorem declarations_routed_generic :
    (∃ node rest skipped,
      (Reading.field { start := routedField }).Reads routedField node rest skipped) ∧
    classifyTarget routedField = some .field ∧
    (∃ node rest skipped,
      (Reading.method { start := routedMethod }).Reads routedMethod node rest skipped) ∧
    classifyTarget routedMethod = some .method ∧
    classifyDeclaration 0 (routedField.take 10 ++ ⟨.equals, ['=']⟩ :: routedMethod) =
      classifyDeclaration 0 routedField := by
  have field : ((Entry.read ⟨.node .field, .field { start := routedField }⟩
      routedField).toOption.map fun _ => ()) = some () := by decide +kernel
  have method : ((Entry.read ⟨.node .method, .method { start := routedMethod }⟩
      routedMethod).toOption.map fun _ => ()) = some () := by decide +kernel
  obtain ⟨⟨node, rest⟩, is, -⟩ := Option.map_eq_some_iff.1 field
  obtain ⟨⟨node', rest'⟩, is', -⟩ := Option.map_eq_some_iff.1 method
  obtain ⟨skipped, reads⟩ := Entry.read_eq_ok_iff.1 (eq_ok_of_toOption is)
  obtain ⟨skipped', reads'⟩ := Entry.read_eq_ok_iff.1 (eq_ok_of_toOption is')
  have split : routedField =
      routedField.take 10 ++ ⟨.equals, ['=']⟩ :: routedField.drop 11 := by decide +kernel
  exact ⟨⟨node, rest, skipped, reads⟩, (declarations_routed routedField).1 _ _ _ _ reads,
    ⟨node', rest', skipped', reads'⟩, (declarations_routed routedMethod).2.1 _ _ _ _ reads',
    (declarations_routed routedField).2.2.2 _ _ _ routedMethod split (by decide +kernel)⟩

end JavaUnit
