/-
Module: JavaUnit.Proofs.Steady
Purpose: How far readings look ahead. What is read inside of a statement does not depend on what
  stands behind the semicolon or the brace that ends the statement, and a reading that passes over
  such a token last stops there whatever follows. Both are relations between two readings, in front
  of two rows of tokens, that are preserved by the ways in which readings are put together; the two
  readings may differ in the place they report failures from.
Main exports: Token.closes, Closed, Reading.Steady, Reading.Ends, Steady.bind, Steady.ends,
  Steady.iterate, Ends.iterate
-/
import JavaUnit.Proofs.Takes

namespace JavaUnit

/-! ### The end of a statement -/

/-- Whether a token ends a statement, a body, the head of a body or one of the things in
parentheses. -/
def Token.closes (token : Token) : Bool :=
  token.kind ∈ [.semicolon, .closeBrace, .openBrace, .closeParen, .comma]

/-- What ends a statement, a block or a list of arguments, or separates two of them. -/
theorem Token.closes_iff {token : Token} :
    token.closes = true ↔ token.kind = .semicolon ∨ token.kind = .closeBrace ∨
      token.kind = .openBrace ∨ token.kind = .closeParen ∨ token.kind = .comma := by
  simp [closes]

theorem Token.closes_eq_false_of_isTrivia {token : Token} (h : token.isTrivia = true) :
    token.closes = false := by
  rw [Bool.eq_false_iff, ne_eq, closes_iff]
  rintro (kind | kind | kind | kind | kind) <;>
    simp [isTrivia, isWhitespace, isPlainComment, kind] at h

/-- Tokens the last of which ends what stands in front of it. -/
def Closed (tokens : List Token) : Prop :=
  tokens.getLast?.any Token.closes = true

namespace Closed

variable {tokens later : List Token}

/-- Only the last token has to close. -/
theorem append (earlier : List Token) (h : Closed later) : Closed (earlier ++ later) := by
  rw [Closed, List.getLast?_append]
  cases last : later.getLast? with
  | none => simp [Closed, last] at h
  | some token => rwa [Closed, last] at h

theorem any (h : Closed tokens) : tokens.any Token.closes = true := by
  obtain ⟨token, last, closes⟩ := (Option.any_eq_true _ _).1 h
  exact List.any_eq_true.2 ⟨token, List.mem_of_getLast? last, closes⟩

theorem ne_nil (h : Closed tokens) : tokens ≠ [] := by
  rintro rfl
  cases h

theorem singleton {token : Token} (h : token.closes = true) : Closed [token] := h

end Closed

/-! ### Looking ahead -/

theorem currentToken_append {front : List Token} (present : front ≠ []) (behind : List Token) :
    currentToken (front ++ behind) = currentToken front := by
  cases front with
  | nil => exact absurd rfl present
  | cons => rfl

theorem ne_nil_of_any {front : List Token} (h : front.any Token.closes = true) : front ≠ [] := by
  rintro rfl
  cases h

/-- Up to the end of a statement, looking ahead sees the same whatever stands behind it. -/
theorem peek_append {front : List Token} (h : front.any Token.closes = true) :
    ∃ first, (∀ behind, currentToken (significantFrom 0 (front ++ behind)) = first) ∧
      (first.closes = false →
        ∃ second, ∀ behind, currentToken (significantFrom 1 (front ++ behind)) = second) := by
  have zero : ∀ {front : List Token}, front.any Token.closes = true →
      ∃ first, ∀ behind, currentToken (significantFrom 0 (front ++ behind)) = first := by
    intro front h
    induction front with
    | nil => cases h
    | cons token others ih =>
        by_cases trivia : token.isTrivia = true
        · rw [List.any_cons, Token.closes_eq_false_of_isTrivia trivia, Bool.false_or] at h
          obtain ⟨first, same⟩ := ih h
          refine ⟨first, fun behind => ?_⟩
          rw [List.cons_append, significantFrom, if_pos trivia, same]
        · refine ⟨token, fun behind => ?_⟩
          rw [List.cons_append, significantFrom, if_neg trivia, ite_self]
          rfl
  induction front with
  | nil => cases h
  | cons token others ih =>
      by_cases trivia : token.isTrivia = true
      · rw [List.any_cons, Token.closes_eq_false_of_isTrivia trivia, Bool.false_or] at h
        simpa [significantFrom, trivia] using ih h
      · refine ⟨token, fun behind => ?_, fun open_ => ?_⟩
        · rw [List.cons_append, significantFrom, if_neg trivia, ite_self]
          rfl
        · rw [List.any_cons, open_, Bool.false_or] at h
          obtain ⟨second, same⟩ := zero h
          by_cases ends : token.isEnd = true
          · exact ⟨token, fun behind => by simp [significantFrom, trivia, ends, currentToken]⟩
          · exact ⟨second, fun behind => by simp [significantFrom, trivia, ends, same]⟩

namespace Passes

variable {tokens front mid rest skipped x : List Token} {token : Token}

/-- What is passed over does not depend on what follows. -/
theorem exists_lead (h : Passes tokens token rest skipped) :
    ∃ lead, tokens = lead ++ token :: rest ∧
      ∀ rest', Passes (lead ++ token :: rest') token rest' skipped := by
  induction h with
  | token matters inside => exact ⟨[], rfl, fun _ => .token matters inside⟩
  | @whitespace first _ _ _ _ blank _ ih =>
      obtain ⟨lead, rfl, anywhere⟩ := ih
      exact ⟨first :: lead, rfl, fun rest' => .whitespace blank (anywhere rest')⟩
  | @comment first _ _ _ _ plain _ ih =>
      obtain ⟨lead, rfl, anywhere⟩ := ih
      exact ⟨first :: lead, rfl, fun rest' => .comment plain (anywhere rest')⟩

/-- A token is passed whatever stands behind what is read further on. -/
theorem swap_of (h : Passes (front ++ x) token mid skipped) (moved : Advances mid x) :
    ∃ lead more, front = lead ++ token :: more ∧ mid = more ++ x ∧
      ∀ y, Passes (front ++ y) token (more ++ y) skipped := by
  obtain ⟨more, rfl, -⟩ := moved
  obtain ⟨lead, split, anywhere⟩ := h.exists_lead
  rw [← List.cons_append, ← List.append_assoc, List.append_cancel_right_eq] at split
  subst split
  exact ⟨lead, more, rfl, rfl, fun y => by simpa using anywhere (more ++ y)⟩

end Passes

namespace Reading

/-- A scan that stops at a token stops there whatever stands behind it. -/
theorem scanTokens_swap {verdict : σ → Token → Option σ} {state : σ} {front : List Token}
    {token : Token} {rest : List Token}
    (h : scanTokens verdict state (front ++ token :: rest) = (front, token :: rest))
    (rest' : List Token) :
    scanTokens verdict state (front ++ token :: rest') = (front, token :: rest') := by
  induction front generalizing state with
  | nil =>
      rw [List.nil_append, scanTokens] at h ⊢
      split at h
      · next ends => rw [if_pos ends]
      · next inside =>
          rw [if_neg inside]
          split at h
          · next stops => rfl
          · simp at h
  | cons first others ih =>
      rw [List.cons_append, scanTokens] at h ⊢
      split at h
      · simp at h
      · next inside =>
          rw [if_neg inside]
          split at h
          · simp at h
          · next state' passes =>
              simp only [Prod.mk.injEq, List.cons.injEq, true_and] at h
              simp only [ih (Prod.ext h.1 h.2)]

/-- A scan stops at the end of the input or where its verdict says so. -/
theorem scanTokens_stop {verdict : σ → Token → Option σ} {state : σ} {tokens : List Token}
    (inside : (currentToken (scanTokens verdict state tokens).2).isEnd = false) :
    ∃ state', verdict state' (currentToken (scanTokens verdict state tokens).2) = none := by
  induction tokens generalizing state with
  | nil => cases inside
  | cons first others ih =>
      rw [scanTokens] at inside ⊢
      split at inside
      · next ends => simp [currentToken, ends] at inside
      · next within =>
          rw [if_neg within]
          split at inside
          · next stops => exact ⟨state, stops⟩
          · next state' passes => exact ih inside

/-! ### Two readings side by side -/

/-- What `left` reads in front of `x`, `right` reads alike in front of `y`, as long as the statement
they read from is not ended yet. -/
def Steady (x y : List Token) (R : α → β → Prop) (left : Reading α) (right : Reading β) : Prop :=
  ∀ ⦃front back value skipped⦄, back.any Token.closes = true →
    left.Reads (front ++ (back ++ x)) value (back ++ x) skipped →
    ∃ value', R value value' ∧ right.Reads (front ++ (back ++ y)) value' (back ++ y) skipped

/-- What `left` reads in front of `x`, `right` reads alike in front of `y`, since either passes over
the end of a statement last. -/
def Ends (x y : List Token) (R : α → β → Prop) (left : Reading α) (right : Reading β) : Prop :=
  ∀ ⦃front back value skipped⦄, left.Reads (front ++ (back ++ x)) value (back ++ x) skipped →
    Closed front ∧
      ∃ value', R value value' ∧ right.Reads (front ++ (back ++ y)) value' (back ++ y) skipped

/-- The same, in front of a given token. -/
def EndsAt (x y : List Token) (token : Token) (R : α → β → Prop) (left : Reading α)
    (right : Reading β) : Prop :=
  ∀ ⦃front back value skipped⦄, currentToken (front ++ (back ++ x)) = token →
    left.Reads (front ++ (back ++ x)) value (back ++ x) skipped →
    Closed front ∧
      ∃ value', R value value' ∧ right.Reads (front ++ (back ++ y)) value' (back ++ y) skipped

variable {x y : List Token} {R : α → β → Prop} {S : γ → δ → Prop} {left : Reading α}
  {right : Reading β} {next : α → Reading γ} {next' : β → Reading δ}

theorem Ends.steady (h : Ends x y R left right) : Steady x y R left right :=
  fun _ _ _ _ _ reads => (h reads).2

theorem Ends.at (h : Ends x y R left right) (token : Token) : EndsAt x y token R left right :=
  fun _ _ _ _ _ reads => h reads

/-! ### Readings that pass over nothing -/

/-- Nothing is looked at. -/
theorem steady_pure {value : α} {value' : β} (h : R value value') :
    Steady x y R (pure value) (pure value') := by
  intro front back result skipped _ reads
  obtain ⟨rfl, same, rfl⟩ := reads_pure.1 reads
  obtain rfl := List.self_eq_append_left.1 same
  exact ⟨value', h, reads_pure.2 ⟨rfl, rfl, rfl⟩⟩

theorem steady_note {events events' : List Event} : Steady x y Eq (note events) (note events') := by
  intro front back result skipped _ reads
  obtain ⟨same, rfl⟩ := reads_note.1 reads
  obtain rfl := List.self_eq_append_left.1 same
  exact ⟨(), rfl, reads_note.2 ⟨rfl, rfl⟩⟩

theorem steady_fail {scope : Scope} {defects : List Defect} :
    Steady x y R (fail scope defects : Reading α) right :=
  fun _ _ _ _ _ reads => absurd reads not_reads_fail

theorem steady_fail_bind {scope : Scope} {defects : List Defect} {next : γ → Reading α} :
    Steady x y R (fail scope defects >>= next) right :=
  fun _ _ _ _ _ reads => absurd reads not_reads_fail_bind

theorem steady_unexpected {scope : Scope} {what : Expectation} :
    Steady x y R (unexpected scope what : Reading α) right :=
  fun _ _ _ _ _ reads => absurd reads not_reads_unexpected

/-- The places differ. -/
theorem steady_left : Steady x y (fun _ _ => True) Reading.left Reading.left := by
  intro front back result skipped _ reads
  obtain ⟨rfl, same, rfl⟩ := reads_left.1 reads
  obtain rfl := List.self_eq_append_left.1 same
  exact ⟨_, trivial, reads_left.2 ⟨rfl, rfl, rfl⟩⟩

theorem steady_skip {comments : List Token} : Steady x y Eq (skip comments) (skip comments) := by
  intro front back result skipped _ reads
  obtain ⟨same, rfl⟩ := reads_skip.1 reads
  obtain rfl := List.self_eq_append_left.1 same
  exact ⟨(), rfl, reads_skip.2 ⟨rfl, rfl⟩⟩

theorem ends_fail {scope : Scope} {defects : List Defect} :
    Ends x y R (fail scope defects : Reading α) right :=
  fun _ _ _ _ reads => absurd reads not_reads_fail

theorem ends_fail_bind {scope : Scope} {defects : List Defect} {next : γ → Reading α} :
    Ends x y R (fail scope defects >>= next) right :=
  fun _ _ _ _ reads => absurd reads not_reads_fail_bind

theorem ends_unexpected_bind {scope : Scope} {what : Expectation} {next : γ → Reading α} :
    Ends x y R (unexpected scope what >>= next) right :=
  fun _ _ _ _ reads => absurd reads not_reads_unexpected_bind

theorem ends_unexpected {scope : Scope} {what : Expectation} :
    Ends x y R (unexpected scope what : Reading α) right :=
  fun _ _ _ _ reads => absurd reads not_reads_unexpected

/-! ### Choices -/

theorem Steady.ite {condition : Prop} [Decidable condition] {left₂ : Reading α}
    {right₂ : Reading β} (h : condition → Steady x y R left right)
    (h₂ : ¬ condition → Steady x y R left₂ right₂) :
    Steady x y R (if condition then left else left₂) (if condition then right else right₂) := by
  by_cases holds : condition
  · simpa only [if_pos holds] using h holds
  · simpa only [if_neg holds] using h₂ holds

theorem Ends.ite {condition : Prop} [Decidable condition] {left₂ : Reading α} {right₂ : Reading β}
    (h : condition → Ends x y R left right) (h₂ : ¬ condition → Ends x y R left₂ right₂) :
    Ends x y R (if condition then left else left₂) (if condition then right else right₂) := by
  by_cases holds : condition
  · simpa only [if_pos holds] using h holds
  · simpa only [if_neg holds] using h₂ holds

theorem EndsAt.ite {condition : Prop} [Decidable condition] {token : Token} {left₂ : Reading α}
    {right₂ : Reading β} (h : condition → EndsAt x y token R left right)
    (h₂ : ¬ condition → EndsAt x y token R left₂ right₂) :
    EndsAt x y token R (if condition then left else left₂)
      (if condition then right else right₂) := by
  by_cases holds : condition
  · simpa only [if_pos holds] using h holds
  · simpa only [if_neg holds] using h₂ holds

/-! ### One reading after another -/

/-- What two readings one after the other pass over in front of `rest`. -/
theorem exists_steps {first : Reading α} {second : Reading γ} {value : α} {result : γ}
    {front mid rest skipped skipped' : List Token}
    (reads : first.Reads (front ++ rest) value mid skipped)
    (later : second.Reads mid result rest skipped') :
    ∃ passed more, front = passed ++ more ∧ mid = more ++ rest := by
  obtain ⟨passed, split, -⟩ := reads.advances
  obtain ⟨more, rfl, -⟩ := later.advances
  rw [← List.append_assoc, List.append_cancel_right_eq] at split
  exact ⟨passed, more, split, rfl⟩

/-- Readings in a row look no further than the one that looks furthest. -/
theorem Steady.bind_of (h : Steady x y R left right)
    (later : ∀ value value', R value value' → Steady x y S (next value) (next' value')) :
    Steady x y S (left >>= next) (right >>= next') := by
  intro front back result skipped closes reads
  obtain ⟨value, mid, first, second, one, two, rfl⟩ := reads_bind.1 reads
  obtain ⟨passed, more, rfl, rfl⟩ := exists_steps one two
  rw [List.append_assoc, ← List.append_assoc more] at one
  obtain ⟨value', related, one'⟩ := h (by simp [closes]) one
  obtain ⟨result', related', two'⟩ := later value value' related closes two
  refine ⟨result', related', reads_bind.2 ⟨value', _, first, second, ?_, two', rfl⟩⟩
  rwa [List.append_assoc, ← List.append_assoc more]

/-- In front of a reading that passes over the end of the statement, a reading is inside of it. -/
theorem Steady.ends_of (h : Steady x y R left right) (total : ∀ value, ∃ value', R value value')
    (later : ∀ value value', R value value' → Ends x y S (next value) (next' value')) :
    Ends x y S (left >>= next) (right >>= next') := by
  intro front back result skipped reads
  obtain ⟨value, mid, first, second, one, two, rfl⟩ := reads_bind.1 reads
  obtain ⟨passed, more, rfl, rfl⟩ := exists_steps one two
  have closed : Closed more := by
    obtain ⟨value', related⟩ := total value
    exact (later value value' related two).1
  rw [List.append_assoc, ← List.append_assoc more] at one
  obtain ⟨value', related, one'⟩ := h (by simp [closed.any]) one
  obtain ⟨-, result', related', two'⟩ := later value value' related two
  refine ⟨closed.append passed, result', related',
    reads_bind.2 ⟨value', _, first, second, ?_, two', rfl⟩⟩
  rwa [List.append_assoc, ← List.append_assoc more]

section

variable {left right : Reading α} {next : α → Reading γ} {next' : α → Reading δ}

theorem Steady.bind (h : Steady x y Eq left right)
    (later : ∀ value, Steady x y S (next value) (next' value)) :
    Steady x y S (left >>= next) (right >>= next') :=
  h.bind_of (by rintro value _ rfl; exact later value)

theorem Steady.ends (h : Steady x y Eq left right)
    (later : ∀ value, Ends x y S (next value) (next' value)) :
    Ends x y S (left >>= next) (right >>= next') :=
  h.ends_of (fun value => ⟨value, rfl⟩) (by rintro value _ rfl; exact later value)

end

/-- A reading that is made under a condition only, in front of another one. -/
theorem Ends.when {condition : Prop} [Decidable condition] {left right : Reading α}
    {behind : Reading γ} {behind' : Reading δ} (h : Steady x y Eq left right)
    (later : Ends x y S behind behind') :
    Ends x y S (if condition then left >>= fun _ => behind else behind)
      (if condition then right >>= fun _ => behind' else behind') :=
  .ite (fun _ => h.ends fun _ => later) fun _ => later

/-- Behind the end of the statement, nothing more is looked at. -/
theorem EndsAt.pure {token : Token} {f : α → γ} {g : β → δ} (h : EndsAt x y token R left right)
    (related : ∀ value value', R value value' → S (f value) (g value')) :
    EndsAt x y token S (left >>= fun value => Pure.pure (f value))
      (right >>= fun value => Pure.pure (g value)) := by
  intro front back result skipped at_ reads
  obtain ⟨value, mid, first, second, one, two, rfl⟩ := reads_bind.1 reads
  obtain ⟨rfl, rfl, rfl⟩ := reads_pure.1 two
  obtain ⟨closed, value', same, one'⟩ := h at_ one
  exact ⟨closed, g value', related _ _ same,
    reads_bind.2 ⟨value', _, first, [], one', reads_pure.2 ⟨rfl, rfl, rfl⟩, rfl⟩⟩

theorem Ends.pure {f : α → γ} {g : β → δ} (h : Ends x y R left right)
    (related : ∀ value value', R value value' → S (f value) (g value')) :
    Ends x y S (left >>= fun value => Pure.pure (f value))
      (right >>= fun value => Pure.pure (g value)) :=
  fun _ _ _ _ reads => (h.at _).pure related rfl reads

/-! ### Looking ahead -/

theorem currentToken_of_closes {front back : List Token} (closes : back.any Token.closes = true)
    (behind : List Token) :
    currentToken (front ++ (back ++ behind)) = currentToken (front ++ back) := by
  rw [← List.append_assoc, currentToken_append]
  exact List.append_ne_nil_of_right_ne_nil _ (ne_nil_of_any closes)

theorem Steady.current {next : Token → Reading γ} {next' : Token → Reading δ}
    (h : ∀ token, Steady x y S (next token) (next' token)) :
    Steady x y S (current >>= next) (current >>= next') := by
  intro front back result skipped closes reads
  rw [reads_current_bind, currentToken_of_closes closes] at reads
  obtain ⟨result', related, reads'⟩ := h _ closes reads
  exact ⟨result', related, reads_current_bind.2 (by rwa [currentToken_of_closes closes])⟩

theorem Ends.current {next : Token → Reading γ} {next' : Token → Reading δ}
    (h : ∀ token, EndsAt x y token S (next token) (next' token)) :
    Ends x y S (current >>= next) (current >>= next') := by
  intro front back result skipped reads
  rw [reads_current_bind] at reads
  obtain ⟨closed, result', related, reads'⟩ := h _ rfl reads
  refine ⟨closed, result', related, reads_current_bind.2 ?_⟩
  rw [currentToken_append closed.ne_nil] at reads' ⊢
  exact reads'

theorem EndsAt.current {next : Token → Reading γ} {next' : Token → Reading δ} {token : Token}
    (h : EndsAt x y token S (next token) (next' token)) :
    EndsAt x y token S (Reading.current >>= next) (Reading.current >>= next') := by
  intro front back result skipped at_ reads
  rw [reads_current_bind, at_] at reads
  obtain ⟨closed, result', related, reads'⟩ := h at_ reads
  refine ⟨closed, result', related, reads_current_bind.2 ?_⟩
  rw [currentToken_append closed.ne_nil] at at_ ⊢
  rwa [at_]

/-- The next token that matters is seen in front of the token that closes, or is that token. -/
theorem Steady.peek {next : Token → Reading γ} {next' : Token → Reading δ}
    (h : ∀ token, Steady x y S (next token) (next' token)) :
    Steady x y S (peek 0 >>= next) (peek 0 >>= next') := by
  intro front back result skipped closes reads
  have ahead : (front ++ back).any Token.closes = true := by simp [closes]
  obtain ⟨token, same, -⟩ := peek_append ahead
  rw [reads_peek_bind, ← List.append_assoc, same, List.append_assoc] at reads
  obtain ⟨result', related, reads'⟩ := h token closes reads
  refine ⟨result', related, reads_peek_bind.2 ?_⟩
  rwa [← List.append_assoc, same, List.append_assoc]

theorem Ends.peek {next : Token → Reading γ} {next' : Token → Reading δ}
    (h : ∀ token, Ends x y S (next token) (next' token)) :
    Ends x y S (Reading.peek 0 >>= next) (Reading.peek 0 >>= next') := by
  intro front back result skipped reads
  rw [reads_peek_bind] at reads
  obtain ⟨closed, result', related, reads'⟩ := h _ reads
  obtain ⟨token, same, -⟩ := peek_append closed.any
  refine ⟨closed, result', related, reads_peek_bind.2 ?_⟩
  rw [same] at reads' ⊢
  exact reads'

/-- The second token ahead does not matter where the first one ends the statement. -/
theorem Steady.peekTwo {next : Token → Token → Reading γ} {next' : Token → Token → Reading δ}
    (stops : ∀ {token}, token.closes = true →
      ∀ second second', next token second = next token second')
    (h : ∀ token second, Steady x y S (next token second) (next' token second)) :
    Steady x y S (Reading.peek 0 >>= fun token => Reading.peek 1 >>= next token)
      (Reading.peek 0 >>= fun token => Reading.peek 1 >>= next' token) := by
  intro front back result skipped closes reads
  have ahead : (front ++ back).any Token.closes = true := by simp [closes]
  obtain ⟨token, same, second⟩ := peek_append ahead
  simp only [reads_peek_bind, ← List.append_assoc, same] at reads ⊢
  have seen : next token (currentToken (significantFrom 1 (front ++ back ++ x))) =
      next token (currentToken (significantFrom 1 (front ++ back ++ y))) := by
    by_cases ends : token.closes = true
    · exact stops ends _ _
    · obtain ⟨other, same'⟩ := second (by simpa using ends)
      rw [same', same']
  rw [seen, List.append_assoc] at reads
  rw [List.append_assoc] at reads ⊢
  exact h _ _ closes reads

theorem Ends.peekTwo {next : Token → Token → Reading γ} {next' : Token → Token → Reading δ}
    (stops : ∀ {token}, token.closes = true →
      ∀ second second', next' token second = next' token second')
    (h : ∀ token second, Ends x y S (next token second) (next' token second)) :
    Ends x y S (Reading.peek 0 >>= fun token => Reading.peek 1 >>= next token)
      (Reading.peek 0 >>= fun token => Reading.peek 1 >>= next' token) := by
  intro front back result skipped reads
  simp only [reads_peek_bind] at reads
  obtain ⟨closed, result', related, reads'⟩ := h _ _ reads
  obtain ⟨token, same, second⟩ := peek_append closed.any
  have seen : next' token (currentToken (significantFrom 1 (front ++ (back ++ x)))) =
      next' token (currentToken (significantFrom 1 (front ++ (back ++ y)))) := by
    by_cases ends : token.closes = true
    · exact stops ends _ _
    · obtain ⟨other, same'⟩ := second (by simpa using ends)
      rw [same', same']
  refine ⟨closed, result', related, ?_⟩
  simp only [reads_peek_bind]
  rw [same] at reads' ⊢
  rwa [← seen]

/-! ### Small steps -/

/-- A scan that stops in front of the token that closes stops there whatever is behind it. -/
theorem steady_scan {verdict : σ → Token → Option σ} {state : σ} :
    Steady x y Eq (scan verdict state) (scan verdict state) := by
  intro front back passed skipped closes reads
  obtain ⟨rfl, stop, rfl⟩ := reads_scan.1 reads
  obtain ⟨token, others, rfl⟩ := List.exists_cons_of_ne_nil (ne_nil_of_any closes)
  have split := scanTokens_append verdict state (front ++ (token :: others ++ x))
  rw [← stop, List.append_cancel_right_eq] at split
  have stays : scanTokens verdict state (front ++ token :: (others ++ y)) =
      (front, token :: (others ++ y)) :=
    scanTokens_swap (Prod.ext split stop.symm) _
  refine ⟨_, rfl, reads_scan.2 ?_⟩
  rw [split, List.cons_append, stays]
  exact ⟨rfl, rfl, rfl⟩

/-- What follows a scan begins where the scan stops. -/
theorem Ends.scan {verdict : σ → Token → Option σ} {state : σ} {next : List Token → Reading γ}
    {next' : List Token → Reading δ}
    (h : ∀ passed token, (token.isEnd = false → ∃ state', verdict state' token = none) →
      EndsAt x y token S (next passed) (next' passed)) :
    Ends x y S (scan verdict state >>= next) (scan verdict state >>= next') := by
  intro front back result skipped reads
  obtain ⟨passed, mid, first, second, one, two, rfl⟩ := reads_bind.1 reads
  obtain ⟨passed', more, rfl, rfl⟩ := exists_steps one two
  have stop : (currentToken (more ++ (back ++ x))).isEnd = false →
      ∃ state', verdict state' (currentToken (more ++ (back ++ x))) = none := by
    intro inside
    rw [(reads_scan.1 one).2.1] at inside ⊢
    exact scanTokens_stop inside
  obtain ⟨closed, result', related, two'⟩ := h passed _ stop rfl two
  rw [List.append_assoc, ← List.append_assoc more] at one
  obtain ⟨_, rfl, one'⟩ := steady_scan (by simp [closed.any]) one
  refine ⟨closed.append passed', result', related,
    reads_bind.2 ⟨passed, _, first, second, ?_, two', rfl⟩⟩
  rwa [List.append_assoc, ← List.append_assoc more]

theorem steady_skipWhitespace : Steady x y Eq skipWhitespace skipWhitespace :=
  steady_scan.bind fun _ => steady_pure rfl

theorem steady_skipTrivia : Steady x y Eq skipTrivia skipTrivia :=
  steady_scan.bind fun _ => steady_skip

theorem steady_advance : Steady x y Eq advance advance := by
  intro front back token skipped closes reads
  obtain ⟨rfl, stop, rfl⟩ := reads_advance.1 reads
  obtain ⟨first, others, rfl⟩ := List.exists_cons_of_ne_nil (ne_nil_of_any closes)
  refine ⟨_, rfl, reads_advance.2 ⟨?_, ?_, rfl⟩⟩
  · rw [currentToken_of_closes closes, currentToken_of_closes closes]
  · cases front with
    | nil =>
        have ends : first.isEnd = true := by
          by_contra inside
          simp [currentToken, inside] at stop
        simp [currentToken, ends]
    | cons token front =>
        by_cases ends : token.isEnd = true
        · have whole := congrArg List.length stop
          simp [currentToken, ends] at whole
          omega
        · simp only [currentToken, List.cons_append, List.head?_cons, Option.getD_some, ends,
            Bool.false_eq_true, if_false, List.tail_cons] at stop ⊢
          rw [← List.cons_append, List.self_eq_append_left] at stop
          rw [stop, List.nil_append]

/-- Where a token stands that is not the end of the input, it is the first of those left. -/
theorem eq_cons_tail {tokens : List Token} {token : Token} (at_ : currentToken tokens = token)
    (inside : token.isEnd = false) : tokens = token :: tokens.tail := by
  cases tokens with
  | nil =>
      rw [← at_] at inside
      cases inside
  | cons first others => rw [← at_]; rfl

/-- In front of a token that is not the end of the input, it is passed over first. -/
theorem EndsAt.advance {token : Token} {next : Token → Reading γ} {next' : Token → Reading δ}
    (inside : token.isEnd = false) (later : Ends x y S (next token) (next' token)) :
    EndsAt x y token S (Reading.advance >>= next) (Reading.advance >>= next') := by
  intro front back result skipped at_ reads
  rw [reads_advance_bind, at_, if_neg (by simp [inside])] at reads
  obtain ⟨passed, split, -⟩ := reads.advances
  obtain rfl : front = token :: passed := by
    have whole := eq_cons_tail at_ inside
    rwa [split, ← List.cons_append, List.append_cancel_right_eq] at whole
  obtain ⟨closed, result', related, reads'⟩ := later reads
  refine ⟨closed.append [token], result', related, reads_advance_bind.2 ?_⟩
  simpa [currentToken, inside] using reads'

/-- Passing over a token that ends the statement. -/
theorem endsAt_advance {token : Token} (closes : token.closes = true) :
    EndsAt x y token Eq advance advance := by
  intro front back value skipped at_ reads
  have inside : token.isEnd = false := by
    rcases Token.closes_iff.1 closes with kind | kind | kind | kind | kind <;>
      simp [Token.isEnd, kind]
  obtain ⟨rfl, stop, rfl⟩ := reads_advance.1 reads
  rw [at_, if_neg (by simp [inside])] at stop
  obtain rfl : front = [token] := by
    have whole := eq_cons_tail at_ inside
    rwa [← stop, ← List.singleton_append, List.append_cancel_right_eq] at whole
  exact ⟨.singleton closes, token, at_, reads_advance.2 ⟨rfl, by simp [inside], rfl⟩⟩

/-- Behind a token that ends the statement, nothing more is read. -/
theorem EndsAt.advance_last {token : Token} {next : Token → Reading γ} {next' : Token → Reading δ}
    {result : γ} {result' : δ} (closes : token.closes = true)
    (is : next token = Pure.pure result) (is' : next' token = Pure.pure result')
    (related : S result result') :
    EndsAt x y token S (Reading.advance >>= next) (Reading.advance >>= next') := by
  intro front back value skipped at_ reads
  obtain ⟨_, mid, first, second, one, two, rfl⟩ := reads_bind.1 reads
  obtain rfl := (reads_advance.1 one).1.trans at_
  rw [is] at two
  obtain ⟨rfl, rfl, rfl⟩ := reads_pure.1 two
  obtain ⟨closed, _, rfl, one'⟩ := endsAt_advance closes at_ one
  refine ⟨closed, result', related, reads_bind.2 ⟨_, _, first, [], one', ?_, rfl⟩⟩
  rw [is']
  exact reads_pure.2 ⟨rfl, rfl, rfl⟩

theorem steady_bump : Steady x y Eq bump bump :=
  steady_skipTrivia.bind fun _ => steady_advance

theorem reads_bind_assoc {reading : Reading α} {next : α → Reading γ} {last : γ → Reading δ}
    {tokens rest skipped : List Token} {result : δ} :
    ((reading >>= next) >>= last).Reads tokens result rest skipped ↔
      (reading >>= fun value => next value >>= last).Reads tokens result rest skipped := by
  simp only [reads_bind]
  constructor
  · rintro ⟨mid, _, _, third, ⟨value, _, first, second, one, two, rfl⟩, three, rfl⟩
    exact ⟨value, _, first, _, one, ⟨mid, _, second, third, two, three, rfl⟩, by simp⟩
  · rintro ⟨value, _, first, _, one, ⟨mid, _, second, third, two, three, rfl⟩, rfl⟩
    exact ⟨mid, _, _, third, ⟨value, _, first, second, one, two, rfl⟩, three, by simp⟩

/-- The next token that matters ends the statement, or what stands in front of it cannot be
read. -/
theorem Ends.bump {next : Token → Reading γ} {next' : Token → Reading δ}
    (h : ∀ token, EndsAt x y token S (Reading.advance >>= next) (Reading.advance >>= next')) :
    Ends x y S (bump >>= next) (bump >>= next') := by
  have ends : Ends x y S (skipTrivia >>= fun _ => Reading.advance >>= next)
      (skipTrivia >>= fun _ => Reading.advance >>= next') :=
    steady_skipTrivia.ends fun _ _ _ _ _ reads => h _ rfl reads
  intro front back value skipped reads
  obtain ⟨closed, value', related, reads'⟩ := ends (reads_bind_assoc.1 reads)
  exact ⟨closed, value', related, reads_bind_assoc.2 reads'⟩

theorem steady_accept {kind : Kind} : Steady x y Eq (accept kind) (accept kind) := by
  refine steady_skipTrivia.bind fun _ => .current fun token => .ite (fun _ => ?_) fun _ => ?_
  · exact steady_advance.bind fun _ => steady_pure rfl
  · exact steady_pure rfl

/-- Where a token that ends the statement is asked for, nothing more is read once it is there. -/
theorem Ends.accept {kind : Kind} {next : Bool → Reading γ} {next' : Bool → Reading δ}
    (result : γ) (result' : δ) (inside : kind ≠ .eof)
    (closes : ∀ {token : Token}, token.kind = kind → token.closes = true)
    (stops : ∀ {tokens value rest skipped}, (next true).Reads tokens value rest skipped ↔
      value = result ∧ rest = tokens ∧ skipped = [])
    (stops' : ∀ {tokens value rest skipped}, (next' true).Reads tokens value rest skipped ↔
      value = result' ∧ rest = tokens ∧ skipped = [])
    (related : S result result') (later : Ends x y S (next false) (next' false)) :
    Ends x y S (accept kind >>= next) (accept kind >>= next') := by
  have other : Ends x y S (skipTrivia >>= fun _ => next false)
      (skipTrivia >>= fun _ => next' false) := steady_skipTrivia.ends fun _ => later
  intro front back value skipped reads
  rcases (reads_accept_bind kind inside).1 reads with
    ⟨token, mid, passed, _, same, passes, ends, rfl⟩ | ⟨absent, after, goesOn, rfl⟩
  · obtain ⟨rfl, rfl, rfl⟩ := stops.1 ends
    obtain ⟨lead, split, anywhere⟩ := passes.exists_lead
    rw [← List.singleton_append, ← List.append_assoc lead, List.append_cancel_right_eq] at split
    subst split
    have passes' : Passes (lead ++ [token] ++ (back ++ y)) token (back ++ y) passed := by
      simpa using anywhere (back ++ y)
    exact ⟨(Closed.singleton (closes same)).append lead, result', related,
      (reads_accept_bind kind inside).2
        (.inl ⟨token, _, passed, [], same, passes', stops'.2 ⟨rfl, rfl, rfl⟩, rfl⟩)⟩
  · obtain ⟨closed, value', related', reads'⟩ :=
      other (reads_skipTrivia_bind.2 ⟨after, goesOn, rfl⟩)
    obtain ⟨after', goesOn', skips⟩ := reads_skipTrivia_bind.1 reads'
    obtain ⟨first, same, -⟩ := peek_append closed.any
    rw [same] at absent
    refine ⟨closed, value', related',
      (reads_accept_bind kind inside).2 (.inr ⟨?_, after', goesOn', skips⟩)⟩
    rwa [same]

theorem steady_expect {scope scope' : Scope} {kind : Kind} {what : Expectation} :
    Steady x y Eq (expect scope kind what) (expect scope' kind what) := by
  refine steady_skipTrivia.bind fun _ => .current fun token => .ite (fun _ => ?_) fun _ => ?_
  · exact steady_advance.bind fun _ => steady_pure rfl
  · exact steady_unexpected

theorem steady_identifier {scope scope' : Scope} {what : Expectation} :
    Steady x y Eq (identifier scope what) (identifier scope' what) := by
  refine steady_skipTrivia.bind fun _ => .current fun token => .ite (fun _ => ?_) fun _ => ?_
  · exact steady_advance.bind fun _ => steady_pure rfl
  · exact steady_unexpected

theorem steady_scopeHere {kind : NodeKind} :
    Steady x y (fun _ _ => True) (scopeHere kind) (scopeHere kind) :=
  steady_skipWhitespace.bind fun _ => steady_left.bind_of fun _ _ _ => steady_pure trivial

/-- Expecting a token that closes ends with it. -/
theorem ends_expect {scope scope' : Scope} {kind : Kind} {what : Expectation}
    (closes : ∀ {token : Token}, token.kind = kind → token.closes = true) :
    Ends x y Eq (expect scope kind what) (expect scope' kind what) := by
  refine steady_skipTrivia.ends fun _ => .current fun token => .ite (fun same => ?_) fun _ => ?_
  · exact (endsAt_advance (closes same)).pure fun _ _ _ => rfl
  · exact ends_unexpected.at token

/-! ### Constructs -/

theorem Steady.finish {scope scope' : Scope} {parts parts' : Reading (Attempt α)}
    (h : Steady x y Eq parts parts') :
    Steady x y Eq (finish scope parts) (finish scope' parts') := by
  intro front back node skipped closes reads
  obtain ⟨rfl, attempt, reads, clean, built⟩ := reads_finish.1 reads
  obtain ⟨_, rfl, reads'⟩ := h closes reads
  exact ⟨node, rfl, reads_finish.2 ⟨rfl, attempt, reads', clean, built⟩⟩

theorem Ends.finish {scope scope' : Scope} {parts parts' : Reading (Attempt α)}
    (h : Ends x y Eq parts parts') : Ends x y Eq (finish scope parts) (finish scope' parts') := by
  intro front back node skipped reads
  obtain ⟨rfl, attempt, reads, clean, built⟩ := reads_finish.1 reads
  obtain ⟨closed, _, rfl, reads'⟩ := h reads
  exact ⟨closed, node, rfl, reads_finish.2 ⟨rfl, attempt, reads', clean, built⟩⟩

/-! ### Moving on -/

/-- In front of tokens that end in `x`, the reading passes over a token whenever it succeeds. -/
def Moves (x : List Token) (reading : Reading α) : Prop :=
  ∀ ⦃back value skipped⦄, ¬ reading.Reads (back ++ x) value (back ++ x) skipped

/-- What ends with a token passes over one. -/
theorem Ends.moves (h : Ends x y R left right) : Moves x left := by
  intro back value skipped reads
  obtain ⟨closed, -⟩ := @h [] back value skipped reads
  exact closed.ne_nil rfl

/-- If two readings one after the other pass over nothing, then neither does. -/
theorem reads_bind_still {first : Reading α} {next : α → Reading γ} {tokens skipped : List Token}
    {result : γ} (h : (first >>= next).Reads tokens result tokens skipped) :
    ∃ value passed later, first.Reads tokens value tokens passed ∧
      (next value).Reads tokens result tokens later := by
  obtain ⟨value, mid, passed, later, one, two, -⟩ := reads_bind.1 h
  obtain ⟨before, split, -⟩ := one.advances
  obtain ⟨behind, rfl, -⟩ := two.advances
  rw [← List.append_assoc, List.self_eq_append_left, List.append_eq_nil_iff] at split
  obtain ⟨-, rfl⟩ := split
  exact ⟨value, passed, later, one, two⟩

theorem Moves.bind (h : Moves x left) (next : α → Reading γ) : Moves x (left >>= next) := by
  intro back result skipped reads
  obtain ⟨value, passed, later, one, -⟩ := reads_bind_still reads
  exact h one

theorem Moves.later (h : ∀ value, Moves x (next value)) : Moves x (left >>= next) := by
  intro back result skipped reads
  obtain ⟨value, passed, later, -, two⟩ := reads_bind_still reads
  exact h value two

theorem moves_expect {scope : Scope} {kind : Kind} {what : Expectation} (inside : kind ≠ .eof) :
    Moves x (expect scope kind what) := by
  intro back value skipped reads
  obtain ⟨token, -, passes⟩ := (reads_expect kind inside).1 reads
  exact Nat.lt_irrefl _ passes.length_lt

theorem Moves.finish {scope : Scope} {parts : Reading (Attempt α)} (h : Moves x parts) :
    Moves x (finish scope parts) := by
  intro back node skipped reads
  obtain ⟨-, attempt, reads, -⟩ := reads_finish.1 reads
  exact h reads

theorem not_reads_advance {tokens skipped : List Token} {token : Token}
    (inside : (currentToken tokens).isEnd = false) :
    ¬ advance.Reads tokens token tokens skipped := by
  intro reads
  obtain ⟨rfl, stays, -⟩ := reads_advance.1 reads
  rw [if_neg (by simp [inside])] at stays
  have split := eq_cons_tail rfl inside
  rw [← stays] at split
  simpa using congrArg List.length split

/-! ### Repetition and nesting -/

/-- Turns that both go on or both end. -/
inductive Turn.Alike (R : σ → τ → Prop) : Turn σ → Turn τ → Prop where
  | again {state state'} (related : R state state') : Alike R (.again state) (.again state')
  | last {state state'} (related : R state state') : Alike R (.last state) (.last state')

namespace Turn.Alike

variable {T : σ → τ → Prop} {state : σ} {turn : Turn τ}

theorem exists_again (h : Alike T (.again state) turn) :
    ∃ state', turn = .again state' ∧ T state state' := by
  cases h with
  | again related => exact ⟨_, rfl, related⟩

theorem exists_last (h : Alike T (.last state) turn) :
    ∃ state', turn = .last state' ∧ T state state' := by
  cases h with
  | last related => exact ⟨_, rfl, related⟩

end Turn.Alike

/-- A step that passes over nothing ends a repetition. -/
theorem reads_iterate_stalled {step : σ → Reading (Turn σ)} {state last : σ}
    {tokens skipped : List Token} (h : (step state).Reads tokens (.again last) tokens skipped) :
    (iterate step state).Reads tokens last tokens skipped := by
  obtain ⟨journal, run⟩ := h
  refine ⟨journal, ?_⟩
  show iterateTokens step state tokens = _
  rw [iterateTokens, run]
  simp

section

variable {state : σ} {state' : τ} {T : σ → τ → Prop} {step : σ → Reading (Turn σ)}
  {step' : τ → Reading (Turn τ)}

/-- A loop is steady if its turns are, also where the states of the two loops only are alike. -/
theorem Steady.iterate_of
    (h : ∀ state state', T state state' → Steady x y (Turn.Alike T) (step state) (step' state'))
    (start : T state state') : Steady x y T (iterate step state) (iterate step' state') := by
  intro front back last skipped closes reads
  induction size : front.length using Nat.strongRecOn
    generalizing front state state' skipped with
  | _ n ih =>
      rcases reads_iterate_cases reads with ends | ⟨stalls, still⟩ |
        ⟨next, mid, passed, later, one, moved, others, rfl⟩
      · obtain ⟨_, alike, ends'⟩ := h state state' start closes ends
        obtain ⟨last', rfl, related⟩ := alike.exists_last
        exact ⟨last', related, reads_iterate_last ends'⟩
      · obtain ⟨_, alike, stalls'⟩ := h state state' start closes stalls
        obtain ⟨last', rfl, related⟩ := alike.exists_again
        obtain rfl : front = [] := by
          simp only [List.length_append] at still
          exact List.length_eq_zero_iff.1 (by omega)
        exact ⟨last', related, reads_iterate_stalled stalls'⟩
      · obtain ⟨first, more, rfl, rfl⟩ := exists_steps one others
        have shorter : more.length < (first ++ more).length := by
          simp only [List.length_append] at moved ⊢
          omega
        rw [List.append_assoc, ← List.append_assoc more] at one
        obtain ⟨_, alike, one'⟩ := h state state' start (by simp [closes]) one
        obtain ⟨next', rfl, related⟩ := alike.exists_again
        obtain ⟨last', related', others'⟩ := ih _ (size ▸ shorter) related others rfl
        refine ⟨last', related', ?_⟩
        rw [List.append_assoc] at one' ⊢
        refine reads_iterate_again one' ?_ others'
        simp only [List.length_append] at shorter ⊢
        omega

theorem Steady.iterate {step step' : σ → Reading (Turn σ)}
    (h : ∀ state, Steady x y Eq (step state) (step' state)) (state : σ) :
    Steady x y Eq (Reading.iterate step state) (Reading.iterate step' state) := by
  refine .iterate_of ?_ rfl
  rintro state _ rfl front back turn skipped closes reads
  obtain ⟨_, rfl, reads'⟩ := h state closes reads
  cases turn with
  | again => exact ⟨_, .again rfl, reads'⟩
  | last => exact ⟨_, .last rfl, reads'⟩

/-- The last step of the repetition passes over the end of the statement, those before it are
inside of it. -/
theorem Ends.iterate {step step' : σ → Reading (Turn σ)}
    (steady : ∀ state, Steady x y Eq (step state) (step' state))
    (moves : ∀ state, Moves x (step state))
    (ends : ∀ ⦃state front back last skipped⦄,
      (step state).Reads (front ++ (back ++ x)) (.last last) (back ++ x) skipped →
      Closed front ∧ (step' state).Reads (front ++ (back ++ y)) (.last last) (back ++ y) skipped)
    (state : σ) :
    Ends x y Eq (Reading.iterate step state) (Reading.iterate step' state) := by
  intro front back last skipped reads
  induction size : front.length using Nat.strongRecOn generalizing front state skipped with
  | _ n ih =>
      rcases reads_iterate_cases reads with ended | ⟨stalls, still⟩ |
        ⟨next, mid, passed, later, one, moved, others, rfl⟩
      · obtain ⟨closed, ended'⟩ := ends ended
        exact ⟨closed, last, rfl, reads_iterate_last ended'⟩
      · have some : front ≠ [] := by
          rintro rfl
          exact moves state stalls
        have := List.length_pos_iff.2 some
        simp only [List.length_append] at still
        omega
      · obtain ⟨first, more, rfl, rfl⟩ := exists_steps one others
        have shorter : more.length < (first ++ more).length := by
          simp only [List.length_append] at moved ⊢
          omega
        obtain ⟨closed, _, rfl, others'⟩ := ih _ (size ▸ shorter) next others rfl
        rw [List.append_assoc, ← List.append_assoc more] at one
        obtain ⟨_, rfl, one'⟩ := steady state (by simp [closed.any]) one
        refine ⟨closed.append first, last, rfl, ?_⟩
        rw [List.append_assoc] at one' ⊢
        refine reads_iterate_again one' ?_ others'
        simp only [List.length_append] at shorter ⊢
        omega

/-- A repetition of steps each of which ends a statement does so. -/
theorem Ends.iterate_each {step step' : σ → Reading (Turn σ)}
    (h : ∀ state, Ends x y Eq (step state) (step' state)) (state : σ) :
    Ends x y Eq (Reading.iterate step state) (Reading.iterate step' state) := by
  refine .iterate (fun state => (h state).steady) (fun state => (h state).moves) ?_ state
  intro state front back last skipped reads
  obtain ⟨closed, _, rfl, reads'⟩ := h state reads
  exact ⟨closed, reads'⟩
end

/-- Readings that contain themselves pass over the end of the statement last if their bodies do
once the readings inside them do. -/
theorem Ends.recurse {stalled stalled' : Reading α} {body body' : Reading α → Reading α}
    (blocked : ∀ {tokens value rest skipped}, ¬ stalled.Reads tokens value rest skipped)
    (step : ∀ nested nested', Ends x y Eq nested nested' →
      Ends x y Eq (body nested) (body' nested')) :
    Ends x y Eq (Reading.recurse stalled body) (Reading.recurse stalled' body') := by
  have within : ∀ n m, n + y.length = m + x.length →
      Ends x y Eq (below n stalled (Reading.recurse stalled body))
        (below m stalled' (Reading.recurse stalled' body')) := by
    intro n
    induction n using Nat.strongRecOn with
    | _ n ih =>
        intro m sizes front back value skipped reads
        rcases reads_below.1 reads with ⟨shorter, reads⟩ | ⟨-, reads⟩
        · rw [Reads, run_recurse] at reads
          have same : (front ++ (back ++ x)).length + y.length =
              (front ++ (back ++ y)).length + x.length := by
            simp only [List.length_append]
            omega
          obtain ⟨closed, _, rfl, reads'⟩ := step _ _ (ih _ shorter _ same) reads
          refine ⟨closed, value, rfl, reads_below.2 (.inl ⟨?_, ?_⟩)⟩
          · omega
          · rwa [Reads, run_recurse]
        · exact absurd reads blocked
  intro front back value skipped reads
  obtain ⟨closed, _, rfl, reads'⟩ :=
    within ((front ++ (back ++ x)).length + 1) ((front ++ (back ++ y)).length + 1)
      (by simp only [List.length_append]; omega)
      (reads_below.2 (.inl ⟨Nat.lt_succ_self _, reads⟩))
  rcases reads_below.1 reads' with ⟨-, reads'⟩ | ⟨longer, -⟩
  · exact ⟨closed, value, rfl, reads'⟩
  · exact absurd (Nat.lt_succ_self _) longer

end Reading

end JavaUnit
