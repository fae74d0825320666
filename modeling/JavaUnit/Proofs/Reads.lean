/-
Module: JavaUnit.Proofs.Reads
Purpose: Successful readings as a relation between the tokens in front of a value and those behind
  it. The relation is taken apart along the combinators that readings are made of, so that what a
  reading has read can be told from its parts without running it.
Main exports: Reading.Reads, Passes, Reading.reads_bind, Reading.reads_iterate,
  Reading.reads_recurse
-/
import JavaUnit.Proofs.Scan
import JavaUnit.Problem

namespace JavaUnit

/-! ### The next token that matters -/

/-- From some tokens on, trivia are passed over and then the next token, which is not the end of the
input; `skipped` are the comments among the trivia. -/
inductive Passes : List Token → Token → List Token → List Token → Prop where
  | token {token rest} (matters : token.isTrivia = false) (inside : token.isEnd = false) :
      Passes (token :: rest) token rest []
  | whitespace {first tokens token rest skipped} (blank : first.isWhitespace = true)
      (later : Passes tokens token rest skipped) :
      Passes (first :: tokens) token rest skipped
  | comment {first tokens token rest skipped} (plain : first.isPlainComment = true)
      (later : Passes tokens token rest skipped) :
      Passes (first :: tokens) token rest (first :: skipped)

namespace Token

theorem isTrivia_iff {token : Token} :
    token.isTrivia = true ↔ token.isWhitespace = true ∨ token.isPlainComment = true := by
  rw [isTrivia, Bool.or_eq_true]

theorem isEnd_eq_false_of_isTrivia {token : Token} (h : token.isTrivia = true) :
    token.isEnd = false := by
  rcases isTrivia_iff.1 h with blank | plain
  · simp_all [isWhitespace, isEnd]
  · rw [isPlainComment, Bool.or_eq_true] at plain
    rcases plain with line | block
    · simp_all [isEnd]
    · simp_all [isEnd]

theorem isPlainComment_eq_false_of_isWhitespace {token : Token} (h : token.isWhitespace = true) :
    token.isPlainComment = false := by
  simp_all [isWhitespace, isPlainComment]

theorem kind_of_keyword? {token : Token} {word : Keyword} (h : token.keyword? = some word) :
    token.kind = .keyword word := by
  cases token with
  | mk kind text =>
      cases kind <;> simp_all [keyword?]

end Token

namespace Passes

variable {tokens rest skipped : List Token} {token : Token}

theorem isTrivia_eq_false (h : Passes tokens token rest skipped) : token.isTrivia = false := by
  induction h with
  | token matters => exact matters
  | whitespace _ _ ih => exact ih
  | comment _ _ ih => exact ih

theorem isEnd_eq_false (h : Passes tokens token rest skipped) : token.isEnd = false := by
  induction h with
  | token _ inside => exact inside
  | whitespace _ _ ih => exact ih
  | comment _ _ ih => exact ih

/-- The token that is passed is the next one that matters. -/
theorem significantFrom_zero (h : Passes tokens token rest skipped) :
    significantFrom 0 tokens = token :: rest := by
  induction h with
  | token matters inside => simp [significantFrom, matters, inside]
  | whitespace blank _ ih => simp [significantFrom, Token.isTrivia, blank, ih]
  | comment plain _ ih => simp [significantFrom, Token.isTrivia, plain, ih]

/-- Behind the next token, looking ahead is one step shorter. -/
theorem significantFrom_succ (h : Passes tokens token rest skipped) (n : Nat) :
    significantFrom (n + 1) tokens = significantFrom n rest := by
  induction h with
  | token matters inside => simp [significantFrom, matters, inside]
  | whitespace blank _ ih => simp [significantFrom, Token.isTrivia, blank, ih]
  | comment plain _ ih => simp [significantFrom, Token.isTrivia, plain, ih]

/-- Passing over a token leaves fewer tokens. -/
theorem length_lt (h : Passes tokens token rest skipped) : rest.length < tokens.length := by
  induction h with
  | token => simp
  | whitespace _ _ ih => exact Nat.lt_succ_of_lt ih
  | comment _ _ ih => exact Nat.lt_succ_of_lt ih

end Passes

/-- A token that is neither trivia nor the end is the next one where it stands. -/
theorem passes_currentToken {tokens : List Token} (inside : (currentToken tokens).isEnd = false)
    (matters : (currentToken tokens).isTrivia = false) :
    Passes tokens (currentToken tokens) tokens.tail [] := by
  cases tokens with
  | nil => cases inside
  | cons first others => exact .token matters inside

/-- Unless the end of the input comes first, there is a next token. -/
theorem exists_passes {tokens : List Token}
    (h : (currentToken (significantFrom 0 tokens)).isEnd = false) :
    ∃ rest skipped, Passes tokens (currentToken (significantFrom 0 tokens)) rest skipped := by
  induction tokens with
  | nil => exact absurd h (by decide)
  | cons first others ih =>
      rw [significantFrom] at h ⊢
      by_cases trivia : first.isTrivia = true
      · rw [if_pos trivia] at h ⊢
        obtain ⟨rest, skipped, later⟩ := ih h
        rcases Token.isTrivia_iff.1 trivia with blank | plain
        · exact ⟨rest, skipped, .whitespace blank later⟩
        · exact ⟨rest, first :: skipped, .comment plain later⟩
      · rw [if_neg trivia] at h ⊢
        have inside : first.isEnd = false := by
          by_cases ends : first.isEnd = true
          · rw [if_pos ends] at h
            exact absurd ends (by simpa [currentToken] using h)
          · simpa using ends
        rw [if_neg (by simp [inside])]
        exact ⟨others, [], .token (by simpa using trivia) inside⟩

/-- A next token of a given kind, which is not that of the end. -/
theorem exists_passes_of_kind {tokens : List Token} {kind : Kind}
    (h : (currentToken (significantFrom 0 tokens)).kind = kind) (inside : kind ≠ .eof) :
    ∃ token rest skipped, token.kind = kind ∧ Passes tokens token rest skipped := by
  have within : (currentToken (significantFrom 0 tokens)).isEnd = false := by
    simpa [Token.isEnd, h] using inside
  obtain ⟨rest, skipped, passes⟩ := exists_passes within
  exact ⟨_, rest, skipped, h, passes⟩

/-- Two next tokens of given kinds. -/
theorem exists_passes_of_kinds {tokens : List Token} {first second : Kind}
    (h : (currentToken (significantFrom 0 tokens)).kind = first)
    (h' : (currentToken (significantFrom 1 tokens)).kind = second) (inside : first ≠ .eof)
    (inside' : second ≠ .eof) :
    ∃ token mid passed token' rest skipped, token.kind = first ∧ Passes tokens token mid passed ∧
      token'.kind = second ∧ Passes mid token' rest skipped := by
  obtain ⟨token, mid, passed, kind, passes⟩ := exists_passes_of_kind h inside
  rw [passes.significantFrom_succ] at h'
  obtain ⟨token', rest, skipped, kind', passes'⟩ := exists_passes_of_kind h' inside'
  exact ⟨token, mid, passed, token', rest, skipped, kind, passes, kind', passes'⟩

namespace Reading

/-! ### Reading a value -/

/-- The reading succeeds in front of `tokens`, whatever it writes into the journal. -/
def Reads (reading : Reading α) (tokens : List Token) (value : α) (rest skipped : List Token) :
    Prop :=
  ∃ journal, reading.run tokens = .read value rest skipped journal

variable {tokens rest skipped : List Token}

/-- Reading goes forward only. -/
theorem Reads.advances {reading : Reading α} {value : α}
    (h : reading.Reads tokens value rest skipped) : Advances tokens rest := by
  obtain ⟨journal, run⟩ := h
  have moved := reading.advances tokens
  rwa [run] at moved

theorem Reads.length_le {reading : Reading α} {value : α}
    (h : reading.Reads tokens value rest skipped) : rest.length ≤ tokens.length :=
  h.advances.length_le

@[simp] theorem reads_pure {value result : α} :
    (pure value : Reading α).Reads tokens result rest skipped ↔
      result = value ∧ rest = tokens ∧ skipped = [] := by
  simp only [Reads, run_pure, Outcome.read.injEq]
  constructor
  · rintro ⟨_, rfl, rfl, rfl, _⟩
    exact ⟨rfl, rfl, rfl⟩
  · rintro ⟨rfl, rfl, rfl⟩
    exact ⟨[], rfl, rfl, rfl, rfl⟩

/-- One reading after another reads what both read. -/
theorem reads_bind {reading : Reading α} {next : α → Reading β} {result : β} :
    (reading >>= next).Reads tokens result rest skipped ↔
      ∃ value mid first second, reading.Reads tokens value mid first ∧
        (next value).Reads mid result rest second ∧ skipped = first ++ second := by
  simp only [Reads, run_bind]
  cases run : reading.run tokens with
  | failed failure journal => simp [Outcome.andThen]
  | read value mid first journal =>
      cases later : (next value).run mid with
      | failed failure events =>
          constructor
          · rintro ⟨_, h⟩
            simp [Outcome.andThen, Outcome.behind, later] at h
          · rintro ⟨value', mid', first', second, ⟨_, h⟩, ⟨_, h'⟩, _⟩
            cases h
            rw [later] at h'
            cases h'
      | read value' rest' second events =>
          constructor
          · rintro ⟨_, h⟩
            simp only [Outcome.andThen, Outcome.behind, later, Outcome.read.injEq] at h
            obtain ⟨rfl, rfl, rfl, _⟩ := h
            exact ⟨value, mid, first, second, ⟨journal, rfl⟩, ⟨events, later⟩, rfl⟩
          · rintro ⟨value'', mid', first', second', ⟨_, h⟩, ⟨_, h'⟩, rfl⟩
            cases h
            rw [later] at h'
            cases h'
            exact ⟨journal ++ events, by simp [Outcome.andThen, Outcome.behind, later]⟩

/-- Neither of two readings steps over comments if both together do not. -/
theorem reads_bind_nil {reading : Reading α} {next : α → Reading β} {result : β} :
    (reading >>= next).Reads tokens result rest [] ↔
      ∃ value mid, reading.Reads tokens value mid [] ∧ (next value).Reads mid result rest [] := by
  rw [reads_bind]
  constructor
  · rintro ⟨value, mid, first, second, reads, later, skips⟩
    obtain ⟨rfl, rfl⟩ := List.append_eq_nil_iff.1 skips.symm
    exact ⟨value, mid, reads, later⟩
  · rintro ⟨value, mid, reads, later⟩
    exact ⟨value, mid, [], [], reads, later, rfl⟩

/-- A choice is read as the alternative that its condition takes. -/
theorem reads_ite {condition : Prop} [Decidable condition] {first second : Reading α} {value : α} :
    (if condition then first else second).Reads tokens value rest skipped ↔
      condition ∧ first.Reads tokens value rest skipped ∨
        ¬ condition ∧ second.Reads tokens value rest skipped := by
  by_cases h : condition <;> simp [h]

/-- A reading that is made under a condition only, in front of another one. -/
theorem reads_when {condition : Prop} [Decidable condition] {reading : Reading α}
    {next : Reading β} {result : β} :
    (if condition then reading >>= fun _ => next else next).Reads tokens result rest [] ↔
      ∃ mid, (condition ∧ (∃ value, reading.Reads tokens value mid []) ∨
        ¬ condition ∧ mid = tokens) ∧ next.Reads mid result rest [] := by
  rw [reads_ite, reads_bind_nil]
  constructor
  · rintro (⟨holds, value, mid, reads, later⟩ | ⟨fails, later⟩)
    · exact ⟨mid, .inl ⟨holds, value, reads⟩, later⟩
    · exact ⟨tokens, .inr ⟨fails, rfl⟩, later⟩
  · rintro ⟨mid, ⟨holds, value, reads⟩ | ⟨fails, rfl⟩, later⟩
    · exact .inl ⟨holds, value, mid, reads, later⟩
    · exact .inr ⟨fails, later⟩

@[simp] theorem reads_left {value : List Token} :
    left.Reads tokens value rest skipped ↔ value = tokens ∧ rest = tokens ∧ skipped = [] := by
  simp [Reads, left, eq_comm]

@[simp] theorem reads_note {events : List Event} {value : Unit} :
    (note events).Reads tokens value rest skipped ↔ rest = tokens ∧ skipped = [] := by
  simp [Reads, note, eq_comm]

@[simp] theorem not_reads_fail {scope : Scope} {defects : List Defect} {value : α} :
    ¬ (fail scope defects : Reading α).Reads tokens value rest skipped := by
  simp [Reads, fail]

@[simp] theorem reads_skip {comments : List Token} {value : Unit} :
    (skip comments).Reads tokens value rest skipped ↔ rest = tokens ∧ skipped = comments := by
  simp [Reads, skip, eq_comm]

@[simp] theorem reads_scan {verdict : σ → Token → Option σ} {state : σ} {value : List Token} :
    (scan verdict state).Reads tokens value rest skipped ↔
      value = (scanTokens verdict state tokens).1 ∧ rest = (scanTokens verdict state tokens).2 ∧
        skipped = [] := by
  simp [Reads, scan, eq_comm]

@[simp] theorem reads_advance {token : Token} :
    advance.Reads tokens token rest skipped ↔
      token = currentToken tokens ∧ rest = (if token.isEnd then tokens else tokens.tail) ∧
        skipped = [] := by
  cases tokens with
  | nil =>
      simp only [Reads, advance, currentToken, Outcome.read.injEq]
      constructor
      · rintro ⟨_, rfl, rfl, rfl, _⟩
        exact ⟨rfl, rfl, rfl⟩
      · rintro ⟨rfl, rfl, rfl⟩
        exact ⟨[], rfl, rfl, rfl, rfl⟩
  | cons first others =>
      simp only [Reads, advance, currentToken, Outcome.read.injEq, List.head?_cons,
        Option.getD_some, List.tail_cons]
      constructor
      · rintro ⟨_, rfl, rfl, rfl, _⟩
        exact ⟨rfl, rfl, rfl⟩
      · rintro ⟨rfl, rfl, rfl⟩
        exact ⟨[], rfl, rfl, rfl, rfl⟩

/-- Behind a reading with a single outcome. -/
theorem reads_bind_of {reading : Reading α} {next : α → Reading β} {value : α}
    {mid first : List Token} {result : β}
    (only : ∀ value' mid' first', reading.Reads tokens value' mid' first' ↔
      value' = value ∧ mid' = mid ∧ first' = first) :
    (reading >>= next).Reads tokens result rest skipped ↔
      ∃ second, (next value).Reads mid result rest second ∧ skipped = first ++ second := by
  rw [reads_bind]
  constructor
  · rintro ⟨value', mid', first', second, h, later, split⟩
    obtain ⟨rfl, rfl, rfl⟩ := (only _ _ _).1 h
    exact ⟨second, later, split⟩
  · rintro ⟨second, later, split⟩
    exact ⟨value, mid, first, second, (only _ _ _).2 ⟨rfl, rfl, rfl⟩, later, split⟩

/-- Behind a reading with a single outcome that steps over no comments. -/
theorem reads_bind_of_nil {reading : Reading α} {next : α → Reading β} {value : α}
    {mid : List Token} {result : β}
    (only : ∀ value' mid' first', reading.Reads tokens value' mid' first' ↔
      value' = value ∧ mid' = mid ∧ first' = []) :
    (reading >>= next).Reads tokens result rest skipped ↔
      (next value).Reads mid result rest skipped := by
  rw [reads_bind_of only]
  simp

section

variable {next : α → Reading β} {result : β}

@[simp] theorem reads_pure_bind {value : α} :
    ((pure value : Reading α) >>= next).Reads tokens result rest skipped ↔
      (next value).Reads tokens result rest skipped :=
  reads_bind_of_nil fun _ _ _ => reads_pure

@[simp] theorem reads_left_bind {next : List Token → Reading β} :
    (left >>= next).Reads tokens result rest skipped ↔
      (next tokens).Reads tokens result rest skipped :=
  reads_bind_of_nil fun _ _ _ => reads_left

@[simp] theorem reads_note_bind {events : List Event} {next : Unit → Reading β} :
    (note events >>= next).Reads tokens result rest skipped ↔
      (next ()).Reads tokens result rest skipped :=
  reads_bind_of_nil fun _ _ _ => by simp

@[simp] theorem reads_scan_bind {verdict : σ → Token → Option σ} {state : σ}
    {next : List Token → Reading β} :
    (scan verdict state >>= next).Reads tokens result rest skipped ↔
      (next (scanTokens verdict state tokens).1).Reads (scanTokens verdict state tokens).2
        result rest skipped :=
  reads_bind_of_nil fun _ _ _ => reads_scan

@[simp] theorem reads_skip_bind {comments : List Token} {next : Unit → Reading β} :
    (skip comments >>= next).Reads tokens result rest skipped ↔
      ∃ later, (next ()).Reads tokens result rest later ∧ skipped = comments ++ later :=
  reads_bind_of fun _ _ _ => by simp

@[simp] theorem reads_advance_bind {next : Token → Reading β} :
    (advance >>= next).Reads tokens result rest skipped ↔
      (next (currentToken tokens)).Reads
        (if (currentToken tokens).isEnd then tokens else tokens.tail) result rest skipped :=
  reads_bind_of_nil fun _ _ _ => by
    rw [reads_advance]
    constructor
    · rintro ⟨rfl, rfl, rfl⟩
      exact ⟨rfl, rfl, rfl⟩
    · rintro ⟨rfl, rfl, rfl⟩
      exact ⟨rfl, rfl, rfl⟩

@[simp] theorem not_reads_fail_bind {scope : Scope} {defects : List Defect} :
    ¬ ((fail scope defects : Reading α) >>= next).Reads tokens result rest skipped := by
  simp [reads_bind]

end

@[simp] theorem reads_current {token : Token} :
    current.Reads tokens token rest skipped ↔
      token = currentToken tokens ∧ rest = tokens ∧ skipped = [] := by
  simp [current]

@[simp] theorem reads_current_bind {next : Token → Reading β} {result : β} :
    (current >>= next).Reads tokens result rest skipped ↔
      (next (currentToken tokens)).Reads tokens result rest skipped :=
  reads_bind_of_nil fun _ _ _ => reads_current

@[simp] theorem reads_peek {n : Nat} {token : Token} :
    (peek n).Reads tokens token rest skipped ↔
      token = currentToken (significantFrom n tokens) ∧ rest = tokens ∧ skipped = [] := by
  simp [peek]

@[simp] theorem reads_peek_bind {n : Nat} {next : Token → Reading β} {result : β} :
    (peek n >>= next).Reads tokens result rest skipped ↔
      (next (currentToken (significantFrom n tokens))).Reads tokens result rest skipped :=
  reads_bind_of_nil fun _ _ _ => reads_peek

@[simp] theorem not_reads_unexpected {scope : Scope} {what : Expectation} {value : α} :
    ¬ (unexpected scope what : Reading α).Reads tokens value rest skipped := by
  simp [unexpected]

@[simp] theorem not_reads_unexpected_bind {scope : Scope} {what : Expectation}
    {next : α → Reading β} {result : β} :
    ¬ ((unexpected scope what : Reading α) >>= next).Reads tokens result rest skipped := by
  simp [reads_bind]

/-! ### Small steps -/

/-- Passing tokens while a condition holds cuts the row where it fails first. -/
theorem scanTokens_passWhile (p : Token → Bool) (h : ∀ token, p token = true → token.isEnd = false)
    (tokens : List Token) :
    scanTokens (fun (_ : Unit) token => if p token then some () else none) () tokens =
      (tokens.takeWhile p, tokens.dropWhile p) := by
  induction tokens with
  | nil => rfl
  | cons first others ih =>
      rw [scanTokens]
      by_cases passes : p first = true
      · simp [h first passes, passes, ih]
      · simp [passes]

@[simp] theorem reads_skipWhitespace_bind {next : Unit → Reading β} {result : β} :
    (skipWhitespace >>= next).Reads tokens result rest skipped ↔
      (next ()).Reads (tokens.dropWhile Token.isWhitespace) result rest skipped := by
  refine reads_bind_of_nil fun value mid first => ?_
  rw [skipWhitespace, passWhile]
  simp only [reads_scan_bind]
  rw [scanTokens_passWhile _ fun token h => by simp_all [Token.isWhitespace, Token.isEnd]]
  simp

@[simp] theorem reads_scopeHere_bind {kind : NodeKind} {next : Scope → Reading β} {result : β} :
    (scopeHere kind >>= next).Reads tokens result rest skipped ↔
      (next ⟨.node kind, tokens.dropWhile Token.isWhitespace⟩).Reads
        (tokens.dropWhile Token.isWhitespace) result rest skipped :=
  reads_bind_of_nil fun _ _ _ => by simp [scopeHere]

end Reading

/-- The plain comments that tokens begin with, not counting white space. -/
def leadingComments (tokens : List Token) : List Token :=
  (tokens.takeWhile Token.isTrivia).filter Token.isPlainComment

theorem significantFrom_zero_eq (tokens : List Token) :
    significantFrom 0 tokens = tokens.dropWhile Token.isTrivia := by
  induction tokens with
  | nil => rfl
  | cons first others ih =>
      rw [significantFrom, List.dropWhile_cons]
      by_cases trivia : first.isTrivia = true
      · rw [if_pos trivia, if_pos trivia, ih]
      · rw [if_neg trivia, if_neg trivia, ite_self]

theorem Passes.leadingComments_eq {tokens rest skipped : List Token} {token : Token}
    (h : Passes tokens token rest skipped) : leadingComments tokens = skipped := by
  induction h with
  | token matters => simp [leadingComments, matters]
  | whitespace blank _ ih =>
      rw [leadingComments] at ih ⊢
      simp [Token.isTrivia, blank, Token.isPlainComment_eq_false_of_isWhitespace blank, ih]
  | comment plain _ ih =>
      rw [leadingComments] at ih ⊢
      simp [Token.isTrivia, plain, ih]

namespace Reading

variable {tokens rest skipped mid passed : List Token} {token : Token}

/-- Trivia are skipped up to the next token; the comments among them are left to be accounted
for. -/
theorem reads_skipTrivia {value : Unit} :
    skipTrivia.Reads tokens value rest skipped ↔
      rest = significantFrom 0 tokens ∧ skipped = leadingComments tokens := by
  rw [skipTrivia, passWhile]
  simp only [reads_scan_bind, reads_skip]
  rw [scanTokens_passWhile _ fun token => Token.isEnd_eq_false_of_isTrivia,
    significantFrom_zero_eq, leadingComments]

@[simp] theorem reads_skipTrivia_bind {next : Unit → Reading β} {result : β} :
    (skipTrivia >>= next).Reads tokens result rest skipped ↔
      ∃ later, (next ()).Reads (significantFrom 0 tokens) result rest later ∧
        skipped = leadingComments tokens ++ later :=
  reads_bind_of fun _ _ _ => by simp [reads_skipTrivia]

/-- Where there is a next token, a bump passes it. -/
theorem reads_bump (h : Passes tokens token mid passed) {value : Token} :
    bump.Reads tokens value rest skipped ↔ value = token ∧ rest = mid ∧ skipped = passed := by
  simp only [bump, reads_skipTrivia_bind, reads_advance, h.significantFrom_zero,
    h.leadingComments_eq, currentToken, List.head?_cons, Option.getD_some, List.tail_cons]
  constructor
  · rintro ⟨_, ⟨rfl, rfl, rfl⟩, rfl⟩
    simp [h.isEnd_eq_false]
  · rintro ⟨rfl, rfl, rfl⟩
    exact ⟨[], ⟨rfl, by simp [h.isEnd_eq_false], rfl⟩, by simp⟩

/-- A token that matters is passed over, with the trivia in front of it. -/
theorem reads_bump_bind (h : Passes tokens token mid passed) {next : Token → Reading β}
    {result : β} :
    (bump >>= next).Reads tokens result rest skipped ↔
      ∃ later, (next token).Reads mid result rest later ∧ skipped = passed ++ later :=
  reads_bind_of fun _ _ _ => reads_bump h

/-- A token that was asked for is passed. -/
theorem reads_expect {scope : Scope} (kind : Kind) {what : Expectation} (inside : kind ≠ .eof)
    {value : Unit} :
    (expect scope kind what).Reads tokens value rest skipped ↔
      ∃ token, token.kind = kind ∧ Passes tokens token rest skipped := by
  simp only [expect, reads_skipTrivia_bind, reads_current_bind, reads_ite, reads_advance_bind,
    reads_pure, not_reads_unexpected, and_false, or_false]
  constructor
  · rintro ⟨later, ⟨same, -, rfl, rfl⟩, rfl⟩
    obtain ⟨token, rest, skipped, kind, passes⟩ := exists_passes_of_kind same inside
    rw [passes.significantFrom_zero, passes.leadingComments_eq]
    simp only [currentToken, List.head?_cons, Option.getD_some, passes.isEnd_eq_false,
      Bool.false_eq_true, if_false, List.tail_cons, List.append_nil]
    exact ⟨token, kind, passes⟩
  · rintro ⟨token, same, passes⟩
    rw [passes.significantFrom_zero, passes.leadingComments_eq]
    refine ⟨[], ⟨?_, ?_, ?_, rfl⟩, by simp⟩
    · simpa [currentToken] using same
    · trivial
    · simp [currentToken, passes.isEnd_eq_false]

/-- A token that is wanted is there, and is passed over. -/
theorem reads_expect_bind {scope : Scope} (kind : Kind) {what : Expectation}
    (inside : kind ≠ .eof) {next : Unit → Reading β} {result : β} :
    (expect scope kind what >>= next).Reads tokens result rest skipped ↔
      ∃ token mid passed later, token.kind = kind ∧ Passes tokens token mid passed ∧
        (next ()).Reads mid result rest later ∧ skipped = passed ++ later := by
  rw [reads_bind]
  simp only [reads_expect kind inside]
  constructor
  · rintro ⟨_, mid, passed, later, ⟨token, same, passes⟩, reads, rfl⟩
    exact ⟨token, mid, passed, later, same, passes, reads, rfl⟩
  · rintro ⟨token, mid, passed, later, same, passes, reads, rfl⟩
    exact ⟨(), mid, passed, later, ⟨token, same, passes⟩, reads, rfl⟩

theorem reads_identifier {scope : Scope} {what : Expectation} {text : Text} :
    (identifier scope what).Reads tokens text rest skipped ↔
      ∃ token, token.kind = .identifier ∧ text = token.text ∧
        Passes tokens token rest skipped := by
  simp only [identifier, reads_skipTrivia_bind, reads_current_bind, reads_ite,
    reads_advance_bind, reads_pure, not_reads_unexpected, and_false, or_false]
  constructor
  · rintro ⟨later, ⟨same, rfl, rfl, rfl⟩, rfl⟩
    obtain ⟨token, rest, skipped, kind, passes⟩ := exists_passes_of_kind same (by decide)
    rw [passes.significantFrom_zero, passes.leadingComments_eq]
    simp only [currentToken, List.head?_cons, Option.getD_some, passes.isEnd_eq_false,
      Bool.false_eq_true, if_false, List.tail_cons, List.append_nil]
    exact ⟨token, kind, rfl, passes⟩
  · rintro ⟨token, same, rfl, passes⟩
    rw [passes.significantFrom_zero, passes.leadingComments_eq]
    refine ⟨[], ⟨?_, ?_, ?_, rfl⟩, by simp⟩
    · simpa [currentToken] using same
    · simp [currentToken]
    · simp [currentToken, passes.isEnd_eq_false]

theorem reads_identifier_bind {scope : Scope} {what : Expectation} {next : Text → Reading β}
    {result : β} :
    (identifier scope what >>= next).Reads tokens result rest skipped ↔
      ∃ token mid passed later, token.kind = .identifier ∧ Passes tokens token mid passed ∧
        (next token.text).Reads mid result rest later ∧ skipped = passed ++ later := by
  rw [reads_bind]
  simp only [reads_identifier]
  constructor
  · rintro ⟨_, mid, passed, later, ⟨token, same, rfl, passes⟩, reads, rfl⟩
    exact ⟨token, mid, passed, later, same, passes, reads, rfl⟩
  · rintro ⟨token, mid, passed, later, same, passes, reads, rfl⟩
    exact ⟨_, mid, passed, later, ⟨token, same, rfl, passes⟩, reads, rfl⟩

/-- Either the next token is of the kind and passed, or it is not and only trivia are. -/
theorem reads_accept_bind (kind : Kind) (inside : kind ≠ .eof) {next : Bool → Reading β}
    {result : β} :
    (accept kind >>= next).Reads tokens result rest skipped ↔
      (∃ token mid passed later, token.kind = kind ∧ Passes tokens token mid passed ∧
        (next true).Reads mid result rest later ∧ skipped = passed ++ later) ∨
      ((currentToken (significantFrom 0 tokens)).kind ≠ kind ∧
        ∃ later, (next false).Reads (significantFrom 0 tokens) result rest later ∧
          skipped = leadingComments tokens ++ later) := by
  by_cases same : (currentToken (significantFrom 0 tokens)).kind = kind
  · obtain ⟨token, mid, passed, is, passes⟩ := exists_passes_of_kind same inside
    have only : ∀ value' mid' first', (accept kind).Reads tokens value' mid' first' ↔
        value' = true ∧ mid' = mid ∧ first' = passed := by
      intro value' mid' first'
      simp only [accept, reads_skipTrivia_bind, reads_current_bind, reads_advance_bind,
        passes.significantFrom_zero, passes.leadingComments_eq, currentToken, List.head?_cons,
        Option.getD_some, is, if_true, passes.isEnd_eq_false, List.tail_cons, reads_pure]
      constructor
      · rintro ⟨_, ⟨rfl, rfl, rfl⟩, rfl⟩
        simp
      · rintro ⟨rfl, rfl, rfl⟩
        exact ⟨[], by simp⟩
    rw [reads_bind_of only]
    constructor
    · rintro ⟨later, reads, rfl⟩
      exact .inl ⟨token, mid, passed, later, is, passes, reads, rfl⟩
    · rintro (⟨token', mid', passed', later, -, passes', reads, rfl⟩ | ⟨other, -⟩)
      · have same := passes.significantFrom_zero.symm.trans passes'.significantFrom_zero
        rw [List.cons.injEq] at same
        rw [same.2]
        exact ⟨later, reads, by rw [← passes.leadingComments_eq, passes'.leadingComments_eq]⟩
      · exact absurd same other
  · have only : ∀ value' mid' first', (accept kind).Reads tokens value' mid' first' ↔
        value' = false ∧ mid' = significantFrom 0 tokens ∧ first' = leadingComments tokens := by
      intro value' mid' first'
      simp only [accept, reads_skipTrivia_bind, reads_current_bind, same, if_false, reads_pure]
      constructor
      · rintro ⟨_, ⟨rfl, rfl, rfl⟩, rfl⟩
        simp
      · rintro ⟨rfl, rfl, rfl⟩
        exact ⟨[], by simp⟩
    rw [reads_bind_of only]
    constructor
    · rintro ⟨later, reads, rfl⟩
      exact .inr ⟨same, later, reads, rfl⟩
    · rintro (⟨token, mid, passed, later, is, passes, -⟩ | ⟨-, reads⟩)
      · rw [passes.significantFrom_zero] at same
        exact absurd is same
      · exact reads

/-- Two tokens tell a static block, with any trivia in front of either. -/
theorem reads_atStaticBlock_bind {next : Bool → Reading β} {result : β} :
    (atStaticBlock >>= next).Reads tokens result rest skipped ↔
      (next ((currentToken (significantFrom 0 tokens)).keyword? = some .static
        && (currentToken (significantFrom 1 tokens)).kind = .openBrace)).Reads tokens result rest
        skipped :=
  reads_bind_of_nil fun _ _ _ => by simp [atStaticBlock]

theorem reads_emptyPreface_bind {next : Preface → Reading β} {result : β} :
    (emptyPreface >>= next).Reads tokens result rest skipped ↔
      (next { start := tokens }).Reads tokens result rest skipped :=
  reads_bind_of_nil fun _ _ _ => by simp [emptyPreface]

/-! ### Constructs -/

/-- The comments stepped over become a part of the answer. -/
@[simp] theorem reads_withSkipped {reading : Reading α} {value : α × List Token} :
    reading.withSkipped.Reads tokens value rest skipped ↔
      skipped = [] ∧ reading.Reads tokens value.1 rest value.2 := by
  simp only [Reads, withSkipped]
  cases reading.run tokens with
  | failed => simp
  | read read mid passed journal =>
      obtain ⟨first, second⟩ := value
      simp only [Outcome.read.injEq, Prod.mk.injEq]
      constructor
      · rintro ⟨_, ⟨rfl, rfl⟩, rfl, rfl, rfl⟩
        exact ⟨rfl, _, rfl, rfl, rfl, rfl⟩
      · rintro ⟨rfl, _, rfl, rfl, rfl, rfl⟩
        exact ⟨_, ⟨rfl, rfl⟩, rfl, rfl, rfl⟩

/-- A construct is finished without defects, and no comment may be left over in it. -/
@[simp] theorem reads_finish {scope : Scope} {parts : Reading (Attempt α)} {node : α} :
    (finish scope parts).Reads tokens node rest skipped ↔
      skipped = [] ∧ ∃ attempt, parts.Reads tokens attempt rest [] ∧ attempt.defects = [] ∧
        attempt.built = .ok node := by
  rw [finish, reads_bind]
  simp only [reads_withSkipped, reads_note_bind]
  constructor
  · rintro ⟨⟨attempt, comments⟩, mid, _, later, ⟨rfl, reads⟩, settled, rfl⟩
    cases built : attempt.built with
    | error => simp [built] at settled
    | ok result =>
        simp only [built, reads_ite, reads_pure, not_reads_fail, and_false, or_false,
          List.append_eq_nil_iff, List.map_eq_nil_iff] at settled
        obtain ⟨⟨clean, rfl⟩, rfl, rfl, rfl⟩ := settled
        exact ⟨rfl, attempt, reads, clean, built⟩
  · rintro ⟨rfl, attempt, reads, clean, built⟩
    refine ⟨(attempt, []), rest, [], [], ⟨rfl, reads⟩, ?_, rfl⟩
    simp [built, clean]

@[simp] theorem reads_after {leading : List Defect} {reading : Reading α} {value : α} :
    (after leading reading).Reads tokens value rest skipped ↔
      reading.Reads tokens value rest skipped := by
  simp only [Reads, after]
  cases reading.run tokens <;> simp

/-- Below the bound, nothing but the reading counts; from there on, nothing but what stands in for
it. -/
@[simp] theorem reads_below {bound : Nat} {stalled reading : Reading α} {value : α} :
    (below bound stalled reading).Reads tokens value rest skipped ↔
      tokens.length < bound ∧ reading.Reads tokens value rest skipped ∨
        ¬ tokens.length < bound ∧ stalled.Reads tokens value rest skipped := by
  simp only [Reads, below]
  by_cases h : tokens.length < bound <;> simp [h]

/-! ### Repetition and nesting -/

namespace Turn

/-- The state that a turn of a repetition leads to. -/
def state : Turn σ → σ
  | again state => state
  | last state => state

/-- Whether a turn is to be followed by another one. -/
def goesOn : Turn σ → Bool
  | again _ => true
  | last _ => false

end Turn

/-- A step of a repetition that passes over no token is the last one. -/
theorem reads_iterate_cases {step : σ → Reading (Turn σ)} {state last : σ}
    (h : (iterate step state).Reads tokens last rest skipped) :
    (step state).Reads tokens (.last last) rest skipped ∨
    ((step state).Reads tokens (.again last) rest skipped ∧ ¬ rest.length < tokens.length) ∨
    ∃ next mid passed later, (step state).Reads tokens (.again next) mid passed ∧
      mid.length < tokens.length ∧ (iterate step next).Reads mid last rest later ∧
      skipped = passed ++ later := by
  obtain ⟨journal, run⟩ := h
  rw [iterate] at run
  simp only at run
  rw [iterateTokens] at run
  cases first : (step state).run tokens with
  | failed => simp [first] at run
  | read turn mid passed events =>
      rw [first] at run
      cases turn with
      | last state =>
          simp only [Outcome.read.injEq] at run
          obtain ⟨rfl, rfl, rfl, rfl⟩ := run
          exact .inl ⟨_, first⟩
      | again next =>
          simp only at run
          by_cases moved : mid.length < tokens.length
          · rw [if_pos moved] at run
            cases later : iterateTokens step next mid with
            | failed => simp [later, Outcome.behind] at run
            | read state rest' more journal' =>
                simp only [later, Outcome.behind, Outcome.read.injEq] at run
                obtain ⟨rfl, rfl, rfl, rfl⟩ := run
                exact .inr (.inr ⟨next, mid, passed, more, ⟨_, first⟩, moved, ⟨_, later⟩, rfl⟩)
          · rw [if_neg moved, Outcome.read.injEq] at run
            obtain ⟨rfl, rfl, rfl, rfl⟩ := run
            exact .inr (.inl ⟨⟨_, first⟩, moved⟩)

/-- What every step of a repetition preserves holds in front of its last step, unless a step has
passed over no token. -/
theorem reads_iterate {step : σ → Reading (Turn σ)} {state last : σ}
    (h : (iterate step state).Reads tokens last rest skipped)
    (Inv : σ → List Token → List Token → Prop) (start : Inv state tokens [])
    (again : ∀ {state tokens done next rest passed}, Inv state tokens done →
      (step state).Reads tokens (.again next) rest passed → Inv next rest (done ++ passed)) :
    ∃ before mid done passed, Inv before mid done ∧ skipped = done ++ passed ∧
      ((step before).Reads mid (.last last) rest passed ∨
        (step before).Reads mid (.again last) rest passed ∧ ¬ rest.length < mid.length) := by
  suffices general : ∀ (n : Nat) state tokens done skipped, tokens.length ≤ n →
      Inv state tokens done → (iterate step state).Reads tokens last rest skipped →
      ∃ before mid done' passed, Inv before mid done' ∧ done ++ skipped = done' ++ passed ∧
        ((step before).Reads mid (.last last) rest passed ∨
          (step before).Reads mid (.again last) rest passed ∧ ¬ rest.length < mid.length) by
    exact general tokens.length state tokens [] skipped (Nat.le_refl _) start h
  intro n
  induction n with
  | zero =>
      intro state tokens done skipped bound inv reads
      rcases reads_iterate_cases reads with ends | stalls | ⟨_, mid, _, _, _, moved, _⟩
      · exact ⟨state, tokens, done, skipped, inv, rfl, .inl ends⟩
      · exact ⟨state, tokens, done, skipped, inv, rfl, .inr stalls⟩
      · omega
  | succ n ih =>
      intro state tokens done skipped bound inv reads
      rcases reads_iterate_cases reads with ends | stalls | ⟨next, mid, passed, later, one, moved,
        others, rfl⟩
      · exact ⟨state, tokens, done, skipped, inv, rfl, .inl ends⟩
      · exact ⟨state, tokens, done, skipped, inv, rfl, .inr stalls⟩
      · rw [← List.append_assoc]
        exact ih next mid (done ++ passed) later (by omega) (again inv one) others

/-- What a reading that contains itself reads has a property, if its body passes the property on
from the readings inside it. -/
theorem reads_recurse {stalled : Reading α} {body : Reading α → Reading α}
    (Post : List Token → α → List Token → List Token → Prop)
    (blocked : ∀ {tokens value rest skipped}, ¬ stalled.Reads tokens value rest skipped)
    (step : ∀ nested : Reading α,
      (∀ {tokens value rest skipped}, nested.Reads tokens value rest skipped →
        Post tokens value rest skipped) →
      ∀ {tokens value rest skipped}, (body nested).Reads tokens value rest skipped →
        Post tokens value rest skipped) {value : α}
    (h : (recurse stalled body).Reads tokens value rest skipped) :
    Post tokens value rest skipped := by
  suffices general : ∀ (n : Nat) tokens value rest skipped, tokens.length < n →
      (recurse stalled body).Reads tokens value rest skipped → Post tokens value rest skipped by
    exact general (tokens.length + 1) tokens value rest skipped (Nat.lt_succ_self _) h
  intro n
  induction n with
  | zero =>
      intro tokens value rest skipped bound
      omega
  | succ n ih =>
      intro tokens value rest skipped bound reads
      rw [Reads, run_recurse] at reads
      refine step _ ?_ reads
      intro later value' rest' skipped' nested
      rcases reads_below.1 nested with ⟨shorter, nested⟩ | ⟨_, nested⟩
      · exact ih later value' rest' skipped' (by omega) nested
      · exact absurd nested blocked

end Reading

/-! ### Entries -/

namespace Entry

variable {entry : Entry α} {node : α}

/-- An entry reads what its reading reads. -/
theorem read_eq_ok_iff {tokens rest : List Token} :
    entry.read tokens = .ok (node, rest) ↔
      ∃ skipped, entry.reading.Reads tokens node rest skipped := by
  simp only [read, Reading.Reads]
  cases entry.reading.run tokens with
  | failed => simp
  | read value rest' skipped journal =>
      simp only [Except.ok.injEq, Prod.mk.injEq, Outcome.read.injEq]
      constructor
      · rintro ⟨rfl, rfl⟩
        exact ⟨skipped, journal, rfl, rfl, rfl, rfl⟩
      · rintro ⟨_, _, rfl, rfl, -, -⟩
        exact ⟨rfl, rfl⟩

/-- All of some tokens reads as a node if nothing but white space is behind it. -/
theorem readAll_eq_ok_iff {tokens : List Token} :
    entry.readAll tokens = .ok node ↔
      ∃ rest skipped, entry.reading.Reads tokens node rest skipped ∧
        (currentToken (rest.dropWhile Token.isWhitespace)).isEnd = true := by
  have whole : entry.readAll tokens = .ok node ↔
      ∃ rest skipped, entry.whole.Reads tokens node rest skipped := by
    simp only [readAll, Reading.Reads]
    cases entry.whole.run tokens with
    | failed => simp
    | read value rest' skipped journal => simp
  rw [whole]
  have behind : ∀ {value tokens rest skipped},
      (Reading.skipWhitespace >>= fun _ => Reading.current >>= fun next =>
        if next.isEnd then pure value
        else Reading.left >>= fun here =>
          Reading.fail ⟨entry.construct, here⟩ [.trailingInput entry.construct next]
        : Reading α).Reads tokens node rest skipped ↔
      node = value ∧ rest = tokens.dropWhile Token.isWhitespace ∧ skipped = [] ∧
        (currentToken (tokens.dropWhile Token.isWhitespace)).isEnd = true := by
    intro value tokens rest skipped
    simp only [Reading.reads_skipWhitespace_bind, Reading.reads_current_bind, Reading.reads_ite,
      Reading.reads_pure, Reading.reads_left_bind, Reading.not_reads_fail, and_false, or_false]
    constructor
    · rintro ⟨ends, rfl, rfl, rfl⟩
      exact ⟨rfl, rfl, rfl, ends⟩
    · rintro ⟨rfl, rfl, rfl, ends⟩
      exact ⟨ends, rfl, rfl, rfl⟩
  simp only [Entry.whole]
  constructor
  · rintro ⟨rest, skipped, h⟩
    rw [Reading.reads_bind] at h
    obtain ⟨value, mid, first, second, reads, ends, -⟩ := h
    obtain ⟨rfl, -, -, ends⟩ := behind.1 ends
    exact ⟨mid, first, reads, ends⟩
  · rintro ⟨rest, skipped, reads, ends⟩
    refine ⟨rest.dropWhile Token.isWhitespace, skipped, ?_⟩
    rw [Reading.reads_bind]
    exact ⟨node, rest, skipped, [], reads, behind.2 ⟨rfl, rfl, rfl, ends⟩,
      (List.append_nil skipped).symm⟩

/-- What is read from a token on is told with the index of the token behind it. -/
theorem parseAt_eq_ok_iff {stream : TokenStream} {start next : Nat} :
    entry.parseAt stream start = .ok (node, next) ↔
      ∃ rest, entry.read (stream.startingAt start) = .ok (node, rest) ∧
        stream.index rest = next := by
  rw [parseAt]
  cases entry.read (stream.startingAt start) with
  | error failure => simp
  | ok both =>
      obtain ⟨value, rest⟩ := both
      simp [and_assoc]

theorem parseAt_eq_error_iff {stream : TokenStream} {start : Nat} {problem : Problem} :
    entry.parseAt stream start = .error problem ↔
      ∃ failure, entry.read (stream.startingAt start) = .error failure ∧
        .ofFailure stream failure = problem := by
  rw [parseAt]
  cases entry.read (stream.startingAt start) <;> simp

/-- A source text reads as a node if its tokens do. -/
theorem parseText_eq_ok_iff {name source : Text} :
    entry.parseText name source = .ok node ↔
      ∃ tokens, lex source = .ok tokens ∧ entry.readAll tokens = .ok node := by
  simp only [parseText, TokenStream.make, TokenStream.ofSource]
  cases lex source with
  | error fault => simp [Except.map, Except.mapError]
  | ok tokens =>
      simp only [Except.map, Except.mapError, Except.ok.injEq, exists_eq_left']
      cases entry.readAll tokens <;> simp

end Entry

end JavaUnit
