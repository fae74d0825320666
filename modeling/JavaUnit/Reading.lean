/-
Module: JavaUnit.Reading
Purpose: Reading values from the front of a list of tokens. A reading answers with a value and the
  tokens left after it, or with a failure; besides, it tells which comments it stepped over and
  what it wrote into the journal. Whatever it does, it only moves forward, and never over the end
  of the input. That is part of the type, so readings made from readings have it for free.
Main exports: Advances, Outcome, Reading, Reading.advance, Reading.fail, Reading.scan,
  Reading.iterate, Reading.recurse
-/
import JavaUnit.Journal

namespace JavaUnit

/-! ### Moving forward -/

/-- `rest` is left of `tokens` once some tokens are passed over, none of them the end of the
input. -/
def Advances (tokens rest : List Token) : Prop :=
  ∃ passed, tokens = passed ++ rest ∧ ∀ token ∈ passed, token.isEnd = false

namespace Advances

theorem refl (tokens : List Token) : Advances tokens tokens :=
  ⟨[], by simp⟩

/-- Readings in a row move forward together. -/
theorem trans {a b c : List Token} (first : Advances a b) (second : Advances b c) :
    Advances a c := by
  obtain ⟨p, rfl, hp⟩ := first
  obtain ⟨q, rfl, hq⟩ := second
  exact ⟨p ++ q, by simp, fun token h => by
    rcases List.mem_append.1 h with h | h
    · exact hp token h
    · exact hq token h⟩

theorem cons {token : Token} {tokens rest : List Token} (h : token.isEnd = false)
    (later : Advances tokens rest) : Advances (token :: tokens) rest := by
  obtain ⟨passed, rfl, hp⟩ := later
  exact ⟨token :: passed, by simp, by simpa [h] using hp⟩

theorem length_le {tokens rest : List Token} (h : Advances tokens rest) :
    rest.length ≤ tokens.length := by
  obtain ⟨passed, rfl, _⟩ := h
  simp

end Advances

/-! ### Outcomes -/

/-- What reading comes to. -/
inductive Outcome (α : Type) where
  /-- A value, the tokens left after it, the comments stepped over on the way to it that nothing
  has accounted for yet, and the journal. -/
  | read (value : α) (rest skipped : List Token) (journal : List Event)
  | failed (failure : Failure) (journal : List Event)

namespace Outcome

/-- The outcome is one of reading from `tokens` on. -/
def From (tokens : List Token) : Outcome α → Prop
  | read _ rest _ _ => Advances tokens rest
  | failed failure _ => Advances tokens failure.stop

/-- An outcome that is behind a later place is behind an earlier one. -/
theorem From.of_advances {tokens rest : List Token} {outcome : Outcome α}
    (h : Advances tokens rest) (later : outcome.From rest) : outcome.From tokens := by
  cases outcome with
  | read => exact h.trans later
  | failed => exact h.trans later

/-- The outcome after something else was stepped over and written down first. -/
def behind (skipped : List Token) (journal : List Event) : Outcome α → Outcome α
  | read value rest more events => read value rest (skipped ++ more) (journal ++ events)
  | failed failure events => failed failure (journal ++ events)

@[simp] theorem from_behind {tokens skipped : List Token} {journal : List Event}
    {outcome : Outcome α} :
    (outcome.behind skipped journal).From tokens ↔ outcome.From tokens := by
  cases outcome <;> rfl

/-- Goes on from where something was read. -/
def andThen (outcome : Outcome α) (next : α → List Token → Outcome β) : Outcome β :=
  match outcome with
  | read value rest skipped journal => (next value rest).behind skipped journal
  | failed failure journal => failed failure journal

/-- Two readings in a row stay behind the place where the first one began. -/
theorem From.andThen {tokens : List Token} {outcome : Outcome α}
    {next : α → List Token → Outcome β} (h : outcome.From tokens)
    (later : ∀ value rest, (next value rest).From rest) :
    (outcome.andThen next).From tokens := by
  cases outcome with
  | read value rest skipped journal =>
    exact .of_advances h (by simpa [Outcome.andThen] using later value rest)
  | failed => exact h

end Outcome

/-! ### Readings -/

/-- A way of reading a value from the front of a list of tokens. -/
structure Reading (α : Type) where
  run : List Token → Outcome α
  advances : ∀ tokens, (run tokens).From tokens

namespace Reading

instance : Monad Reading where
  pure value := ⟨fun tokens => .read value tokens [] [], fun _ => .refl _⟩
  bind reading next :=
    ⟨fun tokens => (reading.run tokens).andThen fun value rest => (next value).run rest,
      fun tokens => (reading.advances tokens).andThen fun value rest => (next value).advances rest⟩

@[simp] theorem run_pure (value : α) (tokens : List Token) :
    (pure value : Reading α).run tokens = .read value tokens [] [] := rfl

@[simp] theorem run_bind (reading : Reading α) (next : α → Reading β) (tokens : List Token) :
    (reading >>= next).run tokens =
      (reading.run tokens).andThen fun value rest => (next value).run rest := rfl

/-- The tokens that are left. -/
def left : Reading (List Token) :=
  ⟨fun tokens => .read tokens tokens [] [], fun _ => .refl _⟩

/-- The first token that is left. -/
def current : Reading Token := do
  return currentToken (← left)

/-- Writes into the journal. -/
def note (events : List Event) : Reading Unit :=
  ⟨fun tokens => .read () tokens [] events, fun _ => .refl _⟩

/-- Fails here, in the construct of `scope`. -/
def fail (scope : Scope) (defects : List Defect) : Reading α :=
  ⟨fun tokens =>
      let failure : Failure := { scope with defects, stop := tokens }
      .failed failure [.failed failure],
    fun tokens => Advances.refl tokens⟩

/-- Passes over the first token, which is the answer, unless it is the end of the input. -/
def advance : Reading Token where
  run
    | [] => .read Token.endOfInput [] [] []
    | token :: rest => .read token (if token.isEnd then token :: rest else rest) [] []
  advances
    | [] => .refl _
    | token :: rest => by
      show Advances _ (if token.isEnd then token :: rest else rest)
      split
      · exact .refl _
      · next h => exact .cons (by simpa using h) (.refl _)

/-- The tokens that `verdict` lets pass one by one, and those from the first one on that it stops
at. The end of the input stops it in any case. -/
def scanTokens (verdict : σ → Token → Option σ) (state : σ) :
    List Token → List Token × List Token
  | [] => ([], [])
  | token :: rest =>
    if token.isEnd then ([], token :: rest)
    else
      match verdict state token with
      | none => ([], token :: rest)
      | some state =>
        let (passed, left) := scanTokens verdict state rest
        (token :: passed, left)

theorem advances_scanTokens (verdict : σ → Token → Option σ) (state : σ) (tokens : List Token) :
    Advances tokens (scanTokens verdict state tokens).2 := by
  induction tokens generalizing state with
  | nil => exact .refl _
  | cons token rest ih =>
    rw [scanTokens]
    split
    · exact .refl _
    · next h =>
      split
      · exact .refl _
      · exact .cons (by simpa using h) (ih _)

/-- Nothing is lost by scanning. -/
theorem scanTokens_append (verdict : σ → Token → Option σ) (state : σ) (tokens : List Token) :
    (scanTokens verdict state tokens).1 ++ (scanTokens verdict state tokens).2 = tokens := by
  induction tokens generalizing state with
  | nil => rfl
  | cons token rest ih =>
    rw [scanTokens]
    split
    · rfl
    · split
      · rfl
      · simp [ih]

/-- Passes over tokens for as long as `verdict` has a next state; they are the answer. -/
def scan (verdict : σ → Token → Option σ) (state : σ) : Reading (List Token) where
  run tokens := .read (scanTokens verdict state tokens).1 (scanTokens verdict state tokens).2 [] []
  advances := advances_scanTokens verdict state

/-- Passes over tokens of one sort. -/
def passWhile (p : Token → Bool) : Reading (List Token) :=
  scan (fun (_ : Unit) token => if p token then some () else none) ()

/-- Leaves comments to be accounted for. -/
def skip (comments : List Token) : Reading Unit :=
  ⟨fun tokens => .read () tokens comments [], fun _ => .refl _⟩

/-- The value with the comments that were stepped over on the way to it, which are thereby
accounted for. -/
def withSkipped (reading : Reading α) : Reading (α × List Token) where
  run tokens :=
    match reading.run tokens with
    | .read value rest skipped journal => .read (value, skipped) rest [] journal
    | .failed failure journal => .failed failure journal
  advances tokens := by
    have := reading.advances tokens
    split <;> simp_all [Outcome.From]

/-- Reports defects that were found earlier ahead of those of a failure. -/
def after (leading : List Defect) (reading : Reading α) : Reading α where
  run tokens :=
    match reading.run tokens with
    | .failed failure journal => .failed (failure.mergedAfter leading) journal
    | outcome => outcome
  advances tokens := by
    have := reading.advances tokens
    split <;> simp_all [Outcome.From, Failure.mergedAfter]

/-! ### Repetition -/

/-- What a step of a repetition comes to: a state to go on from, or the last one. -/
inductive Turn (σ : Type) where
  | again (state : σ)
  | last (state : σ)

/-- Repeats `step` until it gives a last state, or has not passed over any token. -/
def iterateTokens (step : σ → Reading (Turn σ)) (state : σ) (tokens : List Token) : Outcome σ :=
  match (step state).run tokens with
  | .failed failure journal => .failed failure journal
  | .read (.last state) rest skipped journal => .read state rest skipped journal
  | .read (.again state) rest skipped journal =>
    if rest.length < tokens.length then
      (iterateTokens step state rest).behind skipped journal
    else .read state rest skipped journal
termination_by tokens.length

/-- A loop moves forward, since each of its turns does. -/
theorem from_iterateTokens (step : σ → Reading (Turn σ)) (state : σ) (tokens : List Token) :
    (iterateTokens step state tokens).From tokens := by
  fun_induction iterateTokens step state tokens with
  | case1 state tokens failure journal h =>
    simpa [h, Outcome.From] using (step state).advances tokens
  | case2 state tokens last rest skipped journal h =>
    simpa [h, Outcome.From] using (step state).advances tokens
  | case3 state tokens again rest skipped journal h _ ih =>
    have step := (step state).advances tokens
    rw [h] at step
    exact .of_advances step (by simpa using ih)
  | case4 state tokens again rest skipped journal h =>
    simpa [h, Outcome.From] using (step state).advances tokens

/-- Repeats `step` until it gives a last state, which is the answer. A step that passes over
nothing is the last one. -/
def iterate (step : σ → Reading (Turn σ)) (state : σ) : Reading σ :=
  ⟨iterateTokens step state, from_iterateTokens step state⟩

/-! ### Nesting -/

/-- The reading that `body` makes of itself: `body` may use it where tokens have been passed
over. Where none has been, `stalled` stands in. -/
def recurseTokens (stalled : Reading α) (body : Reading α → Reading α) (tokens : List Token) :
    { outcome : Outcome α // outcome.From tokens } :=
  let nested : Reading α :=
    { run := fun later =>
        if _ : later.length < tokens.length then (recurseTokens stalled body later).1
        else stalled.run later
      advances := fun later => by
        split
        · exact (recurseTokens stalled body later).2
        · exact stalled.advances later }
  ⟨(body nested).run tokens, (body nested).advances tokens⟩
termination_by tokens.length

/-- A reading that contains itself at places further on. -/
def recurse (stalled : Reading α) (body : Reading α → Reading α) : Reading α :=
  ⟨fun tokens => (recurseTokens stalled body tokens).1,
    fun tokens => (recurseTokens stalled body tokens).2⟩

/-- A reading that is used only where fewer than `bound` tokens are left. -/
def below (bound : Nat) (stalled reading : Reading α) : Reading α where
  run tokens := if tokens.length < bound then reading.run tokens else stalled.run tokens
  advances tokens := by
    split
    · exact reading.advances tokens
    · exact stalled.advances tokens

/-- Reading what contains itself is reading its body, with itself at places further on. -/
theorem run_recurse (stalled : Reading α) (body : Reading α → Reading α) (tokens : List Token) :
    (recurse stalled body).run tokens =
      (body (below tokens.length stalled (recurse stalled body))).run tokens := by
  show (recurseTokens stalled body tokens).1 = _
  unfold recurseTokens
  rfl

end Reading

end JavaUnit
