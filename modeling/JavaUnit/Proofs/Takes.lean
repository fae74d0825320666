/-
Module: JavaUnit.Proofs.Takes
Purpose: Reading from text, forward: what a reading makes of the front of a text, whatever stands
  behind it. The laws follow the ways in which readings are put together, so that a rendering is
  read part by part.
Main exports: Ahead, Peeks, Reading.Takes, Takes.bind, Takes.again, Takes.finish
-/
import JavaUnit.Proofs.Cut
import JavaUnit.Proofs.Reads
import JavaUnit.Proofs.Trim

namespace JavaUnit

/-! ### What stands ahead -/

/-- The tokens of white space: one, or none if there is no white space. -/
def blankTokens (blanks : Text) : List Token :=
  if blanks = [] then [] else [⟨.whitespace, blanks⟩]

theorem isWhitespace_of_mem_blankTokens {blanks : Text} {token : Token}
    (h : token ∈ blankTokens blanks) : token.isWhitespace = true := by
  rw [blankTokens] at h
  split at h
  · cases h
  · rw [List.mem_singleton] at h
    rw [h]
    rfl

/-- White space is one token, up to the first character that is none. -/
theorem cuts_blanks {blanks text : Text} (blank : blanks.isBlank = true)
    (ends : text.head?.all (!isBlank ·) = true) :
    Cuts (blanks ++ text) (blankTokens blanks) text := by
  rw [blankTokens]
  split
  · next none =>
      rw [none]
      exact .nil
  · next some =>
      exact .cons (cut_whitespace some (List.all_eq_true.1 blank) ends) .nil

/-- Behind white space, `text` goes on with a token that matters. -/
inductive Ahead : Text → Token → Text → Prop where
  | intro {blanks text token rest} (blank : Text.isBlank blanks = true) (cut : Cut text token rest)
      (matters : token.isTrivia = false) : Ahead (blanks ++ text) token rest

/-- The `n`-th token of a text that matters, counted from zero. -/
def Peeks (n : Nat) (text : Text) (token : Token) : Prop :=
  ∀ tokens, Lexed text tokens → currentToken (significantFrom n tokens) = token

/-- The first token of a text. -/
def Begins (text : Text) (token : Token) : Prop :=
  ∀ tokens, Lexed text tokens → currentToken tokens = token

/-- White space in front of a token is passed over with it, and no comment is skipped. -/
theorem passes_append {front later : List Token} {token : Token}
    (blank : ∀ token ∈ front, token.isWhitespace = true) (matters : token.isTrivia = false)
    (inside : token.isEnd = false) : Passes (front ++ token :: later) token later [] := by
  induction front with
  | nil => exact .token matters inside
  | cons first others ih =>
      exact .whitespace (blank first List.mem_cons_self)
        (ih fun token mem => blank token (List.mem_cons_of_mem _ mem))

theorem head_of_cut {text rest : Text} {token : Token} (h : Cut text token rest)
    (ink : token.isWhitespace = false) : text.head?.all (!isBlank ·) = true := by
  cases first : text.head? with
  | none => rfl
  | some c =>
      cases blank : isBlank c with
      | false => simp [blank]
      | true =>
          have white := h.whitespace_of_blank (by rw [first]; exact blank)
          simp [Token.isWhitespace, white] at ink

namespace Ahead

variable {text mid rest : Text} {token : Token}

theorem of_cut (cut : Cut text token rest) (matters : token.isTrivia = false) :
    Ahead text token rest :=
  @Ahead.intro [] _ _ _ rfl cut matters

theorem of_blanks {blanks : Text} (blank : blanks.isBlank = true) (h : Ahead text token rest) :
    Ahead (blanks ++ text) token rest := by
  obtain ⟨blank', cut, matters⟩ := h
  rw [← List.append_assoc]
  exact .intro (by rw [Text.isBlank_append, blank, blank']; rfl) cut matters

theorem of_space (h : Ahead text token rest) : Ahead (' ' :: text) token rest :=
  @of_blanks _ _ _ [' '] (by decide) h

theorem matters (h : Ahead text token rest) : token.isTrivia = false := by
  obtain ⟨_, _, matters⟩ := h
  exact matters

theorem isEnd_eq_false (h : Ahead text token rest) : token.isEnd = false := by
  obtain ⟨_, cut, _⟩ := h
  exact cut.isEnd_eq_false

/-- A text is cut up to the token that is ahead, with nothing but white space in front of it. -/
theorem exists_cuts (h : Ahead text token rest) :
    ∃ front, Cuts text (front ++ [token]) rest ∧ ∀ token ∈ front, token.isWhitespace = true := by
  obtain ⟨blank, cut, matters⟩ := h
  have ink : token.isWhitespace = false := by
    rw [Token.isTrivia, Bool.or_eq_false_iff] at matters
    exact matters.1
  exact ⟨_, (cuts_blanks blank (head_of_cut cut ink)).append (.cons cut .nil),
    fun _ mem => isWhitespace_of_mem_blankTokens mem⟩

/-- The token is passed in any list of tokens that the text is cut into. -/
theorem exists_passes (h : Ahead text token rest) :
    ∃ tokens, Cuts text tokens rest ∧ ∀ later, Passes (tokens ++ later) token later [] := by
  obtain ⟨front, cuts, blank⟩ := h.exists_cuts
  refine ⟨_, cuts, fun later => ?_⟩
  rw [List.append_assoc]
  exact passes_append blank h.matters h.isEnd_eq_false

theorem peeks (h : Ahead text token rest) : Peeks 0 text token := by
  intro tokens lexed
  obtain ⟨front, cuts, passes⟩ := h.exists_passes
  obtain ⟨later, rfl, -⟩ := cuts.lexed_iff.1 lexed
  rw [(passes later).significantFrom_zero]
  rfl

/-- Looking one token further is looking behind the token that is ahead. -/
theorem peeks_succ (h : Ahead text token rest) {n : Nat} {next : Token} (later : Peeks n rest next) :
    Peeks (n + 1) text next := by
  intro tokens lexed
  obtain ⟨front, cuts, passes⟩ := h.exists_passes
  obtain ⟨behind, rfl, lexed'⟩ := cuts.lexed_iff.1 lexed
  rw [(passes behind).significantFrom_succ]
  exact later behind lexed'

end Ahead

/-- Trivia are looked past, comments included. -/
theorem peeks_of_cut {text rest : Text} {token next : Token} {n : Nat} (cut : Cut text token rest)
    (trivia : token.isTrivia = true) (h : Peeks n rest next) : Peeks n text next := by
  intro tokens lexed
  obtain ⟨later, rfl, lexed'⟩ := cut.lexed_iff.1 lexed
  have skips : significantFrom n (token :: later) = significantFrom n later := by
    cases n <;> simp [significantFrom, trivia]
  rw [skips]
  exact h later lexed'

theorem peeks_nil (n : Nat) : Peeks n [] Token.endOfInput := by
  intro tokens lexed
  cases lexed
  cases n <;> rfl

theorem begins_of_cut {text rest : Text} {token : Token} (cut : Cut text token rest) :
    Begins text token := by
  intro tokens lexed
  obtain ⟨later, rfl, -⟩ := cut.lexed_iff.1 lexed
  rfl

/-! ### Reading -/

namespace Reading

/-- The reading makes `value` of the front of `text` and leaves the tokens of `rest`, without
stepping over a comment. -/
def Takes (reading : Reading α) (text : Text) (value : α) (rest : Text) : Prop :=
  ∃ tokens, Cuts text tokens rest ∧
    ∀ later, Lexed rest later → reading.Reads (tokens ++ later) value later []

variable {reading : Reading α} {next : α → Reading β} {text mid rest : Text} {value : α}
  {result : β} {token : Token}

theorem takes_pure : (pure value : Reading α).Takes text value text :=
  ⟨[], .nil, fun _ _ => reads_pure.2 ⟨rfl, rfl, rfl⟩⟩

/-- Two readings in a row take the texts that stand in a row. -/
theorem Takes.bind (h : reading.Takes text value mid) (later : (next value).Takes mid result rest) :
    (reading >>= next).Takes text result rest := by
  obtain ⟨tokens, cuts, reads⟩ := h
  obtain ⟨tokens', cuts', reads'⟩ := later
  refine ⟨_, cuts.append cuts', fun behind lexed => ?_⟩
  rw [List.append_assoc]
  exact reads_bind_nil.2 ⟨value, _, reads _ (cuts'.lexed lexed), reads' behind lexed⟩

/-- What is read is known from the tokens that it is read from. -/
theorem takes_of_reads {tokens : List Token} (cuts : Cuts text tokens rest)
    (reads : ∀ later, reading.Reads (tokens ++ later) value later []) :
    reading.Takes text value rest :=
  ⟨tokens, cuts, fun later _ => reads later⟩

/-- A reading that only looks ahead, at something that is the same for all tokens of the text. -/
theorem Takes.look {see : Reading γ} {seen : γ} {next : γ → Reading β}
    (h : (next seen).Takes text result rest)
    (look : ∀ tokens, Lexed text tokens → see.Reads tokens seen tokens []) :
    (see >>= next).Takes text result rest := by
  obtain ⟨tokens, cuts, reads⟩ := h
  exact ⟨tokens, cuts, fun later lexed =>
    reads_bind_nil.2 ⟨seen, _, look _ (cuts.lexed lexed), reads later lexed⟩⟩

theorem Takes.peek {n : Nat} {next : Token → Reading β} (ahead : Peeks n text token)
    (h : (next token).Takes text result rest) : (peek n >>= next).Takes text result rest :=
  h.look fun tokens lexed => reads_peek.2 ⟨(ahead tokens lexed).symm, rfl, rfl⟩

theorem Takes.current {next : Token → Reading β} (begins : Begins text token)
    (h : (next token).Takes text result rest) : (current >>= next).Takes text result rest :=
  h.look fun tokens lexed => reads_current.2 ⟨(begins tokens lexed).symm, rfl, rfl⟩

/-- Readings that all make the same of the front of a text make it of the same tokens. -/
theorem Takes.uniform {ι : Type} [Inhabited ι] {each : ι → Reading α}
    (h : ∀ i, (each i).Takes text value rest) :
    ∃ tokens, Cuts text tokens rest ∧
      ∀ i later, Lexed rest later → (each i).Reads (tokens ++ later) value later [] := by
  obtain ⟨tokens, cuts, -⟩ := h default
  refine ⟨tokens, cuts, fun i later lexed => ?_⟩
  obtain ⟨tokens', cuts', reads⟩ := h i
  have same := lex_eq_ok_iff.2 (cuts'.lexed lexed)
  rw [lex_eq_ok_iff.2 (cuts.lexed lexed), Except.ok.injEq] at same
  rw [same]
  exact reads later lexed

/-- A place is not known, so what is read must not depend on it. -/
theorem Takes.anywhere {next : List Token → Reading β}
    (h : ∀ tokens, (next tokens).Takes text result rest) :
    (Reading.left >>= next).Takes text result rest := by
  obtain ⟨tokens, cuts, reads⟩ := Takes.uniform h
  refine ⟨tokens, cuts, fun later lexed => ?_⟩
  rw [reads_left_bind]
  exact reads _ later lexed

/-- A look ahead that does not matter. -/
theorem Takes.peekAny {n : Nat} {next : Token → Reading β}
    (h : ∀ token, (next token).Takes text result rest) :
    (Reading.peek n >>= next).Takes text result rest := by
  have anywhere : (Reading.left >>= fun tokens =>
      next (currentToken (significantFrom n tokens))).Takes text result rest :=
    .anywhere fun tokens => h _
  obtain ⟨tokens, cuts, reads⟩ := anywhere
  refine ⟨tokens, cuts, fun later lexed => ?_⟩
  have reads := reads later lexed
  rw [reads_left_bind] at reads
  rwa [reads_peek_bind]

/-! ### Steps -/

/-- A token is taken from the text that it is cut from. -/
theorem takes_advance (cut : Cut text token rest) : advance.Takes text token rest := by
  refine takes_of_reads (.cons cut .nil) fun later => reads_advance.2 ⟨rfl, ?_, rfl⟩
  rw [if_neg (by simp [cut.isEnd_eq_false])]
  rfl

theorem takes_bump (ahead : Ahead text token rest) : bump.Takes text token rest := by
  obtain ⟨tokens, cuts, passes⟩ := ahead.exists_passes
  exact takes_of_reads cuts fun later => (reads_bump (passes later)).2 ⟨rfl, rfl, rfl⟩

/-- A token of the kind that is wanted is taken, with the white space in front of it. -/
theorem takes_expect {scope : Scope} {what : Expectation} (ahead : Ahead text token rest) :
    (expect scope token.kind what).Takes text () rest := by
  obtain ⟨tokens, cuts, passes⟩ := ahead.exists_passes
  refine takes_of_reads cuts fun later => (reads_expect token.kind ?_).2 ⟨token, rfl, passes later⟩
  have inside := ahead.isEnd_eq_false
  simpa [Token.isEnd] using inside

theorem takes_identifier {scope : Scope} {what : Expectation} {name : Text}
    (ahead : Ahead text ⟨.identifier, name⟩ rest) :
    (identifier scope what).Takes text name rest := by
  obtain ⟨tokens, cuts, passes⟩ := ahead.exists_passes
  exact takes_of_reads cuts fun later => reads_identifier.2 ⟨_, rfl, rfl, passes later⟩

theorem takes_skipWhitespace {blanks : Text} (blank : blanks.isBlank = true)
    (ends : text.head?.all (!isBlank ·) = true) :
    skipWhitespace.Takes (blanks ++ text) () text := by
  refine ⟨_, cuts_blanks blank ends, fun later lexed => ?_⟩
  have stays : later.dropWhile Token.isWhitespace = later := by
    cases later with
    | nil => rfl
    | cons token others =>
        have ink : token.isWhitespace = false := by
          by_contra white
          rw [Bool.not_eq_false] at white
          obtain ⟨rest, cut, -⟩ := lexed.exists_cut (by simp_all [Token.isWhitespace, Token.isEnd])
          obtain ⟨blanks, -⟩ := cut.blank_of_whitespace (by simpa [Token.isWhitespace] using white)
          obtain ⟨c, others, whole⟩ := List.exists_cons_of_ne_nil cut.text_ne_nil
          rw [cut.text_eq, whole] at ends
          have blank := blanks c (by simp [whole])
          simp [blank] at ends
        simp [ink]
  have reads : (skipWhitespace >>= pure).Reads (blankTokens blanks ++ later) () later [] :=
    reads_skipWhitespace_bind.2 (reads_pure.2 ⟨rfl, ?_, rfl⟩)
  · obtain ⟨_, mid, first, second, first', second', split⟩ := reads_bind.1 reads
    obtain ⟨-, rfl, rfl⟩ := reads_pure.1 second'
    rw [List.append_nil] at split
    rw [split]
    exact first'
  · rw [List.dropWhile_append_of_pos fun token mem => isWhitespace_of_mem_blankTokens mem, stays]

/-- White space is passed over up to a token that is not trivia. -/
theorem takes_skipTrivia {blanks : Text} (blank : blanks.isBlank = true)
    (cut : Cut text token rest) (matters : token.isTrivia = false) :
    skipTrivia.Takes (blanks ++ text) () text := by
  have ink : token.isWhitespace = false := by
    rw [Token.isTrivia, Bool.or_eq_false_iff] at matters
    exact matters.1
  refine ⟨_, cuts_blanks blank (head_of_cut cut ink), fun later lexed => ?_⟩
  obtain ⟨others, rfl, -⟩ := cut.lexed_iff.1 lexed
  have passes : Passes (blankTokens blanks ++ token :: others) token others [] :=
    passes_append (fun _ mem => isWhitespace_of_mem_blankTokens mem) matters cut.isEnd_eq_false
  exact reads_skipTrivia.2 ⟨passes.significantFrom_zero.symm, passes.leadingComments_eq.symm⟩

/-- A next token of another kind is not passed over, but the white space in front of it is. -/
theorem takes_accept_other {kind : Kind} {blanks : Text} (blank : blanks.isBlank = true)
    (cut : Cut text token rest) (matters : token.isTrivia = false) (other : token.kind ≠ kind) :
    (accept kind).Takes (blanks ++ text) false text := by
  refine (takes_skipTrivia blank cut matters).bind (Takes.current (begins_of_cut cut) ?_)
  rw [if_neg other]
  exact takes_pure

theorem takes_accept (cut : Cut text token rest) (matters : token.isTrivia = false) :
    (accept token.kind).Takes text true rest := by
  refine (@takes_skipTrivia _ _ _ [] rfl cut matters).bind (Takes.current (begins_of_cut cut) ?_)
  rw [if_pos rfl]
  exact (takes_advance cut).bind takes_pure

/-- Where a construct begins does not matter to what it takes. -/
theorem Takes.scopeHere {kind : NodeKind} {next : Scope → Reading β}
    (ends : text.head?.all (!isBlank ·) = true)
    (h : ∀ scope, (next scope).Takes text result rest) :
    (scopeHere kind >>= next).Takes text result rest := by
  have none : skipWhitespace.Takes ([] ++ text) () text := takes_skipWhitespace rfl ends
  have apart : (skipWhitespace >>= fun _ => Reading.left >>= fun tokens =>
      next ⟨.node kind, tokens⟩).Takes text result rest :=
    none.bind (.anywhere fun tokens => h _)
  obtain ⟨tokens, cuts, reads⟩ := apart
  refine ⟨tokens, cuts, fun later lexed => ?_⟩
  have reads := reads later lexed
  rw [reads_skipWhitespace_bind, reads_left_bind] at reads
  rwa [reads_scopeHere_bind]

/-! ### Putting readings together -/

/-- A construct without defects takes what its parts take, as the node that is built from them. -/
theorem Takes.finish {scope : Scope} {parts : Reading (Attempt α)} (attempt : Attempt α)
    (h : parts.Takes text attempt rest) (clean : attempt.defects = [])
    (built : attempt.built = .ok value) : (finish scope parts).Takes text value rest := by
  obtain ⟨tokens, cuts, reads⟩ := h
  exact ⟨tokens, cuts, fun later lexed =>
    reads_finish.2 ⟨rfl, attempt, reads later lexed, clean, built⟩⟩

theorem reads_iterate_last {step : σ → Reading (Turn σ)} {state last : σ}
    {tokens rest skipped : List Token} (h : (step state).Reads tokens (.last last) rest skipped) :
    (iterate step state).Reads tokens last rest skipped := by
  obtain ⟨journal, run⟩ := h
  refine ⟨journal, ?_⟩
  show iterateTokens step state tokens = _
  rw [iterateTokens, run]

/-- A turn that passes over a token is followed by the others. -/
theorem reads_iterate_again {step : σ → Reading (Turn σ)} {state next last : σ}
    {tokens mid rest first second : List Token}
    (h : (step state).Reads tokens (.again next) mid first) (moved : mid.length < tokens.length)
    (later : (iterate step next).Reads mid last rest second) :
    (iterate step state).Reads tokens last rest (first ++ second) := by
  obtain ⟨journal, run⟩ := h
  obtain ⟨journal', run'⟩ := later
  refine ⟨journal ++ journal', ?_⟩
  show iterateTokens step state tokens = _
  rw [iterateTokens, run]
  simp only [if_pos moved]
  have run' : iterateTokens step next mid = _ := run'
  rw [run']
  rfl

theorem Takes.last {step : σ → Reading (Turn σ)} {state last : σ}
    (h : (step state).Takes text (.last last) rest) : (iterate step state).Takes text last rest := by
  obtain ⟨tokens, cuts, reads⟩ := h
  exact ⟨tokens, cuts, fun later lexed => reads_iterate_last (reads later lexed)⟩

/-- The texts of the turns of a loop stand in a row. A turn must not be empty. -/
theorem Takes.again {step : σ → Reading (Turn σ)} {state next last : σ}
    (h : (step state).Takes text (.again next) mid) (moves : text ≠ mid)
    (later : (iterate step next).Takes mid last rest) : (iterate step state).Takes text last rest := by
  obtain ⟨tokens, cuts, reads⟩ := h
  obtain ⟨tokens', cuts', reads'⟩ := later
  refine ⟨_, cuts.append cuts', fun behind lexed => ?_⟩
  have some : tokens ≠ [] := by
    rintro rfl
    cases cuts
    exact moves rfl
  have shorter : (tokens' ++ behind).length < (tokens ++ tokens' ++ behind).length := by
    have := List.length_pos_iff.2 some
    simp only [List.length_append]
    omega
  rw [List.append_assoc] at shorter ⊢
  exact reads_iterate_again (reads _ (cuts'.lexed lexed)) shorter (reads' behind lexed)

end Reading

end JavaUnit
