/-
Module: JavaUnit.Proofs.FailureSpans
Purpose: What a failure to parse looks like from outside. Wherever in a stream parsing starts, past
  its end too, a failure is told as one of parsing, in at least one line, with a stretch of the
  source that begins and ends at ends of tokens.
Main exports: TokenStream.IsTokenBoundary, Span.FitsIn, Failure.fitsIn_span,
  Entry.parseAt_error_wellFormed
-/
import JavaUnit.Proofs.Suffixes

namespace JavaUnit

/-! ### Ends of tokens -/

namespace TokenStream

/-- The offset is one of the two ends of a token. -/
def IsTokenBoundary (stream : TokenStream) (offset : Nat) : Prop :=
  ∃ place ∈ stream.places, offset = place.2.1 ∨ offset = place.2.2

/-- A stream as cutting a text makes it: its tokens are those of its source, the end of the input
last. -/
structure IsCut (stream : TokenStream) : Prop where
  whole : textOf stream.tokens = stream.source
  present : stream.tokens ≠ []

theorem isCut_of_ofSource {name source : Text} {stream : TokenStream}
    (made : ofSource name source = .ok stream) : stream.IsCut := by
  obtain ⟨-, rfl, lexed⟩ := ofSource_eq_ok_iff.1 made
  obtain ⟨lexemes, ends, -⟩ := (lex_eq_ok_iff.1 lexed).exists_lexemes
  exact ⟨textOf_of_lex lexed, by simp [ends]⟩

variable {stream : TokenStream} {left : List Token} {offset : Nat}

/-- An end of a token divides the source in two. -/
theorem IsTokenBoundary.exists_split (cut : stream.IsCut) (h : stream.IsTokenBoundary offset) :
    ∃ before after, stream.source = before ++ after ∧ offset = before.bytes := by
  obtain ⟨⟨token, start, stop⟩, mem, ends⟩ := h
  obtain ⟨front, behind, split, begins, stops⟩ := mem_placesFrom mem
  have whole : stream.source = textOf front ++ token.text ++ textOf behind := by
    rw [← cut.whole, split]
    simp [textOf]
  rw [Nat.zero_add] at begins
  rcases ends with rfl | rfl
  · exact ⟨textOf front, token.text ++ textOf behind, by simpa using whole, begins⟩
  · refine ⟨textOf front ++ token.text, textOf behind, whole, ?_⟩
    rw [Text.bytes_append, ← begins]
    exact stops

theorem IsTokenBoundary.isBoundary (cut : stream.IsCut) (h : stream.IsTokenBoundary offset) :
    stream.source.IsBoundary offset := by
  obtain ⟨before, after, split, rfl⟩ := h.exists_split cut
  rw [split]
  exact Text.isBoundary_bytes_append before after

theorem IsTokenBoundary.le_bytes (cut : stream.IsCut) (h : stream.IsTokenBoundary offset) :
    offset ≤ stream.source.bytes := by
  obtain ⟨before, after, split, rfl⟩ := h.exists_split cut
  rw [split, Text.bytes_append]
  exact Nat.le_add_right _ _

/-- The first of the tokens that are left has its place in the stream. -/
theorem mem_places_of_eq {front rest : List Token} {token : Token} (cut : stream.IsCut)
    (split : stream.tokens = front ++ token :: rest) :
    (token, stream.offset (token :: rest), stream.endOffset (token :: rest)) ∈ stream.places := by
  have begins : stream.offset (token :: rest) = (textOf front).bytes := by
    have whole : stream.source = textOf front ++ textOf (token :: rest) := by
      rw [← cut.whole, split]
      simp [textOf]
    simp only [TokenStream.offset, List.isEmpty_cons, Bool.false_eq_true, if_false]
    rw [whole, Text.bytes_append, Nat.add_sub_cancel]
  rw [endOffset, begins, places, split, placesFrom_append, Nat.zero_add, placesFrom]
  exact List.mem_append_right _ List.mem_cons_self

/-- The source begins with a token. -/
theorem isTokenBoundary_zero (cut : stream.IsCut) : stream.IsTokenBoundary 0 := by
  obtain ⟨first, rest, split⟩ := List.exists_cons_of_ne_nil cut.present
  refine ⟨(first, 0, first.text.bytes), ?_, .inl rfl⟩
  rw [places, split, placesFrom, Nat.zero_add]
  exact List.mem_cons_self

/-- Where tokens are left, both ends of the first one are ends of a token. Past the last token the
two ends count as the start of the text. -/
theorem isTokenBoundary_of_suffix (cut : stream.IsCut) (behind : left <:+ stream.tokens) :
    stream.IsTokenBoundary (stream.offset left) ∧
      stream.IsTokenBoundary (stream.endOffset left) := by
  obtain ⟨front, split⟩ := behind
  cases left with
  | nil => exact ⟨isTokenBoundary_zero cut, isTokenBoundary_zero cut⟩
  | cons token rest =>
      have place := mem_places_of_eq cut split.symm
      exact ⟨⟨_, place, .inl rfl⟩, ⟨_, place, .inr rfl⟩⟩

end TokenStream

/-! ### Spans of failures -/

/-- The stretch lies in the source of a stream, from one end of a token to another. -/
structure Span.FitsIn (span : Span) (stream : TokenStream) : Prop where
  le_bytes : span.offset + span.length ≤ stream.source.bytes
  start : stream.IsTokenBoundary span.offset
  stop : stream.IsTokenBoundary (span.offset + span.length)
  start_char : stream.source.IsBoundary span.offset
  stop_char : stream.source.IsBoundary (span.offset + span.length)

namespace TokenStream

variable {stream : TokenStream} {start stop : List Token}

/-- The length of a stretch is what lies between its two ends: nothing is cut off in the
subtraction. -/
theorem end_of_span :
    (stream.span start stop).offset + (stream.span start stop).length =
      max (stream.endOffset stop) (stream.offset start) :=
  Nat.add_sub_of_le (Nat.le_max_right _ _)

theorem fitsIn_span (cut : stream.IsCut) (begun : start <:+ stream.tokens)
    (stopped : stop <:+ stream.tokens) : (stream.span start stop).FitsIn stream := by
  have first : stream.IsTokenBoundary (stream.span start stop).offset :=
    (isTokenBoundary_of_suffix cut begun).1
  have second : stream.IsTokenBoundary
      ((stream.span start stop).offset + (stream.span start stop).length) := by
    rw [end_of_span]
    rcases Nat.le_total (stream.endOffset stop) (stream.offset start) with before | behind
    · rw [Nat.max_eq_right before]
      exact first
    · rw [Nat.max_eq_left behind]
      exact (isTokenBoundary_of_suffix cut stopped).2
  exact ⟨second.le_bytes cut, first, second, first.isBoundary cut, second.isBoundary cut⟩

end TokenStream

theorem Advances.suffix {tokens left : List Token} (moved : Advances tokens left) :
    left <:+ tokens := by
  obtain ⟨passed, same, -⟩ := moved
  exact ⟨passed, same.symm⟩

/-! ### Failures to parse -/

namespace Entry

/-- An entry for a goal fails with a reason, and with what begins and ends among the tokens it was
given. -/
theorem suffix_of_read_error {goal : Goal} {tokens : List Token} {failure : Failure}
    (failed : goal.entry.read tokens = .error failure) :
    failure.start <:+ tokens ∧ failure.stop <:+ tokens ∧ failure.defects ≠ [] := by
  have moved := goal.entry.reading.advances tokens
  rw [read] at failed
  cases run : goal.entry.reading.run tokens with
  | read => simp [run] at failed
  | failed own journal =>
      rw [run] at moved
      obtain rfl : own = failure := by simpa [run] using failed
      have anchored := goal.anchored tokens (.refl tokens) ⟨journal, run⟩
      exact ⟨anchored.start.suffix, moved.suffix, anchored.told⟩

/-- Whatever is parsed and wherever it starts, a failure is told as a failure to parse, in at least
one line, with a stretch from one end of a token to another. -/
theorem parseAt_error_wellFormed {name source : Text} {stream : TokenStream}
    (made : TokenStream.make name source = .ok stream) {goal : Goal} {index : Nat}
    {problem : Problem} (failed : goal.entry.parseAt stream index = .error problem) :
    ∃ construct defects start stop,
      problem = .parse construct defects (stream.span start stop) name ∧
        problem.messages ≠ [] ∧
        (stream.span start stop).FitsIn stream ∧
        (stream.span start stop).offset + (stream.span start stop).length =
          max (stream.endOffset stop) (stream.offset start) := by
  have made := TokenStream.make_eq_ok_iff.1 made
  have cut := TokenStream.isCut_of_ofSource made
  obtain ⟨rfl, rfl, -⟩ := TokenStream.ofSource_eq_ok_iff.1 made
  obtain ⟨failure, read, rfl⟩ := parseAt_eq_error_iff.1 failed
  obtain ⟨begun, stopped, told⟩ := suffix_of_read_error read
  have inside : stream.startingAt index <:+ stream.tokens := List.drop_suffix _ _
  refine ⟨failure.construct, failure.defects, failure.start, failure.stop, rfl, ?_,
    TokenStream.fitsIn_span cut (begun.trans inside) (stopped.trans inside),
    TokenStream.end_of_span⟩
  simpa [Problem.ofFailure, Problem.messages] using told

/-- An import behind a comment, without its semicolon. -/
def truncatedSample : Text :=
  "/* é */ import a.b\n".toList

/-- From the import on, the semicolon is missing at the end of the source. -/
theorem parseAt_error_truncatedSample :
    ∃ stream problem, TokenStream.make [] truncatedSample = .ok stream ∧
      Goal.importStatement.entry.parseAt stream 2 = .error problem ∧
      problem = .parse (.node .importStatement) [.expected .semicolon Token.endOfInput] ⟨9, 11⟩ [] ∧
      ∃ construct defects start stop,
        problem = .parse construct defects (stream.span start stop) [] ∧
          problem.messages ≠ [] ∧
          (stream.span start stop).FitsIn stream ∧
          (stream.span start stop).offset + (stream.span start stop).length =
            max (stream.endOffset stop) (stream.offset start) := by
  have run : ((TokenStream.make [] truncatedSample).toOption.map fun stream =>
      (Goal.importStatement.entry.parseAt stream 2).map fun _ => ()) =
        some (.error (.parse (.node .importStatement) [.expected .semicolon Token.endOfInput]
          ⟨9, 11⟩ [])) := by
    decide +kernel
  obtain ⟨stream, is, parsed⟩ := Option.map_eq_some_iff.1 run
  have made := eq_ok_of_toOption is
  have failed := eq_error_of_map parsed
  exact ⟨stream, _, made, failed, rfl, parseAt_error_wellFormed made failed⟩

end Entry

end JavaUnit
