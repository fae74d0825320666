/-
Module: JavaUnit.Proofs.Unclosed
Purpose: Texts that have no tokens. Such a text has tokens up to a comment, a string or a character
  literal that is never closed; from there on it fails alone as it does as a whole. What is marked
  begins there, and goes on for as long as a closing delimiter could still follow: to the end of
  the text for comments and text blocks, and to the end of the line for all else.
Main exports: LeftOpen, exists_cuts_of_lex_eq_error, Pinpoints, lex_error_precise
-/
import JavaUnit.Proofs.Cut
import JavaUnit.Proofs.Lossless

namespace JavaUnit

/-! ### Lexemes that are not closed -/

@[simp] theorem Extent.after_eq_unclosed {extent : Extent} {n length : Nat} :
    extent.after n = .unclosed length ↔ ∃ m, extent = .unclosed m ∧ length = m + n := by
  cases extent with
  | closed m => simp [Extent.after]
  | unclosed m => simp [Extent.after, eq_comm]

@[simp] theorem Extent.scan_eq_unclosed {extent : Extent} {kind : Kind}
    {delimited found : Delimited} {more : Nat} :
    extent.scan kind delimited = .unclosed found more ↔
      extent = .unclosed more ∧ found = delimited := by
  cases extent with
  | closed m => simp [Extent.scan]
  | unclosed m => simp [Extent.scan, eq_comm, and_comm]

/-- A comment that is not closed takes all of the text. -/
theorem length_of_commentExtent {previous : Char} {text : Text} {n : Nat}
    (h : commentExtent previous text = .unclosed n) : n = text.length := by
  induction text generalizing previous n with
  | nil => exact (Extent.unclosed.inj h).symm
  | cons c rest ih =>
      rw [commentExtent] at h
      split at h
      · cases h
      · obtain ⟨m, open', rfl⟩ := Extent.after_eq_unclosed.1 h
        rw [ih open', List.length_cons]

/-- So does a text block. -/
theorem length_of_textBlockExtent {quotes : Nat} {text : Text} {n : Nat}
    (h : textBlockExtent quotes text = .unclosed n) : n = text.length := by
  fun_induction textBlockExtent quotes text generalizing n with
  | case1 => exact (Extent.unclosed.inj h).symm
  | case2 quotes c rest ih =>
      obtain ⟨m, rest, rfl⟩ := Extent.after_eq_unclosed.1 h
      rw [ih rest]
      rfl
  | case3 => cases h
  | case4 quotes rest _ _ ih =>
      obtain ⟨m, rest, rfl⟩ := Extent.after_eq_unclosed.1 h
      rw [ih rest]
      rfl
  | case5 quotes c rest _ _ ih =>
      obtain ⟨m, rest, rfl⟩ := Extent.after_eq_unclosed.1 h
      rw [ih rest]
      rfl

/-- A literal on one line that is not closed takes the rest of the line. -/
theorem exists_line_of_literalExtent {quote : Char} {text : Text} {n : Nat}
    (h : literalExtent quote text = .unclosed n) :
    ∃ inside behind, text = inside ++ behind ∧ n = inside.length ∧
      behind.head?.all endsLine = true := by
  fun_induction literalExtent quote text generalizing n with
  | case1 => exact ⟨[], [], rfl, (Extent.unclosed.inj h).symm, rfl⟩
  | case2 rest => exact ⟨['\\'], '\n' :: rest, rfl, (Extent.unclosed.inj h).symm, rfl⟩
  | case3 c rest _ ih =>
      obtain ⟨m, open', rfl⟩ := Extent.after_eq_unclosed.1 h
      obtain ⟨inside, behind, rfl, rfl, ends⟩ := ih open'
      exact ⟨'\\' :: c :: inside, behind, rfl, rfl, ends⟩
  | case4 => cases h
  | case5 c rest _ _ _ stops =>
      exact ⟨[], c :: rest, rfl, (Extent.unclosed.inj h).symm, by simpa using stops⟩
  | case6 c rest _ _ _ _ ih =>
      obtain ⟨m, open', rfl⟩ := Extent.after_eq_unclosed.1 h
      obtain ⟨inside, behind, rfl, rfl, ends⟩ := ih open'
      exact ⟨c :: inside, behind, rfl, rfl, ends⟩

/-- The lexeme that starts with `first` and goes on in `rest` is not closed within that many
characters of `rest`: one rule for each sort of lexeme that has to be closed. -/
inductive LeftOpen : Char → Text → Delimited → Nat → Prop where
  | comment {rest} : LeftOpen '/' ('*' :: rest) .comment (rest.length + 1)
  | textBlock {rest} : LeftOpen '"' ('"' :: '"' :: rest) .string (rest.length + 2)
  | string {inside behind} (noBlock : ¬ "\"\"".toList <+: inside ++ behind)
      (ends : behind.head?.all endsLine = true) :
      LeftOpen '"' (inside ++ behind) .string inside.length
  | character {inside behind} (ends : behind.head?.all endsLine = true) :
      LeftOpen '\'' (inside ++ behind) .character inside.length

theorem leftOpen_of_scan {first : Char} {rest : Text} {delimited : Delimited} {more : Nat}
    (h : scan first rest = .unclosed delimited more) : LeftOpen first rest delimited more := by
  unfold scan at h
  split at h
  case h_13 | h_14 | h_18 => split_ifs at h
  case h_15 =>
    split_ifs at h with line comment
    obtain ⟨others, rfl⟩ : ∃ others, rest = '*' :: others := by cases rest <;> simp_all
    rw [scanComment, Extent.scan_eq_unclosed, Extent.after_eq_unclosed] at h
    obtain ⟨⟨m, unclosed, rfl⟩, rfl⟩ := h
    rw [length_of_commentExtent unclosed]
    exact .comment
  case h_16 =>
    unfold scanString at h
    split at h
    · rw [Extent.scan_eq_unclosed, Extent.after_eq_unclosed] at h
      obtain ⟨⟨m, unclosed, rfl⟩, rfl⟩ := h
      rw [length_of_textBlockExtent unclosed]
      exact .textBlock
    · next single =>
      rw [Extent.scan_eq_unclosed] at h
      obtain ⟨unclosed, rfl⟩ := h
      obtain ⟨inside, behind, rfl, rfl, ends⟩ := exists_line_of_literalExtent unclosed
      refine .string ?_ ends
      rintro ⟨block, same⟩
      exact single block same.symm
  case h_17 =>
    rw [Extent.scan_eq_unclosed] at h
    obtain ⟨unclosed, rfl⟩ := h
    obtain ⟨inside, behind, rfl, rfl, ends⟩ := exists_line_of_literalExtent unclosed
    exact .character ends
  all_goals cases h

/-- A text without tokens has some up to a lexeme that is not closed, from which on it fails as it
does as a whole. -/
theorem exists_cuts_of_lex_eq_error {source : Text} {fault : Unterminated}
    (h : lex source = .error fault) :
    ∃ tokens first rest more, Cuts source tokens (first :: rest) ∧
      LeftOpen first rest fault.delimited more ∧ fault.rest = first :: rest ∧
      fault.length = more + 1 ∧ lex fault.rest = .error fault := by
  fun_induction lex source with
  | case1 => cases h
  | case2 first rest kind more scanned ih =>
      obtain ⟨tokens, first', rest', more', cuts, found⟩ := ih (eq_error_of_map h)
      exact ⟨_, first', rest', more', .cons (.of_scanned (scanned_of_scan scanned)) cuts, found⟩
  | case3 first rest delimited more unclosed =>
      obtain rfl := Except.error.inj h
      refine ⟨[], first, rest, more, .nil, leftOpen_of_scan unclosed, rfl, rfl, ?_⟩
      simp [lex, unclosed]

/-! ### What is reported -/

/-- What a lexeme that has to be closed begins with. -/
def Delimited.opening : Delimited → Text
  | .comment => "/*".toList
  | .string => ['"']
  | .character => ['\'']

/-- The stretch that a fault is reported with, where it begins in a text, `front` in front of it and
`rest` from there on. -/
structure Pinpoints (source : Text) (fault : Unterminated) (span : Span) (front rest : Text) :
    Prop where
  start : source.splitAtByte? span.offset = some (front, rest)
  stop : source.IsBoundary (span.offset + span.length)
  stop_le : span.offset + span.length ≤ source.bytes
  /-- The text in front has tokens. -/
  before : ∃ tokens, lex front = .ok tokens
  /-- From there on the text fails alone as it does as a whole. -/
  alone : ∃ own, lex rest = .error own ∧ own.delimited = fault.delimited ∧
    own.span rest = ⟨0, span.length⟩
  opening : fault.delimited.opening <+: rest
  /-- A comment or a text block could be closed up to the end of the text. -/
  stop_block : fault.delimited = .comment ∨ "\"\"\"".toList <+: rest →
    span.offset + span.length = source.bytes
  /-- Another literal could be closed up to the end of the line. -/
  stop_line : span.offset + span.length = source.bytes ∨
    ∃ before c behind,
      source.splitAtByte? (span.offset + span.length) = some (before, c :: behind) ∧
        endsLine c = true

namespace LeftOpen

variable {first : Char} {rest : Text} {delimited : Delimited} {more : Nat}

theorem first_ne_dot (h : LeftOpen first rest delimited more) : first ≠ '.' := by
  cases h <;> decide

theorem opening (h : LeftOpen first rest delimited more) : delimited.opening <+: first :: rest := by
  cases h with
  | comment => exact ⟨_, rfl⟩
  | textBlock => exact ⟨_, rfl⟩
  | string => exact ⟨_, rfl⟩
  | character => exact ⟨_, rfl⟩

/-- Behind what a closing delimiter could stand in, the text or the line ends. -/
theorem ends (h : LeftOpen first rest delimited more) :
    (rest.drop more).head?.all endsLine = true := by
  cases h with
  | comment => simp
  | textBlock => simp
  | string _ ends => rwa [List.drop_left]
  | character ends => rwa [List.drop_left]

/-- Comments and text blocks do not end with the line. -/
theorem drop_eq_nil (h : LeftOpen first rest delimited more)
    (block : delimited = .comment ∨ "\"\"\"".toList <+: first :: rest) : rest.drop more = [] := by
  cases h with
  | comment => simp
  | textBlock => simp
  | string noBlock =>
      rcases block with kind | ⟨others, same⟩
      · cases kind
      · exact absurd ⟨others, List.tail_eq_of_cons_eq same⟩ noBlock
  | character =>
      rcases block with kind | ⟨others, same⟩
      · cases kind
      · exact absurd (List.head_eq_of_cons_eq same) (by decide)

end LeftOpen

/-- Where a text has no tokens, the fault that is reported is precise: the text in front of the
lexeme that is not closed has tokens, none of which depends on what stands behind it, the text from
the lexeme on fails in the same way, and what is marked ends where a closing delimiter could not
stand any more. -/
theorem lex_error_precise {source : Text} {fault : Unterminated} (h : lex source = .error fault) :
    ∃ front rest, Pinpoints source fault (fault.span source) front rest := by
  obtain ⟨delimited, text, length⟩ := fault
  obtain ⟨tokens, first, rest, more, cuts, leftOpen, rfl, rfl, again⟩ :=
    exists_cuts_of_lex_eq_error h
  obtain rfl : source = textOf tokens ++ first :: rest := cuts.text_eq
  have noDot : (first :: rest).head? ≠ some '.' := by simpa using leftOpen.first_ne_dot
  have parts : textOf tokens ++ first :: rest =
      (textOf tokens ++ first :: rest.take more) ++ rest.drop more := by
    rw [List.append_assoc, List.cons_append, List.take_append_drop]
  have span : Unterminated.span ⟨delimited, first :: rest, more + 1⟩
      (textOf tokens ++ first :: rest) =
        ⟨(textOf tokens).bytes, Text.bytes (first :: rest.take more)⟩ := by
    rw [Unterminated.span, Text.bytes_append, Nat.add_sub_cancel, List.take_succ_cons]
  have split : (textOf tokens ++ first :: rest).splitAtByte?
      ((textOf tokens).bytes + Text.bytes (first :: rest.take more)) =
        some (textOf tokens ++ first :: rest.take more, rest.drop more) := by
    rw [parts, ← Text.bytes_append]
    exact Text.splitAtByte?_append _ _
  have size : (textOf tokens ++ first :: rest).bytes =
      (textOf tokens).bytes + Text.bytes (first :: rest.take more) +
        Text.bytes (rest.drop more) := by
    rw [parts, Text.bytes_append, Text.bytes_append]
  refine ⟨textOf tokens, first :: rest, ?_⟩
  rw [span]
  constructor
  case start => exact Text.splitAtByte?_append _ _
  case stop => exact Option.isSome_of_eq_some split
  case stop_le =>
    rw [size]
    exact Nat.le_add_right _ _
  case before =>
    exact ⟨_, lex_eq_ok_iff.2 (lexed_iff_cuts.2 ⟨tokens, rfl, cuts.cutShort noDot⟩)⟩
  case alone =>
    refine ⟨_, again, rfl, ?_⟩
    rw [Unterminated.span, Nat.sub_self, List.take_succ_cons]
  case opening => exact leftOpen.opening
  case stop_block =>
    intro block
    rw [size, leftOpen.drop_eq_nil block, Text.bytes_nil, Nat.add_zero]
  case stop_line =>
    cases ended : rest.drop more with
    | nil =>
        left
        rw [size, ended, Text.bytes_nil, Nat.add_zero]
    | cons c others =>
        right
        have stops := leftOpen.ends
        rw [ended] at split stops
        exact ⟨_, c, others, split, by simpa using stops⟩

/-- Two dots and a string whose backslash does not take the line feed along. -/
theorem lex_error_precise_escapedFeed :
    lex "é1..\"a\\\n;".toList = .error ⟨.string, "\"a\\\n;".toList, 3⟩ ∧
      Unterminated.span ⟨.string, "\"a\\\n;".toList, 3⟩ "é1..\"a\\\n;".toList = ⟨5, 3⟩ ∧
      ∃ front rest, Pinpoints "é1..\"a\\\n;".toList ⟨.string, "\"a\\\n;".toList, 3⟩
        (Unterminated.span ⟨.string, "\"a\\\n;".toList, 3⟩ "é1..\"a\\\n;".toList) front rest := by
  have failed : lex "é1..\"a\\\n;".toList = .error ⟨.string, "\"a\\\n;".toList, 3⟩ := by
    decide +kernel
  exact ⟨failed, by decide +kernel, lex_error_precise failed⟩

end JavaUnit
