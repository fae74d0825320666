/-
Module: JavaUnit.Proofs.Scan
Purpose: What a single scan can come to, one rule for each sort of lexeme, and cutting a text into
  tokens as one such step after another. The rules say all that later proofs need to know about
  the scanner: none of them looks into it again.
Main exports: Scanned, scan_eq_token_iff, Lexed, lex_eq_ok_iff
-/
import Mathlib.Data.List.Basic
import Mathlib.Data.List.Forall2
import Mathlib.Tactic.Common
import JavaUnit.Token.Stream

namespace JavaUnit

/-- An outcome that evaluates to a value is that value. -/
theorem eq_ok_of_toOption {outcome : Except ε α} {value : α}
    (h : outcome.toOption = some value) : outcome = .ok value := by
  cases outcome with
  | error fault => simp [Except.toOption] at h
  | ok found =>
      simp only [Except.toOption, Option.some.injEq] at h
      rw [h]

/-- A changed outcome has a value if the outcome has one, which is changed. -/
theorem map_eq_ok_iff {outcome : Except ε α} {f : α → β} {value : β} :
    outcome.map f = .ok value ↔ ∃ found, outcome = .ok found ∧ f found = value := by
  cases outcome <;> simp [Except.map]

/-- Two steps in a row have a value if the first has one and the second has one on it. -/
theorem bind_eq_ok_iff {outcome : Except ε α} {next : α → Except ε β} {value : β} :
    (outcome >>= next) = .ok value ↔ ∃ found, outcome = .ok found ∧ next found = .ok value := by
  cases outcome <;> simp [bind, Except.bind]

/-- An outcome whose change fails has failed. -/
theorem eq_error_of_map {outcome : Except ε α} {f : α → β} {fault : ε}
    (h : outcome.map f = .error fault) : outcome = .error fault := by
  cases outcome with
  | error => exact congrArg Except.error (Except.error.inj h)
  | ok => cases h

/-! ### Sorts of characters -/

/-- The code points of the white space characters, one by one. -/
def blankCodes : List Nat :=
  [0x9, 0xA, 0xB, 0xC, 0xD, 0x20, 0x85, 0xA0, 0x1680, 0x2000, 0x2001, 0x2002, 0x2003, 0x2004,
    0x2005, 0x2006, 0x2007, 0x2008, 0x2009, 0x200A, 0x2028, 0x2029, 0x202F, 0x205F, 0x3000]

theorem mem_blankCodes {c : Char} (h : isBlank c = true) : c ∈ blankCodes.map Char.ofNat := by
  have code : c.toNat ∈ blankCodes := by
    simp only [isBlank, Ranges.contains, blankRanges, List.any_cons, List.any_nil, Bool.or_false,
      Bool.or_eq_true, Bool.and_eq_true, decide_eq_true_eq] at h
    simp only [blankCodes, List.mem_cons, List.not_mem_nil, or_false]
    omega
  rw [← Char.ofNat_toNat c]
  exact List.mem_map_of_mem code

/-- No word goes on with white space. -/
theorem not_isWordPart_of_isBlank {c : Char} (h : isBlank c = true) : isWordPart c = false := by
  have each : (blankCodes.map Char.ofNat).all (!isWordPart ·) = true := by decide +kernel
  simpa using List.all_eq_true.1 each c (mem_blankCodes h)

theorem isWordPart_of_isWordStart {c : Char} (h : isWordStart c = true) : isWordPart c = true := by
  simp only [isWordStart, Bool.or_eq_true] at h
  simp only [isWordPart, isLetterOrNumber, Bool.or_eq_true]
  rcases h with (h | h) | h
  · exact .inl (.inl (.inl h))
  · exact .inl (.inr h)
  · exact .inr h

/-- No word starts with white space. -/
theorem not_isBlank_of_isWordStart {c : Char} (h : isWordStart c = true) : isBlank c = false := by
  cases hb : isBlank c with
  | false => rfl
  | true =>
      exact absurd (isWordPart_of_isWordStart h) (by simp [not_isWordPart_of_isBlank hb])

/-- The digits. -/
def digitChars : List Char := "0123456789".toList

theorem mem_digitChars {c : Char} (h : c.isDigit = true) : c ∈ digitChars := by
  have code : c.toNat ∈ List.range' 48 10 := by
    simp only [Char.isDigit, Bool.and_eq_true, decide_eq_true_eq] at h
    simp only [List.mem_range'_1]
    exact ⟨h.1, Nat.lt_succ_of_le h.2⟩
  have chars : digitChars = (List.range' 48 10).map Char.ofNat := by decide
  rw [chars, ← Char.ofNat_toNat c]
  exact List.mem_map_of_mem code

/-! ### Extents -/

@[simp] theorem Extent.after_eq_closed {extent : Extent} {n length : Nat} :
    extent.after n = .closed length ↔ ∃ m, extent = .closed m ∧ length = m + n := by
  cases extent with
  | closed m => simp [Extent.after, eq_comm]
  | unclosed m => simp [Extent.after]

@[simp] theorem Extent.scan_eq_token {extent : Extent} {kind found : Kind} {delimited : Delimited}
    {more : Nat} :
    extent.scan kind delimited = .token found more ↔ extent = .closed more ∧ found = kind := by
  cases extent with
  | closed m => simp [Extent.scan, eq_comm, and_comm]
  | unclosed m => simp [Extent.scan]

/-! ### What a scan can be -/

/-- The characters that are a token on their own whatever follows. -/
def punctuation : List (Char × Kind) :=
  [('{', .openBrace), ('}', .closeBrace), ('(', .openParen), (')', .closeParen),
    ('[', .openBracket), (']', .closeBracket), (';', .semicolon), (',', .comma), ('@', .atSign),
    ('<', .less), ('>', .greater), ('?', .question)]

/-- The characters that decide on the kind of a token together with what follows. -/
def opensLexeme (c : Char) : Bool :=
  c ∈ ['=', '.', '/', '"', '\''] || c ∈ punctuation.map (·.1)

/-- The token that starts with `first` and goes on for some characters of `rest`: one rule for each
sort of lexeme. -/
inductive Scanned : Char → Text → Kind → Nat → Prop where
  | mark {first rest kind} (known : (first, kind) ∈ punctuation) : Scanned first rest kind 0
  | comparison {rest} : Scanned '=' ('=' :: rest) .operator 1
  | equals {rest} (alone : rest.head? ≠ some '=') : Scanned '=' rest .equals 0
  | ellipsis {rest} : Scanned '.' ('.' :: '.' :: rest) .ellipsis 2
  | fraction {rest} (digit : rest.head?.any Char.isDigit) :
      Scanned '.' rest .number (numberLength '\x00' rest)
  | dot {rest} (alone : ¬ (rest.head? = some '.' ∧ rest[1]? = some '.'))
      (noDigit : rest.head?.any Char.isDigit = false) : Scanned '.' rest .dot 0
  | lineComment {rest} :
      Scanned '/' ('/' :: rest) .lineComment (('/' :: rest).takeWhile (!endsLine ·)).length
  | comment {rest n} (closed : commentExtent '\x00' rest = .closed n) :
      Scanned '/' ('*' :: rest)
        (if rest.head? = some '*' && rest[1]? ≠ some '/' then .docComment else .blockComment)
        (n + 1)
  | slash {rest} (noComment : rest.head? ≠ some '/' ∧ rest.head? ≠ some '*') :
      Scanned '/' rest .operator 0
  | textBlock {rest n} (closed : textBlockExtent 0 rest = .closed n) :
      Scanned '"' ('"' :: '"' :: rest) .string (n + 2)
  | string {rest n} (noBlock : ¬ (rest.head? = some '"' ∧ rest[1]? = some '"'))
      (closed : literalExtent '"' rest = .closed n) : Scanned '"' rest .string n
  | character {rest n} (closed : literalExtent '\'' rest = .closed n) :
      Scanned '\'' rest .character n
  | whitespace {first rest} (blank : isBlank first) :
      Scanned first rest .whitespace (rest.takeWhile isBlank).length
  | word {first rest} (start : isWordStart first) :
      Scanned first rest (wordKind (first :: rest.takeWhile isWordPart))
        (rest.takeWhile isWordPart).length
  | number {first rest} (digit : first.isDigit) :
      Scanned first rest .number (numberLength '\x00' rest)
  | operator {first rest} (known : first ∈ operatorChars) : Scanned first rest .operator 0
  | unknown {first rest} (noBlank : isBlank first = false) (noStart : isWordStart first = false)
      (noDigit : first.isDigit = false) (noMark : opensLexeme first = false)
      (noOperator : first ∉ operatorChars) : Scanned first rest .unknown 0

theorem scanned_of_scan {first : Char} {rest : Text} {kind : Kind} {more : Nat}
    (h : scan first rest = .token kind more) : Scanned first rest kind more := by
  unfold scan at h
  split at h
  case h_13 =>
    split at h <;> cases h
    case isTrue h =>
      obtain ⟨r, rfl⟩ : ∃ r, rest = '=' :: r := by cases rest <;> simp_all
      exact .comparison
    case isFalse h => exact .equals h
  case h_14 =>
    split at h
    · next hr =>
      obtain ⟨r, rfl⟩ : ∃ r, rest = '.' :: '.' :: r := by
        match rest with
        | '.' :: '.' :: r => exact ⟨r, rfl⟩
        | [] => simp at hr
        | [c] => simp at hr
        | c :: d :: r => simp at hr; simp [hr]
      cases h
      exact .ellipsis
    · next hr =>
      split at h
      · next hd =>
        cases h
        exact .fraction hd
      · next hd =>
        cases h
        exact .dot (by simpa using hr) (by simpa using hd)
  case h_15 =>
    split at h
    · next hr =>
      obtain ⟨r, rfl⟩ : ∃ r, rest = '/' :: r := by cases rest <;> simp_all
      cases h
      exact .lineComment
    · next hl =>
      split at h
      · next hr =>
        obtain ⟨r, rfl⟩ : ∃ r, rest = '*' :: r := by cases rest <;> simp_all
        simp only [scanComment, List.drop_one, List.tail_cons, Extent.scan_eq_token,
          Extent.after_eq_closed] at h
        obtain ⟨⟨m, hm, rfl⟩, rfl⟩ := h
        have := Scanned.comment hm
        simpa [List.head?_eq_getElem?] using this
      · next hr =>
        cases h
        exact .slash ⟨hl, hr⟩
  case h_16 =>
    unfold scanString at h
    split at h
    · simp only [Extent.scan_eq_token, Extent.after_eq_closed] at h
      obtain ⟨⟨m, hm, rfl⟩, rfl⟩ := h
      exact .textBlock hm
    · next hb =>
      simp only [Extent.scan_eq_token] at h
      obtain ⟨hm, rfl⟩ := h
      refine .string ?_ hm
      rintro ⟨h0, h1⟩
      match rest with
      | [] => simp at h0
      | [c] => simp at h1
      | c :: d :: r => simp at h0 h1; exact hb r (by simp [h0, h1])
  case h_17 =>
    simp only [Extent.scan_eq_token] at h
    obtain ⟨hm, rfl⟩ := h
    exact .character hm
  case h_18 =>
    split at h
    · next hb =>
      cases h
      exact .whitespace hb
    · next hb =>
      split at h
      · next hw =>
        cases h
        exact .word hw
      · next hw =>
        split at h
        · next hd =>
          cases h
          exact .number hd
        · next hd =>
          split at h
          · next ho =>
            cases h
            exact .operator ho
          · next ho =>
            cases h
            refine .unknown (by simpa using hb) (by simpa using hw) (by simpa using hd) ?_ ho
            simp_all [opensLexeme, punctuation]
  all_goals
    cases h
    exact .mark (by simp [punctuation])

theorem Scanned.kind_ne_eof {first : Char} {rest : Text} {kind : Kind} {more : Nat}
    (h : Scanned first rest kind more) : kind ≠ .eof := by
  cases h with
  | mark known =>
      rintro rfl
      simp [punctuation] at known
  | comment => split <;> simp
  | word =>
      unfold wordKind
      split <;> simp
  | _ => simp

theorem commentExtent_closed_le {previous : Char} {text : Text} {n : Nat}
    (h : commentExtent previous text = .closed n) : n ≤ text.length := by
  induction text generalizing previous n with
  | nil => simp [commentExtent] at h
  | cons c rest ih =>
      rw [commentExtent] at h
      split at h
      · simp at h
        subst h
        simp
      · simp at h
        obtain ⟨m, hm, rfl⟩ := h
        simpa using ih hm

theorem literalExtent_closed_le {quote : Char} {text : Text} {n : Nat}
    (h : literalExtent quote text = .closed n) : n ≤ text.length := by
  fun_induction literalExtent quote text generalizing n with
  | case1 => simp at h
  | case2 => simp at h
  | case3 c rest _ ih =>
      simp at h
      obtain ⟨m, hm, rfl⟩ := h
      simpa using ih hm
  | case4 =>
      simp at h
      subst h
      simp
  | case5 => simp at h
  | case6 c rest _ _ _ _ ih =>
      simp at h
      obtain ⟨m, hm, rfl⟩ := h
      simpa using ih hm

theorem textBlockExtent_closed_le {quotes : Nat} {text : Text} {n : Nat}
    (h : textBlockExtent quotes text = .closed n) : n ≤ text.length := by
  fun_induction textBlockExtent quotes text generalizing n with
  | case1 => simp at h
  | case2 quotes c rest ih =>
      simp at h
      obtain ⟨m, hm, rfl⟩ := h
      simpa using ih hm
  | case3 =>
      simp at h
      subst h
      simp
  | case4 quotes rest _ _ ih =>
      simp at h
      obtain ⟨m, hm, rfl⟩ := h
      simpa using ih hm
  | case5 quotes c rest _ _ ih =>
      simp at h
      obtain ⟨m, hm, rfl⟩ := h
      simpa using ih hm

theorem numberLength_le (previous : Char) (text : Text) :
    numberLength previous text ≤ text.length := by
  fun_induction numberLength previous text with
  | case1 => exact Nat.le_refl 0
  | case2 | case4 => exact Nat.zero_le _
  | case3 previous c rest _ _ _ ih => exact Nat.succ_le_succ ih

/-- A lexeme ends within its text. -/
theorem Scanned.more_le {first : Char} {rest : Text} {kind : Kind} {more : Nat}
    (h : Scanned first rest kind more) : more ≤ rest.length := by
  cases h with
  | lineComment => exact (List.takeWhile_prefix _).length_le
  | comment closed => simpa using commentExtent_closed_le closed
  | textBlock closed => simpa using textBlockExtent_closed_le closed
  | string _ closed => exact literalExtent_closed_le closed
  | character closed => exact literalExtent_closed_le closed
  | fraction => exact numberLength_le _ _
  | number => exact numberLength_le _ _
  | whitespace => exact (List.takeWhile_prefix _).length_le
  | word => exact (List.takeWhile_prefix _).length_le
  | _ => simp

/-! ### Scans by their rules -/

/-- A character that decides on the kind of a token with what follows is in no other sort. -/
theorem not_opensLexeme_of_isBlank {c : Char} (h : isBlank c = true) : opensLexeme c = false := by
  have each : (blankCodes.map Char.ofNat).all (!opensLexeme ·) = true := by decide +kernel
  simpa using List.all_eq_true.1 each c (mem_blankCodes h)

theorem not_opensLexeme_of_isWordStart {c : Char} (h : isWordStart c = true) :
    opensLexeme c = false := by
  cases ho : opensLexeme c with
  | false => rfl
  | true =>
      have each : (['=', '.', '/', '"', '\''] ++ punctuation.map (·.1)).all (!isWordStart ·) = true := by
        decide +kernel
      have start := List.all_eq_true.1 each c (by simpa [opensLexeme, or_assoc] using ho)
      rw [h] at start
      cases start

/-- A digit is neither white space, nor starts a word, nor decides on the kind of a token with
what follows. -/
theorem sorts_of_isDigit {c : Char} (h : c.isDigit = true) :
    isBlank c = false ∧ isWordStart c = false ∧ opensLexeme c = false := by
  have each : digitChars.all (fun c => !isBlank c && !isWordStart c && !opensLexeme c) = true := by
    decide +kernel
  simpa [and_assoc] using List.all_eq_true.1 each c (mem_digitChars h)

theorem sorts_of_mem_operatorChars {c : Char} (h : c ∈ operatorChars) :
    isBlank c = false ∧ isWordStart c = false ∧ c.isDigit = false ∧ opensLexeme c = false := by
  have each : operatorChars.all
      (fun c => !isBlank c && !isWordStart c && !c.isDigit && !opensLexeme c) = true := by
    decide +kernel
  simpa [and_assoc] using List.all_eq_true.1 each c h

/-- The scan of a character that does not decide with what follows it. -/
theorem scan_of_not_opensLexeme {c : Char} (h : opensLexeme c = false) (rest : Text) :
    scan c rest =
      if isBlank c then .token .whitespace (rest.takeWhile isBlank).length
      else if isWordStart c then
        .token (wordKind (c :: rest.takeWhile isWordPart)) (rest.takeWhile isWordPart).length
      else if c.isDigit then .token .number (numberLength '\x00' rest)
      else if c ∈ operatorChars then .token .operator 0
      else .token .unknown 0 := by
  unfold scan
  split
  case h_18 => rfl
  all_goals exact absurd h (by decide)

theorem scan_of_scanned {first : Char} {rest : Text} {kind : Kind} {more : Nat}
    (h : Scanned first rest kind more) : scan first rest = .token kind more := by
  cases h with
  | mark known =>
      simp only [punctuation, List.mem_cons, Prod.mk.injEq, List.not_mem_nil, or_false] at known
      rcases known with h | h | h | h | h | h | h | h | h | h | h | h <;>
        (obtain ⟨rfl, rfl⟩ := h; rfl)
  | comparison => simp [scan]
  | equals alone => simp [scan, alone]
  | ellipsis => simp [scan]
  | fraction digit =>
      have : ¬ (rest.head? = some '.' ∧ rest[1]? = some '.') := by
        rintro ⟨h, -⟩
        simp [h] at digit
      simp [scan, this, digit]
  | dot alone noDigit => simp [scan, alone, noDigit]
  | lineComment => simp [scan]
  | comment closed =>
      simp [scan, scanComment, closed, Extent.scan, Extent.after, List.head?_eq_getElem?]
  | slash noComment => simp [scan, noComment.1, noComment.2]
  | textBlock closed => simp [scan, scanString, closed, Extent.scan, Extent.after]
  | string noBlock closed =>
      have : scanString rest = (literalExtent '"' rest).scan .string .string := by
        unfold scanString
        split
        · simp at noBlock
        · rfl
      simp [scan, this, closed, Extent.scan]
  | character closed => simp [scan, closed, Extent.scan]
  | whitespace blank =>
      simp [scan_of_not_opensLexeme (not_opensLexeme_of_isBlank blank), blank]
  | word start =>
      simp [scan_of_not_opensLexeme (not_opensLexeme_of_isWordStart start), start,
        not_isBlank_of_isWordStart start]
  | number digit =>
      obtain ⟨noBlank, noStart, noMark⟩ := sorts_of_isDigit digit
      simp [scan_of_not_opensLexeme noMark, noBlank, noStart, digit]
  | operator known =>
      obtain ⟨noBlank, noStart, noDigit, noMark⟩ := sorts_of_mem_operatorChars known
      simp [scan_of_not_opensLexeme noMark, noBlank, noStart, noDigit, known]
  | unknown noBlank noStart noDigit noMark noOperator =>
      simp [scan_of_not_opensLexeme noMark, noBlank, noStart, noDigit, noOperator]

/-- A scan comes to what the rules say. -/
theorem scan_eq_token_iff {first : Char} {rest : Text} {kind : Kind} {more : Nat} :
    scan first rest = .token kind more ↔ Scanned first rest kind more :=
  ⟨scanned_of_scan, scan_of_scanned⟩

/-! ### Tokens of a text -/

/-- A text is cut into tokens scan by scan, up to the end of the input. -/
inductive Lexed : Text → List Token → Prop where
  | nil : Lexed [] [Token.endOfInput]
  | cons {first rest kind more later} (head : Scanned first rest kind more)
      (tail : Lexed (rest.drop more) later) :
      Lexed (first :: rest) (⟨kind, first :: rest.take more⟩ :: later)

theorem lex_eq_ok_iff {source : Text} {tokens : List Token} :
    lex source = .ok tokens ↔ Lexed source tokens := by
  constructor
  · intro h
    fun_induction lex source generalizing tokens with
    | case1 =>
        cases h
        exact .nil
    | case2 first rest kind more hs ih =>
        obtain ⟨later, hl, rfl⟩ := map_eq_ok_iff.1 h
        exact .cons (scanned_of_scan hs) (ih hl)
    | case3 => cases h
  · intro h
    induction h with
    | nil => rw [lex]
    | cons head tail ih => simp [lex, scan_of_scanned head, ih, Except.map]

theorem TokenStream.ofSource_eq_ok_iff {name source : Text} {stream : TokenStream} :
    ofSource name source = .ok stream ↔
      stream.name = name ∧ stream.source = source ∧ lex source = .ok stream.tokens := by
  rw [ofSource, map_eq_ok_iff]
  constructor
  · rintro ⟨tokens, lexed, rfl⟩
    exact ⟨rfl, rfl, lexed⟩
  · rintro ⟨rfl, rfl, lexed⟩
    exact ⟨stream.tokens, lexed, rfl⟩

/-- The tokens of a text end with the end of the input, and no other token is empty or is the end
of the input. -/
theorem Lexed.exists_lexemes {source : Text} {tokens : List Token} (h : Lexed source tokens) :
    ∃ lexemes, tokens = lexemes ++ [Token.endOfInput] ∧
      ∀ token ∈ lexemes, token.kind ≠ .eof ∧ token.text ≠ [] := by
  induction h with
  | nil => exact ⟨[], by simp⟩
  | cons head tail ih =>
      obtain ⟨lexemes, rfl, each⟩ := ih
      refine ⟨_ :: lexemes, rfl, ?_⟩
      intro token member
      rcases List.mem_cons.1 member with rfl | member
      · exact ⟨head.kind_ne_eof, by simp⟩
      · exact each token member

end JavaUnit
