/-
Module: JavaUnit.Proofs.TypeText
Purpose: Types have one spelling. Most neighbours in it stand without a space between them, and yet
  none of them run together: a space keeps words apart, brackets and commas end whatever is in front
  of them, and a dot only goes on with another dot or a digit. So the spelling is cut into the
  tokens that it was joined from, whatever text they came from, and joining those again gives the
  same spelling.
Main exports: Token.inType, TypeRow, Token.IsLexeme, TypeToken, Spread, exists_cuts_joinTokens,
  joinTokens_canonical
-/
import JavaUnit.Proofs.Cut
import JavaUnit.Token.Spelling

namespace JavaUnit

/-! ### Rows of tokens -/

/-- Whether a token may stand in a type. -/
def Token.inType (token : Token) : Bool :=
  match token.kind with
  | .identifier | .keyword _ | .less | .greater | .comma | .dot | .ellipsis | .question
  | .openBracket | .closeBracket | .atSign => true
  | _ => token.isOperator ['&']

/-- Tokens that a type may be made of. Behind a dot stands neither another one nor three of them;
nothing else is asked of their order. -/
structure TypeRow (tokens : List Token) : Prop where
  present : tokens ≠ []
  parts : ∀ token ∈ tokens, token.inType = true
  apart : tokens.IsChain fun left right =>
    left.kind = .dot → right.kind ≠ .dot ∧ right.kind ≠ .ellipsis

/-- Whether a token is what its own text is cut into. -/
def Token.IsLexeme (token : Token) : Prop :=
  lex token.text = .ok [token, Token.endOfInput]

instance (token : Token) : Decidable token.IsLexeme :=
  inferInstanceAs (Decidable (lex token.text = .ok [token, Token.endOfInput]))

theorem Token.isLexeme_iff {token : Token} : token.IsLexeme ↔ Cut token.text token [] := by
  rw [IsLexeme, lex_eq_ok_iff, lexed_iff_cuts]
  constructor
  · rintro ⟨lexemes, same, cuts⟩
    obtain rfl : lexemes = [token] := (List.append_inj_left' same rfl).symm
    cases cuts with
    | cons head tail =>
        cases tail
        exact head
  · intro cut
    exact ⟨[token], rfl, .cons cut .nil⟩

/-- The tokens of a text are what their own texts are cut into. -/
theorem Cuts.isLexeme {text rest : Text} {tokens : List Token} (h : Cuts text tokens rest)
    {token : Token} (mem : token ∈ tokens) : token.IsLexeme := by
  induction h with
  | nil => cases mem
  | cons head _ ih =>
      rcases List.mem_cons.1 mem with rfl | mem
      · cases head with
        | @intro first body mid kind spelled =>
            have alone : Spelled first body kind [] :=
              @Spelled.cutShort _ _ [] _ _ spelled (by simp)
            have cut := Cut.intro alone
            rw [List.append_nil] at cut
            exact Token.isLexeme_iff.2 cut
      · exact ih mem

/-! ### Tokens of types by their spelling -/

/-- The tokens that may stand in a type, as they are spelled. -/
inductive TypeToken : Token → Prop where
  | word {first body} (start : isWordStart first = true)
      (parts : ∀ c ∈ body, isWordPart c = true) :
      TypeToken ⟨wordKind (first :: body), first :: body⟩
  | mark {c kind} (known : (c, kind) ∈ punctuation) : TypeToken ⟨kind, [c]⟩
  | dot : TypeToken ⟨.dot, ['.']⟩
  | ellipsis : TypeToken ⟨.ellipsis, "...".toList⟩
  | ampersand : TypeToken ⟨.operator, ['&']⟩

theorem Spelled.typeToken {first : Char} {body rest : Text} {kind : Kind}
    (h : Spelled first body kind rest) (part : Token.inType ⟨kind, first :: body⟩ = true) :
    TypeToken ⟨kind, first :: body⟩ := by
  cases h with
  | mark known => exact .mark known
  | ellipsis => exact .ellipsis
  | dot => exact .dot
  | word start parts => exact .word start parts
  | comment => split at part <;> cases part
  | operator known =>
      obtain rfl : first = '&' := by simpa [Token.inType, Token.isOperator] using part
      exact .ampersand
  | _ => cases part

theorem typeToken_of_isLexeme {token : Token} (part : token.inType = true)
    (lexeme : token.IsLexeme) : TypeToken token := by
  obtain ⟨kind, text⟩ := token
  obtain ⟨first, body, rfl, -, spelled⟩ := (Token.isLexeme_iff.1 lexeme).exists_spelled
  exact spelled.typeToken part

theorem isWord_of_wordKind (word text : Text) : Token.isWord ⟨wordKind word, text⟩ = true := by
  rw [wordKind]
  split <;> rfl

namespace TypeToken

variable {token left right : Token} {rest : Text}

theorem isTrivia_eq_false (h : TypeToken token) : token.isTrivia = false := by
  cases h with
  | @word first body =>
      rw [wordKind]
      split <;> rfl
  | mark known =>
      have each : punctuation.all (fun pair => !Token.isTrivia ⟨pair.2, [pair.1]⟩) = true := by
        decide
      simpa using List.all_eq_true.1 each _ known
  | _ => rfl

/-- How a token of a type begins: with nothing that goes on with a space, a word or a dot, unless it
is of that sort itself. -/
theorem exists_first (h : TypeToken token) :
    ∃ c others, token.text = c :: others ∧ isBlank c = false ∧ c.isDigit = false ∧
      (token.isWord = false → isWordPart c = false) ∧
      (token.kind ≠ .dot ∧ token.kind ≠ .ellipsis → c ≠ '.') := by
  cases h with
  | @word first body start =>
      refine ⟨first, body, rfl, not_isBlank_of_isWordStart start, ?_, ?_, ?_⟩
      · cases digit : first.isDigit with
        | false => rfl
        | true => exact absurd start (by simp [(sorts_of_isDigit digit).2.1])
      · intro other
        rw [isWord_of_wordKind] at other
        cases other
      · rintro - rfl
        revert start
        decide
  | @mark c kind known =>
      have each : punctuation.all (fun pair => !isBlank pair.1 && !pair.1.isDigit &&
          !isWordPart pair.1 && pair.1 ≠ '.') = true := by
        decide +kernel
      have own := List.all_eq_true.1 each _ known
      simp only [Bool.and_eq_true, Bool.not_eq_true', decide_eq_true_eq] at own
      exact ⟨c, [], rfl, own.1.1.1, own.1.1.2, fun _ => own.1.2, fun _ => own.2⟩
  | dot =>
      exact ⟨'.', [], rfl, by decide, by decide, fun _ => by decide,
        fun other => absurd rfl other.1⟩
  | ellipsis =>
      exact ⟨'.', _, rfl, by decide, by decide, fun _ => by decide,
        fun other => absurd rfl other.2⟩
  | ampersand =>
      exact ⟨'&', [], rfl, by decide, by decide, fun _ => by decide, fun _ => by decide⟩

/-- A token of a type ends where a space or another such token follows, if canonical text has no
space between the two. -/
theorem cut (h : TypeToken left)
    (word : left.isWord = true → rest.head?.all (!isWordPart ·) = true)
    (dot : left.kind = .dot → rest.head? ≠ some '.' ∧ rest.head?.any Char.isDigit = false) :
    Cut (left.text ++ rest) left rest := by
  cases h with
  | word start parts => exact .intro (.word start parts (word (isWord_of_wordKind _ _)))
  | mark known => exact .intro (.mark known)
  | dot =>
      obtain ⟨single, digit⟩ := dot rfl
      exact .intro (.dot (fun both => single both.1) digit)
  | ellipsis => exact .intro .ellipsis
  | ampersand => exact .intro (.operator (by decide))

/-- In front of a space a token of a type ends. -/
theorem cut_space (h : TypeToken left) : Cut (left.text ++ ' ' :: rest) left (' ' :: rest) :=
  h.cut (fun _ => by rw [List.head?_cons]; decide) fun _ => by simp

/-- In front of another token of a type it ends without a space if canonical text has none. -/
theorem cut_token (h : TypeToken left) (next : TypeToken right) (close : spaced left right = false)
    (apart : left.kind = .dot → right.kind ≠ .dot ∧ right.kind ≠ .ellipsis) :
    Cut (left.text ++ (right.text ++ rest)) left (right.text ++ rest) := by
  obtain ⟨c, others, spelling, -, digit, noWord, noDot⟩ := next.exists_first
  rw [spelling, List.cons_append]
  refine h.cut (fun word => ?_) fun dot => ⟨?_, by simpa using digit⟩
  · have other : right.isWord = false := by
      simp only [spaced, Bool.or_eq_false_iff, Bool.and_eq_false_iff, word] at close
      simpa using close.1.1.1.1
    simp [noWord other]
  · simpa using noDot (apart dot)

end TypeToken

/-! ### Canonical spellings -/

theorem exists_joinTokens (token : Token) (tokens : List Token) :
    ∃ more, joinTokens (token :: tokens) = token.text ++ more := by
  cases tokens with
  | nil => exact ⟨[], (List.append_nil _).symm⟩
  | cons next others => exact ⟨_, List.append_assoc ..⟩

/-- Tokens with white space in front of any of them. -/
inductive Spread : List Token → List Token → Prop where
  | nil : Spread [] []
  | cons {blanks token row tokens} (blank : ∀ blank ∈ blanks, blank.isWhitespace = true)
      (later : Spread row tokens) : Spread (token :: row) (blanks ++ token :: tokens)

namespace Spread

variable {row tokens : List Token} {token : Token}

theorem behind_blank (h : Spread (token :: row) tokens) {white : Token}
    (blank : white.isWhitespace = true) : Spread (token :: row) (white :: tokens) := by
  cases h with
  | cons blanks later => exact .cons (List.forall_mem_cons.2 ⟨blank, blanks⟩) later

theorem inkOf_eq (h : Spread row tokens) (ink : ∀ token ∈ row, token.isWhitespace = false) :
    inkOf tokens = row := by
  induction h with
  | nil => rfl
  | @cons blanks token row tokens blank later ih =>
      rw [List.forall_mem_cons] at ink
      have none : inkOf blanks = [] :=
        List.filter_eq_nil_iff.2 fun token mem => by simp [blank token mem]
      have first : inkOf (token :: tokens) = token :: inkOf tokens := by simp [inkOf, ink.1]
      rw [inkOf_append, none, first, ih ink.2]
      rfl

theorem exists_append {left right : List Token} (h : Spread (left ++ right) tokens) :
    ∃ front back, tokens = front ++ back ∧ Spread left front ∧ Spread right back := by
  induction left generalizing tokens with
  | nil => exact ⟨[], tokens, rfl, .nil, h⟩
  | cons token left ih =>
      cases h with
      | cons blank later =>
          obtain ⟨front, back, rfl, first, second⟩ := ih later
          exact ⟨_, back, by simp, .cons blank first, second⟩

end Spread

/-- The canonical spelling of tokens is cut into these tokens, with white space between them, in
front of anything that does not go on with the last of them. -/
theorem exists_cuts_joinTokens {tokens : List Token} (parts : ∀ token ∈ tokens, TypeToken token)
    (apart : tokens.IsChain fun left right =>
      left.kind = .dot → right.kind ≠ .dot ∧ right.kind ≠ .ellipsis) {rest : Text}
    (ends : Separated rest) :
    ∃ cut, Cuts (joinTokens tokens ++ rest) cut rest ∧ Spread tokens cut := by
  have none : ∀ token ∈ ([] : List Token), token.isWhitespace = true := by simp
  induction tokens using joinTokens.induct with
  | case1 => exact ⟨[], .nil, .nil⟩
  | case2 token =>
      have own : Cut (token.text ++ rest) token rest := by
        refine (parts token List.mem_cons_self).cut (fun _ => ?_) fun _ => ⟨?_, ?_⟩
        · cases rest with
          | nil => rfl
          | cons c rest =>
              rw [List.head?_cons, Option.all_some, Bool.not_eq_true']
              by_contra part
              rw [separated_cons, separates_of_isWordPart (by simpa using part)] at ends
              cases ends
        · exact ends.head_ne (by decide)
        · cases rest with
          | nil => rfl
          | cons c rest =>
              rw [List.head?_cons, Option.any_some]
              by_contra digit
              rw [separated_cons, separates_of_isDigit (by simpa using digit)] at ends
              cases ends
      exact ⟨[token], .cons own .nil, @Spread.cons [] token [] [] none .nil⟩
  | case3 left right others ih =>
      rw [List.forall_mem_cons] at parts
      rw [List.isChain_cons_cons] at apart
      obtain ⟨cut, cuts, spread⟩ := ih parts.2 apart.2
      have next := parts.2 right List.mem_cons_self
      obtain ⟨more, begins⟩ := exists_joinTokens right others
      rw [joinTokens]
      cases gap : spaced left right with
      | true =>
          have space : Cut (' ' :: (joinTokens (right :: others) ++ rest)) ⟨.whitespace, [' ']⟩
              (joinTokens (right :: others) ++ rest) := by
            obtain ⟨c, _, spelling, inked, -⟩ := next.exists_first
            refine @cut_whitespace [' '] _ (List.cons_ne_nil _ _)
              (List.forall_mem_singleton.2 rfl) ?_
            rw [begins, spelling]
            simp [inked]
          refine ⟨left :: ⟨.whitespace, [' ']⟩ :: cut, ?_,
            @Spread.cons [] left _ _ none (spread.behind_blank rfl)⟩
          rw [if_pos rfl, List.append_assoc, List.append_assoc]
          exact .cons parts.1.cut_space (.cons space cuts)
      | false =>
          refine ⟨left :: cut, ?_, @Spread.cons [] left _ _ none spread⟩
          rw [if_neg (by decide), List.append_nil, List.append_assoc]
          refine .cons ?_ cuts
          rw [begins, List.append_assoc]
          exact parts.1.cut_token next gap apart.1

theorem joinTokens_ne_nil {tokens : List Token} (present : tokens ≠ [])
    (parts : ∀ token ∈ tokens, TypeToken token) : joinTokens tokens ≠ [] := by
  obtain ⟨token, others, rfl⟩ := List.exists_cons_of_ne_nil present
  obtain ⟨more, begins⟩ := exists_joinTokens token others
  obtain ⟨c, rest, spelling, -⟩ := (parts token List.mem_cons_self).exists_first
  rw [begins, spelling]
  exact List.cons_ne_nil _ _

/-- So it is a text with these tokens, once white space and the end of the input are left out. -/
theorem exists_lex_joinTokens {tokens : List Token} (row : TypeRow tokens)
    (parts : ∀ token ∈ tokens, TypeToken token) :
    ∃ cut, lex (joinTokens tokens) = .ok cut ∧
      cut.filter (fun token => !token.isWhitespace && !token.isEnd) = tokens := by
  obtain ⟨lexemes, cuts, spread⟩ := exists_cuts_joinTokens parts row.apart separated_nil
  rw [List.append_nil] at cuts
  have ink := spread.inkOf_eq fun token mem =>
    (Bool.or_eq_false_iff.1 (parts token mem).isTrivia_eq_false).1
  refine ⟨lexemes ++ [Token.endOfInput],
    lex_eq_ok_iff.2 (lexed_iff_cuts.2 ⟨lexemes, rfl, cuts⟩), ?_⟩
  rw [List.filter_append, ← List.append_nil tokens, ← ink, inkOf]
  congr 1
  refine List.filter_congr fun token mem => ?_
  rw [cuts.isEnd_eq_false mem, Bool.not_false, Bool.and_true]

/-- Comments are no tokens of types, so that there is nothing else to leave out. -/
theorem significantTokens_of_filter {cut tokens : List Token}
    (inked : cut.filter (fun token => !token.isWhitespace && !token.isEnd) = tokens)
    (parts : ∀ token ∈ tokens, TypeToken token) : significantTokens cut = tokens := by
  have fewer : significantTokens cut =
      (cut.filter fun token => !token.isWhitespace && !token.isEnd).filter
        (!·.isPlainComment) := by
    rw [List.filter_filter, significantTokens]
    refine List.filter_congr fun token _ => ?_
    rw [Token.isTrivia]
    cases token.isWhitespace <;> cases token.isPlainComment <;> cases token.isEnd <;> rfl
  rw [fewer, inked, List.filter_eq_self]
  intro token mem
  have trivia := (parts token mem).isTrivia_eq_false
  simpa using (Bool.or_eq_false_iff.1 trivia).2

/-- The canonical spelling of tokens of types is normalized to itself. -/
theorem normalizeType_joinTokens {tokens : List Token} (row : TypeRow tokens)
    (parts : ∀ token ∈ tokens, TypeToken token) :
    normalizeType (joinTokens tokens) = some (joinTokens tokens) := by
  obtain ⟨cut, lexed, inked⟩ := exists_lex_joinTokens row parts
  have matter := significantTokens_of_filter inked parts
  simp [normalizeType, lexed, matter, joinTokens_ne_nil row.present parts]

/-- What matters in a text are lexemes. -/
theorem isLexeme_of_lex {text : Text} {cut : List Token} {token : Token}
    (lexed : lex text = .ok cut) (mem : token ∈ significantTokens cut) : token.IsLexeme := by
  obtain ⟨lexemes, rfl, cuts⟩ := lexed_iff_cuts.1 (lex_eq_ok_iff.1 lexed)
  rw [significantTokens, List.mem_filter, Bool.and_eq_true] at mem
  rcases List.mem_append.1 mem.1 with inside | last
  · exact cuts.isLexeme inside
  · rw [List.mem_singleton.1 last] at mem
    exact absurd mem.2.2 (by decide)

/-- Tokens that a type may be made of have one spelling. It is cut into these tokens and white
space; every text with these tokens, whatever white space and comments stand between them, is
normalized to it; and it is normalized to itself. -/
theorem joinTokens_canonical {tokens : List Token} (row : TypeRow tokens) :
    ((∀ token ∈ tokens, token.IsLexeme) →
      ∃ cut, lex (joinTokens tokens) = .ok cut ∧
        cut.filter (fun token => !token.isWhitespace && !token.isEnd) = tokens) ∧
    ∀ text cut, lex text = .ok cut → significantTokens cut = tokens →
      normalizeType text = some (joinTokens tokens) ∧
        normalizeType (joinTokens tokens) = some (joinTokens tokens) := by
  have spelled : (∀ token ∈ tokens, token.IsLexeme) → ∀ token ∈ tokens, TypeToken token :=
    fun lexemes token mem => typeToken_of_isLexeme (row.parts token mem) (lexemes token mem)
  refine ⟨fun lexemes => exists_lex_joinTokens row (spelled lexemes), ?_⟩
  intro text cut lexed matter
  have parts := spelled fun token mem => isLexeme_of_lex lexed (matter.symm ▸ mem)
  refine ⟨?_, normalizeType_joinTokens row parts⟩
  simp [normalizeType, lexed, matter, joinTokens_ne_nil row.present parts]

/-- `Map<? extends@N b.C & D>[]...` -/
def boundedSample : List Token :=
  [⟨.identifier, "Map".toList⟩, ⟨.less, ['<']⟩, ⟨.question, ['?']⟩,
    ⟨.keyword .extends, "extends".toList⟩, ⟨.atSign, ['@']⟩, ⟨.identifier, ['N']⟩,
    ⟨.identifier, ['b']⟩, ⟨.dot, ['.']⟩, ⟨.identifier, ['C']⟩, ⟨.operator, ['&']⟩,
    ⟨.identifier, ['D']⟩, ⟨.greater, ['>']⟩, ⟨.openBracket, ['[']⟩, ⟨.closeBracket, [']']⟩,
    ⟨.ellipsis, "...".toList⟩]

theorem joinTokens_canonical_boundedSample :
    TypeRow boundedSample ∧ (∀ token ∈ boundedSample, token.IsLexeme) ∧
    joinTokens boundedSample = "Map<? extends@N b.C & D>[]...".toList ∧
    (∃ cut, lex (joinTokens boundedSample) = .ok cut ∧
      cut.filter (fun token => !token.isWhitespace && !token.isEnd) = boundedSample) ∧
    normalizeType "Map <?extends\n@N b . C// &\n&D >[ ] ...".toList =
      some (joinTokens boundedSample) ∧
    normalizeType (joinTokens boundedSample) = some (joinTokens boundedSample) := by
  have row : TypeRow boundedSample := ⟨by decide, by decide, by decide⟩
  have lexemes : ∀ token ∈ boundedSample, token.IsLexeme := by decide +kernel
  have matter : (lex "Map <?extends\n@N b . C// &\n&D >[ ] ...".toList).toOption.map
      significantTokens = some boundedSample := by
    decide +kernel
  obtain ⟨cut, lexed, same⟩ := Option.map_eq_some_iff.1 matter
  obtain ⟨back, spelled⟩ := joinTokens_canonical row
  exact ⟨row, lexemes, by decide, back lexemes, spelled _ _ (eq_ok_of_toOption lexed) same⟩

end JavaUnit
