/-
Module: JavaUnit.Proofs.Lexemes
Purpose: A token can be told from its own text. To find where a token ends, the scanner looks at up
  to two characters behind it, but none of them has a say in what the token is: its text alone is
  cut into this token again. So what holds of comments by the way they are scanned can be read off
  their texts: one between delimiters is closed at its very end and nowhere before, and its first
  characters tell whether it is a doc comment; one on a line stays on it. White space is cut off as
  one token, however much of it there is.
Main exports: Token.Enclosed, Token.SelfContained, lex_selfContained
-/
import JavaUnit.Proofs.CommentText
import JavaUnit.Proofs.Lossless
import JavaUnit.Proofs.TypeText

namespace JavaUnit

/-! ### Comments by their texts -/

/-- The text of a comment between delimiters, and how it tells what sort of comment it is. -/
structure Token.Enclosed (token : Token) : Prop where
  opening : "/*".toList <+: token.text
  /-- Behind the opening delimiter, a closing one stands at the very end and nowhere else. -/
  closing : ∀ start, (2 ≤ start ∧ token.text.slice? start (start + 2) = some "*/".toList) ↔
    start + 2 = token.text.bytes
  doc : token.kind = .docComment ↔ "/**".toList <+: token.text ∧ token.text ≠ "/**/".toList

variable {previous : Char} {body left right : Text}

/-- Nothing stands behind the star and slash that close a comment. -/
theorem CommentRest.eq_nil_of_closer (h : CommentRest previous body)
    (found : previous :: body = left ++ '*' :: '/' :: right) : right = [] := by
  induction h generalizing left with
  | close =>
      cases left with
      | nil => exact (List.cons.inj (List.cons.inj found).2).2.symm
      | cons d others =>
          have lengths := congrArg List.length found
          simp only [List.length_append, List.length_cons, List.length_nil] at lengths
          omega
  | char goesOn _ ih =>
      cases left with
      | nil =>
          obtain ⟨star, behind⟩ := List.cons.inj found
          exact absurd ⟨star, (List.cons.inj behind).1⟩ goesOn
      | cons d others => exact ih (List.cons.inj found).2

theorem CommentRest.eq_nil_of_append {front : Text} (h : CommentRest previous body)
    (whole : body = front ++ '*' :: '/' :: right) : right = [] := by
  apply h.eq_nil_of_closer
  rw [whole]
  exact (List.cons_append ..).symm

/-- What stands in front of something in a comment, two bytes or more, begins with the opening
delimiter. -/
theorem exists_behind_opening (behind : 2 ≤ left.bytes)
    (whole : '/' :: '*' :: body = left ++ right) : ∃ front, left = '/' :: '*' :: front := by
  match left with
  | [] => cases behind
  | [c] =>
      obtain rfl := (List.cons.inj whole).1
      exact absurd behind (by decide)
  | c :: d :: front =>
      obtain ⟨rfl, others⟩ := List.cons.inj whole
      obtain ⟨rfl, -⟩ := List.cons.inj others
      exact ⟨front, rfl⟩

/-- Star and slash stand at the end of a comment and nowhere else behind its opening delimiter. -/
theorem CommentRest.closing (h : CommentRest '\x00' body) (start : Nat) :
    (2 ≤ start ∧ Text.slice? ('/' :: '*' :: body) start (start + 2) = some "*/".toList) ↔
      start + 2 = Text.bytes ('/' :: '*' :: body) := by
  constructor
  · rintro ⟨behind, found⟩
    obtain ⟨left, right, whole, rfl, -⟩ := Text.slice?_eq_some_iff.1 found
    rw [List.append_assoc] at whole
    obtain ⟨front, rfl⟩ := exists_behind_opening behind whole
    obtain rfl : right = [] := h.eq_nil_of_append (List.cons.inj (List.cons.inj whole).2).2
    rw [whole, Text.bytes_append]
    rfl
  · intro ends
    -- The closing delimiter cannot take in the star of the opening one, so its two bytes are others.
    obtain ⟨front, whole, -⟩ := h.exists_closer
    cases front with
    | nil => cases whole
    | cons d front =>
        obtain rfl : body = front ++ "*/".toList := (List.cons.inj whole).2
        have size : start = Text.bytes ('/' :: '*' :: front) := by
          rw [← List.cons_append, ← List.cons_append, Text.bytes_append] at ends
          exact Nat.add_right_cancel ends
        constructor
        · rw [size, Text.bytes_cons, Text.bytes_cons, ← Nat.add_assoc]
          exact Nat.le_add_right _ _
        · apply Text.slice?_eq_some_iff.2
          exact ⟨'/' :: '*' :: front, [], (List.append_nil _).symm, size, rfl⟩

/-- What the scanner takes for a doc comment opens with two stars and is not an empty comment. -/
theorem CommentRest.isDoc_iff (h : CommentRest '\x00' body) :
    (body.head? = some '*' ∧ body[1]? ≠ some '/') ↔
      "/**".toList <+: '/' :: '*' :: body ∧ '/' :: '*' :: body ≠ "/**/".toList := by
  have opens : "/**".toList <+: '/' :: '*' :: body ↔ body.head? = some '*' := by
    cases body <;> simp [eq_comm]
  rw [opens]
  refine and_congr_right fun star => not_congr ⟨fun slash => ?_, fun whole => ?_⟩
  · match body with
    | [_] => cases slash
    | c :: d :: right =>
        obtain rfl : c = '*' := by simpa using star
        obtain rfl : d = '/' := by simpa using slash
        obtain rfl : right = [] := h.eq_nil_of_append (List.nil_append _).symm
        rfl
  · obtain rfl : body = "*/".toList := (List.cons.inj (List.cons.inj whole).2).2
    rfl

/-! ### Tokens on their own -/

/-- What holds of a token by its text alone, wherever it was cut off. -/
structure Token.SelfContained (token : Token) : Prop where
  lexeme : token.IsLexeme
  enclosed : token.kind = .blockComment ∨ token.kind = .docComment → token.Enclosed
  line : token.kind = .lineComment → '\n' ∉ token.text ∧ '\r' ∉ token.text

namespace Token.IsLexeme

variable {token : Token}

theorem enclosed (h : token.IsLexeme)
    (comment : token.kind = .blockComment ∨ token.kind = .docComment) : token.Enclosed := by
  obtain ⟨first, body, spelling, -, spelled⟩ := (isLexeme_iff.1 h).exists_spelled
  obtain ⟨inside, whole, closed, kind⟩ := spelled.exists_of_enclosed comment
  rw [whole] at spelling
  constructor
  case opening =>
    rw [spelling]
    exact ⟨inside, rfl⟩
  case closing =>
    rw [spelling]
    exact closed.closing
  case doc =>
    rw [spelling, ← closed.isDoc_iff, kind]
    split
    · next doc => simpa using doc
    · next other => simpa using other

theorem selfContained (h : token.IsLexeme) : token.SelfContained := by
  refine ⟨h, h.enclosed, fun line => ?_⟩
  have stays := (isLexeme_iff.1 h).endsLine_of_lineComment line
  exact ⟨fun feed => absurd (stays _ feed) (by decide),
    fun carriage => absurd (stays _ carriage) (by decide)⟩

end Token.IsLexeme

/-! ### Neighbours -/

/-- Behind a token of white space stands no other one. -/
theorem Lexed.isChain_whitespace {source : Text} {tokens : List Token} (h : Lexed source tokens) :
    tokens.IsChain fun left right =>
      left.isWhitespace = true → right.isWhitespace = false := by
  induction h with
  | nil => exact .singleton _
  | cons head tail ih =>
      have cut := Cut.of_scanned head
      generalize List.drop _ _ = behind at tail cut
      cases tail with
      | nil => exact .cons_cons (fun _ => rfl) ih
      | cons scanned =>
          refine .cons_cons (fun blank => ?_) ih
          obtain ⟨-, ends⟩ := cut.blank_of_whitespace (of_decide_eq_true blank)
          by_contra again
          rw [Bool.not_eq_false] at again
          obtain ⟨blanks, -⟩ :=
            (Cut.of_scanned scanned).blank_of_whitespace (of_decide_eq_true again)
          simp [blanks _ List.mem_cons_self] at ends

/-- The tokens of a text are told by their own texts. Each but the end of the input is what its text
alone is cut into, whatever stood around it. A comment between delimiters is opened at its start,
and behind that it is closed at its very end and nowhere before; it is a doc comment exactly if two
stars open it and it is not empty. A comment on a line holds no character that ends one, and white
space never stands next to white space. -/
theorem lex_selfContained {source : Text} {tokens : List Token} (h : lex source = .ok tokens) :
    (∀ token ∈ tokens, token.kind ≠ .eof → token.SelfContained) ∧
      tokens.IsChain fun left right =>
        left.isWhitespace = true → right.isWhitespace = false := by
  have lexed := lex_eq_ok_iff.1 h
  refine ⟨fun token mem inside => ?_, lexed.isChain_whitespace⟩
  obtain ⟨lexemes, rfl, cuts⟩ := lexed_iff_cuts.1 lexed
  rcases List.mem_append.1 mem with within | last
  · exact (cuts.isLexeme within).selfContained
  · exact absurd (congrArg Token.kind (List.mem_singleton.1 last)) inside

/-- A number in front of two dots, a doc comment with nothing but a star in it, an empty comment
and a line that ends with a carriage return. -/
theorem lex_selfContained_starred :
    lex "1../***/ \t/**/// é\r".toList =
        .ok [⟨.number, ['1']⟩, ⟨.dot, ['.']⟩, ⟨.dot, ['.']⟩, ⟨.docComment, "/***/".toList⟩,
          ⟨.whitespace, " \t".toList⟩, ⟨.blockComment, "/**/".toList⟩,
          ⟨.lineComment, "// é".toList⟩, ⟨.whitespace, ['\r']⟩, Token.endOfInput] ∧
      Token.IsLexeme ⟨.number, ['1']⟩ ∧
      Token.Enclosed ⟨.docComment, "/***/".toList⟩ ∧
      Token.Enclosed ⟨.blockComment, "/**/".toList⟩ ∧
      '\r' ∉ "// é".toList := by
  have lexed : lex "1../***/ \t/**/// é\r".toList =
      .ok [⟨.number, ['1']⟩, ⟨.dot, ['.']⟩, ⟨.dot, ['.']⟩, ⟨.docComment, "/***/".toList⟩,
        ⟨.whitespace, " \t".toList⟩, ⟨.blockComment, "/**/".toList⟩,
        ⟨.lineComment, "// é".toList⟩, ⟨.whitespace, ['\r']⟩, Token.endOfInput] :=
    eq_ok_of_toOption (by decide +kernel)
  have each := (lex_selfContained lexed).1
  exact ⟨lexed, (each ⟨.number, ['1']⟩ (by decide) (by decide)).lexeme,
    (each ⟨.docComment, "/***/".toList⟩ (by decide) (by decide)).enclosed (.inr rfl),
    (each ⟨.blockComment, "/**/".toList⟩ (by decide) (by decide)).enclosed (.inl rfl),
    ((each ⟨.lineComment, "// é".toList⟩ (by decide) (by decide)).line rfl).2⟩

end JavaUnit
