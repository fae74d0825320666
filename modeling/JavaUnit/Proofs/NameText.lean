/-
Module: JavaUnit.Proofs.NameText
Purpose: Names are checked in two ways: by their characters where a node is made by hand, and by
  their tokens where one is read. The two agree on every text. A text is an identifier exactly if
  it is cut into one identifier, and a qualified name exactly if it is cut into identifiers with
  dots between them and nothing else; and the name that these tokens spell is the text.
Main exports: isIdentifier_iff_isLexeme, exists_cuts_qualifiedName, NameTokens.eq_of_lexed,
  names_agree_with_tokens
-/
import JavaUnit.Proofs.StatementGrammar
import JavaUnit.Proofs.TypeText

namespace JavaUnit

variable {text name rest : Text} {tokens front : List Token}

/-! ### Identifiers -/

/-- A text is an identifier exactly if it is the lexeme of one. -/
theorem isIdentifier_iff_isLexeme :
    isIdentifier text = true ↔ Token.IsLexeme ⟨.identifier, text⟩ := by
  constructor
  · intro known
    have cut := @cut_identifier [] text known rfl
    rw [List.append_nil] at cut
    exact Token.isLexeme_iff.2 cut
  · intro lexeme
    obtain ⟨first, body, spelling, -, spelled⟩ := (Token.isLexeme_iff.1 lexeme).exists_spelled
    obtain rfl : text = first :: body := spelling
    exact isIdentifier_of_spelled spelled rfl

/-! ### From the text of a name to its tokens -/

/-- Behind some tokens of a name stand those of its further parts. -/
theorem NameTokens.exists_cuts_parts {others : List Text}
    (words : ∀ part ∈ others, isIdentifier part = true) (named : NameTokens name front)
    (cuts : Cuts text front (others.flatMap ('.' :: ·) ++ rest))
    (ends : rest.head?.all (!isWordPart ·) = true) :
    ∃ tokens, NameTokens (name ++ others.flatMap ('.' :: ·)) tokens ∧ Cuts text tokens rest := by
  induction others generalizing name front with
  | nil =>
      rw [List.flatMap_nil, List.append_nil]
      exact ⟨front, named, cuts⟩
  | cons part others ih =>
      obtain ⟨word, words⟩ := List.forall_mem_cons.1 words
      rw [List.flatMap_cons, List.append_assoc] at cuts
      have both : Cuts ('.' :: (part ++ (others.flatMap ('.' :: ·) ++ rest)))
          [⟨.dot, ['.']⟩, ⟨.identifier, part⟩] (others.flatMap ('.' :: ·) ++ rest) :=
        .cons (cut_dot_word word) (.cons (cut_identifier word (stops_dotted others ends)) .nil)
      obtain ⟨tokens, longer, whole⟩ := ih words (.dotted named rfl rfl) (cuts.append both)
      rw [List.append_assoc] at longer
      exact ⟨tokens, longer, whole⟩

/-- A qualified name in front of what does not go on with a word is cut into the tokens of it. -/
theorem exists_cuts_qualifiedName (known : isQualifiedName name = true)
    (ends : rest.head?.all (!isWordPart ·) = true) :
    ∃ tokens, NameTokens name tokens ∧ Cuts (name ++ rest) tokens rest := by
  obtain ⟨first, others, rfl, word, words⟩ := exists_dotted known
  have single := @NameTokens.single ⟨.identifier, first⟩ rfl
  refine single.exists_cuts_parts words (.cons ?_ .nil) ends
  rw [dotted, List.append_assoc]
  exact cut_identifier word (stops_dotted others ends)

/-! ### From the tokens of a name to its text -/

theorem Spelled.text_of_dot {first : Char} {body : Text} {kind : Kind}
    (h : Spelled first body kind rest) (mark : kind = .dot) : first :: body = ['.'] := by
  cases h with
  | dot => rfl
  | mark known => exact absurd known (by subst mark; simp [punctuation])
  | comment => split at mark <;> cases mark
  | word => simp only [wordKind] at mark; split at mark <;> cases mark
  | _ => cases mark

/-- The name that some tokens of a text spell is the text of these tokens. -/
theorem NameTokens.textOf_eq (h : NameTokens name tokens)
    (lexemes : ∀ token ∈ tokens, token.IsLexeme) : textOf tokens = name := by
  induction h with
  | single => simp [textOf]
  | @dotted _ front dot part _ mark _ ih =>
      rw [List.forall_mem_append] at lexemes
      obtain ⟨_, _, spelling, -, spelled⟩ :=
        (Token.isLexeme_iff.1 (lexemes.2 dot List.mem_cons_self)).exists_spelled
      have single : dot.text = ['.'] := spelling.trans (spelled.text_of_dot mark)
      rw [textOf, List.flatMap_append, ← textOf, ih lexemes.1]
      simp [single]

/-- The tokens of a name spell the text that was cut into them. -/
theorem NameTokens.eq_of_lexed (h : NameTokens name tokens)
    (lexed : Lexed text (tokens ++ [Token.endOfInput])) : name = text := by
  obtain ⟨lexemes, same, cuts⟩ := lexed_iff_cuts.1 lexed
  obtain rfl : tokens = lexemes := List.append_cancel_right same
  rw [← h.textOf_eq fun token mem => cuts.isLexeme mem, cuts.text_eq, List.append_nil]

/-! ### Agreement -/

/-- Texts are checked for names as they are cut into tokens. A text is an identifier exactly if it
is cut into one identifier with this text, and a qualified name exactly if it is cut into
identifiers with dots between them, without white space or comments anywhere. The name that such
tokens are read as is the text itself. -/
theorem names_agree_with_tokens (text : Text) :
    (isIdentifier text = true ↔ lex text = .ok [⟨.identifier, text⟩, Token.endOfInput]) ∧
    (isQualifiedName text = true ↔
      ∃ name tokens, lex text = .ok (tokens ++ [Token.endOfInput]) ∧ NameTokens name tokens) ∧
    ∀ name tokens, lex text = .ok (tokens ++ [Token.endOfInput]) → NameTokens name tokens →
      name = text := by
  refine ⟨isIdentifier_iff_isLexeme, ⟨fun known => ?_, ?_⟩, fun name tokens lexed named => ?_⟩
  · obtain ⟨tokens, named, cuts⟩ := @exists_cuts_qualifiedName text [] known rfl
    rw [List.append_nil] at cuts
    exact ⟨text, tokens, lex_eq_ok_iff.2 (lexed_iff_cuts.2 ⟨tokens, rfl, cuts⟩), named⟩
  · rintro ⟨name, tokens, lexed, named⟩
    rw [lex_eq_ok_iff] at lexed
    obtain rfl := named.eq_of_lexed lexed
    exact named.isQualifiedName fun token mem =>
      isIdentifier_of_lexed lexed (List.mem_append_left _ mem)
  · exact named.eq_of_lexed (lex_eq_ok_iff.1 lexed)

/-- The tokens of `java.größe.$x²`, with a letter beyond ASCII and a number that is no digit. -/
def mixedName : List Token :=
  [⟨.identifier, "java".toList⟩] ++ [⟨.dot, ['.']⟩, ⟨.identifier, "größe".toList⟩] ++
    [⟨.dot, ['.']⟩, ⟨.identifier, "$x²".toList⟩]

theorem names_agree_with_tokens_mixedName :
    lex "java.größe.$x²".toList = .ok (mixedName ++ [Token.endOfInput]) ∧
      isQualifiedName "java.größe.$x²".toList = true ∧
      ∃ name, NameTokens name mixedName ∧ name = "java.größe.$x²".toList := by
  have lexed : lex "java.größe.$x²".toList = .ok (mixedName ++ [Token.endOfInput]) :=
    eq_ok_of_toOption (by decide +kernel)
  have named : NameTokens _ mixedName := .dotted (.dotted (.single rfl) rfl rfl) rfl rfl
  obtain ⟨-, qualified, spells⟩ := names_agree_with_tokens "java.größe.$x²".toList
  exact ⟨lexed, qualified.2 ⟨_, _, lexed, named⟩, _, named, spells _ _ lexed named⟩

end JavaUnit
