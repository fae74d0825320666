/-
Module: JavaUnit.Proofs.Cut
Purpose: Cutting tokens off the front of a text. How long a token is depends on at most two
  characters behind it, and on none behind white space or a bracket; so tokens may be cut off a
  text with another text behind them just as well.
Main exports: Spelled, Cut, Cuts, Cuts.lexed, Alike, Cuts.swap, Spelled.cutShort, Cuts.cutShort
-/
import JavaUnit.Proofs.Delimited

namespace JavaUnit

/-! ### Lengths -/

/-- As much of a text as `p` holds of is a given front of it. -/
theorem length_takeWhile_append {p : Char → Bool} {body rest : Text} :
    ((body ++ rest).takeWhile p).length = body.length ↔
      (∀ c ∈ body, p c = true) ∧ rest.head?.all (!p ·) = true := by
  induction body with
  | nil =>
      cases rest with
      | nil => simp
      | cons c _ => cases h : p c <;> simp [h]
  | cons c others ih =>
      rw [List.cons_append, List.takeWhile_cons]
      cases h : p c with
      | false => simp [h]
      | true => simp [h, ih]

theorem takeWhile_append_of_head {p : Char → Bool} {body rest : Text}
    (each : ∀ c ∈ body, p c = true) (ends : rest.head?.all (!p ·) = true) :
    (body ++ rest).takeWhile p = body := by
  have front := List.takeWhile_prefix p (l := body ++ rest)
  have length := length_takeWhile_append.2 ⟨each, ends⟩
  exact (List.prefix_of_prefix_length_le front (List.prefix_append _ _) (by omega)).eq_of_length
    length

/-- The longest front of a text that `p` holds of, and what is behind it. -/
theorem takeWhile_spec (p : Char → Bool) (text : Text) :
    (∀ c ∈ text.takeWhile p, p c = true) ∧ (text.dropWhile p).head?.all (!p ·) = true := by
  have both := @length_takeWhile_append p (text.takeWhile p) (text.dropWhile p)
  rw [List.takeWhile_append_dropWhile] at both
  exact both.1 rfl

theorem take_length_takeWhile (p : Char → Bool) (text : Text) :
    text.take (text.takeWhile p).length = text.takeWhile p :=
  (List.prefix_iff_eq_take.1 (List.takeWhile_prefix _)).symm

theorem drop_length_takeWhile (p : Char → Bool) (text : Text) :
    text.drop (text.takeWhile p).length = text.dropWhile p := by
  have whole : text.takeWhile p ++ text.drop (text.takeWhile p).length =
      text.takeWhile p ++ text.dropWhile p := by
    rw [List.takeWhile_append_dropWhile]
    conv => lhs; lhs; rw [← take_length_takeWhile]
    exact List.take_append_drop _ _
  exact List.append_cancel_left whole

/-! ### Lexemes -/

/-- The token that is spelled by `first` and the characters of `body`, if `rest` is behind them:
one rule for each sort of lexeme. -/
inductive Spelled : Char → Text → Kind → Text → Prop where
  | mark {first kind rest} (known : (first, kind) ∈ punctuation) : Spelled first [] kind rest
  | comparison {rest} : Spelled '=' ['='] .operator rest
  | equals {rest} (alone : rest.head? ≠ some '=') : Spelled '=' [] .equals rest
  | ellipsis {rest} : Spelled '.' ['.', '.'] .ellipsis rest
  | fraction {c body rest} (digit : c.isDigit = true)
      (length : numberLength '\x00' ((c :: body) ++ rest) = (c :: body).length) :
      Spelled '.' (c :: body) .number rest
  | dot {rest} (alone : ¬ (rest.head? = some '.' ∧ rest[1]? = some '.'))
      (noDigit : rest.head?.any Char.isDigit = false) : Spelled '.' [] .dot rest
  | lineComment {body rest} (stays : ∀ c ∈ body, endsLine c = false)
      (ends : rest.head?.all endsLine = true) : Spelled '/' ('/' :: body) .lineComment rest
  | comment {body rest} (closed : CommentRest '\x00' body) :
      Spelled '/' ('*' :: body)
        (if body.head? = some '*' && body[1]? ≠ some '/' then .docComment else .blockComment) rest
  | slash {rest} (noComment : rest.head? ≠ some '/' ∧ rest.head? ≠ some '*') :
      Spelled '/' [] .operator rest
  | textBlock {body rest} (closed : TextBlockRest 0 body) :
      Spelled '"' ('"' :: '"' :: body) .string rest
  | string {body rest} (noBlock : body = ['"'] → rest.head? ≠ some '"')
      (closed : LiteralRest '"' body) : Spelled '"' body .string rest
  | character {body rest} (closed : LiteralRest '\'' body) : Spelled '\'' body .character rest
  | whitespace {first body rest} (blank : isBlank first = true)
      (blanks : ∀ c ∈ body, isBlank c = true) (ends : rest.head?.all (!isBlank ·) = true) :
      Spelled first body .whitespace rest
  | word {first body rest} (start : isWordStart first = true)
      (parts : ∀ c ∈ body, isWordPart c = true) (ends : rest.head?.all (!isWordPart ·) = true) :
      Spelled first body (wordKind (first :: body)) rest
  | number {first body rest} (digit : first.isDigit = true)
      (length : numberLength '\x00' (body ++ rest) = body.length) :
      Spelled first body .number rest
  | operator {first rest} (known : first ∈ operatorChars) : Spelled first [] .operator rest
  | unknown {first rest} (noBlank : isBlank first = false) (noStart : isWordStart first = false)
      (noDigit : first.isDigit = false) (noMark : opensLexeme first = false)
      (noOperator : first ∉ operatorChars) : Spelled first [] .unknown rest

/-- A lexeme is scanned as it is spelled. -/
theorem Spelled.scanned {first : Char} {body rest : Text} {kind : Kind}
    (h : Spelled first body kind rest) : Scanned first (body ++ rest) kind body.length := by
  cases h with
  | mark known => exact .mark known
  | comparison => exact .comparison
  | equals alone => exact .equals alone
  | ellipsis => exact .ellipsis
  | fraction digit length =>
      rw [← length]
      exact .fraction (by simpa using digit)
  | dot alone noDigit => exact .dot alone noDigit
  | @lineComment body _ stays ends =>
      have line : (('/' :: (body ++ rest)).takeWhile (!endsLine ·)) = '/' :: body := by
        refine @takeWhile_append_of_head _ ('/' :: body) _ ?_ (by simpa using ends)
        intro c mem
        rcases List.mem_cons.1 mem with rfl | mem
        · decide
        · simp [stays c mem]
      have scanned := @Scanned.lineComment (body ++ rest)
      rwa [line] at scanned
  | @comment body _ closed =>
      have two : 2 ≤ body.length := closed.two_le (by decide)
      have scanned := Scanned.comment (closed.extent rest)
      have first : (body ++ rest).head? = body.head? := by
        cases body with
        | nil => simp at two
        | cons => rfl
      have second : (body ++ rest)[1]? = body[1]? := List.getElem?_append_left (by omega)
      rw [first, second] at scanned
      exact scanned
  | slash noComment => exact .slash noComment
  | textBlock closed => exact .textBlock (closed.extent rest)
  | string noBlock closed =>
      refine .string ?_ (closed.extent (by decide) rest)
      intro both
      cases closed with
      | close =>
          apply noBlock rfl
          simpa [List.head?_eq_getElem?] using both.2
      | escape => simp at both
      | char other => exact other (by simpa using both.1)
  | character closed => exact .character (closed.extent (by decide) rest)
  | whitespace blank blanks ends =>
      have scanned := @Scanned.whitespace _ (body ++ rest) blank
      rwa [takeWhile_append_of_head blanks ends] at scanned
  | word start parts ends =>
      have scanned := @Scanned.word _ (body ++ rest) start
      rwa [takeWhile_append_of_head parts ends] at scanned
  | number digit length =>
      rw [← length]
      exact .number digit
  | operator known => exact .operator known
  | unknown noBlank noStart noDigit noMark noOperator =>
      exact .unknown noBlank noStart noDigit noMark noOperator

/-- What is scanned is spelled by the characters that the scan takes. -/
theorem Scanned.spelled {first : Char} {others : Text} {kind : Kind} {more : Nat}
    (h : Scanned first others kind more) :
    Spelled first (others.take more) kind (others.drop more) := by
  have cut : ∀ n, others.take n ++ others.drop n = others := fun n => List.take_append_drop n _
  have bound := h.more_le
  cases h with
  | mark known => exact .mark known
  | comparison => exact .comparison
  | equals alone => exact .equals alone
  | ellipsis => exact .ellipsis
  | fraction digit =>
      cases others with
      | nil => cases digit
      | cons c rest =>
          have digit : c.isDigit = true := by simpa using digit
          have positive : numberLength '\x00' (c :: rest) ≠ 0 := by
            have noDot : c ≠ '.' := by
              rintro rfl
              cases digit
            simp [numberLength, Char.isAlphanum, digit, noDot]
          obtain ⟨m, length⟩ := Nat.exists_eq_succ_of_ne_zero positive
          rw [length] at bound ⊢
          have whole := cut (m + 1)
          rw [List.take_succ_cons, List.drop_succ_cons] at whole ⊢
          refine .fraction digit ?_
          rw [whole, length, List.length_cons, List.length_take]
          exact congrArg (· + 1) (Nat.min_eq_left (by simpa using bound)).symm
  | dot alone noDigit => exact .dot alone noDigit
  | @lineComment rest =>
      have line : (('/' :: rest).takeWhile (!endsLine ·)) =
          '/' :: rest.takeWhile (!endsLine ·) := by
        rw [List.takeWhile_cons_of_pos (by decide)]
      rw [line, List.length_cons, List.take_succ_cons, List.drop_succ_cons]
      obtain ⟨stays, ends⟩ := takeWhile_spec (!endsLine ·) rest
      rw [take_length_takeWhile, drop_length_takeWhile]
      exact .lineComment (fun c mem => by simpa using stays c mem) (by simpa using ends)
  | comment closed =>
      obtain ⟨body, rest, rfl, rfl, comment⟩ := commentExtent_eq_closed_iff.1 closed
      have two : 2 ≤ body.length := comment.two_le (by decide)
      rw [List.take_succ_cons, List.drop_succ_cons, List.take_left, List.drop_left]
      have first : (body ++ rest).head? = body.head? := by
        cases body with
        | nil => simp at two
        | cons => rfl
      have second : (body ++ rest)[1]? = body[1]? := List.getElem?_append_left (by omega)
      rw [first, second]
      exact .comment comment
  | slash noComment => exact .slash noComment
  | textBlock closed =>
      obtain ⟨body, rest, rfl, rfl, block⟩ := textBlockExtent_eq_closed_iff.1 closed
      rw [List.take_succ_cons, List.take_succ_cons, List.drop_succ_cons, List.drop_succ_cons,
        List.take_left, List.drop_left]
      exact .textBlock block
  | string noBlock closed =>
      obtain ⟨body, rest, rfl, rfl, literal⟩ := (literalExtent_eq_closed_iff (by decide)).1 closed
      rw [List.take_left, List.drop_left]
      refine .string ?_ literal
      rintro rfl head
      exact noBlock ⟨rfl, by simpa [List.head?_eq_getElem?] using head⟩
  | character closed =>
      obtain ⟨body, rest, rfl, rfl, literal⟩ := (literalExtent_eq_closed_iff (by decide)).1 closed
      rw [List.take_left, List.drop_left]
      exact .character literal
  | whitespace blank =>
      obtain ⟨blanks, ends⟩ := takeWhile_spec isBlank others
      rw [take_length_takeWhile, drop_length_takeWhile]
      exact .whitespace blank blanks ends
  | word start =>
      obtain ⟨parts, ends⟩ := takeWhile_spec isWordPart others
      rw [take_length_takeWhile, drop_length_takeWhile]
      exact .word start parts ends
  | number digit =>
      refine .number digit ?_
      rw [cut, List.length_take]
      exact (Nat.min_eq_left bound).symm
  | operator known => exact .operator known
  | unknown noBlank noStart noDigit noMark noOperator =>
      exact .unknown noBlank noStart noDigit noMark noOperator

/-- The kinds of punctuation are those of single characters. -/
theorem Spelled.mark_of_mem {first : Char} {body rest : Text} {kind : Kind}
    (h : Spelled first body kind rest) (mem : kind ∈ punctuation.map (·.2)) :
    body = [] ∧ (first, kind) ∈ punctuation := by
  cases h with
  | mark known => exact ⟨rfl, known⟩
  | comment => split at mem <;> simp [punctuation] at mem
  | word =>
      rw [wordKind] at mem
      split at mem <;> simp [punctuation] at mem
  | _ => simp [punctuation] at mem

/-- A line comment is two slashes and what follows on the line. -/
theorem Spelled.exists_of_lineComment {first : Char} {body rest : Text} {kind : Kind}
    (h : Spelled first body kind rest) (line : kind = .lineComment) :
    ∃ comment, first :: body = '/' :: '/' :: comment ∧ (∀ c ∈ comment, endsLine c = false) ∧
      rest.head?.all endsLine = true := by
  cases h with
  | lineComment stays ends => exact ⟨_, rfl, stays, ends⟩
  | mark known => exact absurd known (by subst line; simp [punctuation])
  | comment => split at line <;> cases line
  | word => simp only [wordKind] at line; split at line <;> cases line
  | _ => cases line

/-- A comment between delimiters, as it is spelled behind its opening delimiter. -/
theorem Spelled.exists_of_enclosed {first : Char} {body rest : Text} {kind : Kind}
    (h : Spelled first body kind rest) (comment : kind = .blockComment ∨ kind = .docComment) :
    ∃ inside, first :: body = '/' :: '*' :: inside ∧ CommentRest '\x00' inside ∧
      kind = if inside.head? = some '*' && inside[1]? ≠ some '/' then .docComment
        else .blockComment := by
  cases h with
  | comment closed => exact ⟨_, rfl, closed, rfl⟩
  | mark known => exact absurd known (by rcases comment with rfl | rfl <;> simp [punctuation])
  | word => simp only [wordKind] at comment; split at comment <;> simp at comment
  | _ => simp at comment

/-- White space is spelled by white space, behind which there is none. -/
theorem Spelled.isBlank_of_whitespace {first : Char} {body rest : Text} {kind : Kind}
    (h : Spelled first body kind rest) (blank : kind = .whitespace) :
    (∀ c ∈ first :: body, isBlank c = true) ∧ rest.head?.all (!isBlank ·) = true := by
  cases h with
  | whitespace start blanks ends => exact ⟨List.forall_mem_cons.2 ⟨start, blanks⟩, ends⟩
  | mark known => exact absurd known (by subst blank; simp [punctuation])
  | comment => split at blank <;> cases blank
  | word => simp only [wordKind] at blank; split at blank <;> cases blank
  | _ => cases blank

theorem Spelled.kind_ne_eof {first : Char} {body rest : Text} {kind : Kind}
    (h : Spelled first body kind rest) : kind ≠ .eof :=
  h.scanned.kind_ne_eof

/-! ### One token -/

/-- The first token of a text, and the text behind it. -/
inductive Cut : Text → Token → Text → Prop where
  | intro {first body rest kind} (spelled : Spelled first body kind rest) :
      Cut (first :: (body ++ rest)) ⟨kind, first :: body⟩ rest

namespace Cut

variable {text rest : Text} {token : Token}

/-- Two slashes begin a line comment. -/
theorem lineComment (text : Text) :
    Cut ('/' :: '/' :: text) ⟨.lineComment, '/' :: '/' :: text.takeWhile (!endsLine ·)⟩
      (text.dropWhile (!endsLine ·)) := by
  obtain ⟨stays, ends⟩ := takeWhile_spec (!endsLine ·) text
  have cut := Cut.intro (Spelled.lineComment (fun c mem => by simpa using stays c mem)
    (by simpa using ends))
  rwa [List.cons_append, List.takeWhile_append_dropWhile] at cut

theorem text_eq (h : Cut text token rest) : text = token.text ++ rest := by
  cases h with
  | intro => rfl

theorem text_ne_nil (h : Cut text token rest) : token.text ≠ [] := by
  cases h with
  | intro => simp

theorem kind_ne_eof (h : Cut text token rest) : token.kind ≠ .eof := by
  cases h with
  | intro spelled => exact spelled.kind_ne_eof

theorem isEnd_eq_false (h : Cut text token rest) : token.isEnd = false := by
  simpa [Token.isEnd] using h.kind_ne_eof

/-- Scanning settles the first token. -/
theorem of_scanned {first : Char} {others : Text} {kind : Kind} {more : Nat}
    (h : Scanned first others kind more) :
    Cut (first :: others) ⟨kind, first :: others.take more⟩ (others.drop more) := by
  have cut := Cut.intro h.spelled
  rwa [List.take_append_drop] at cut

theorem lexed_iff (h : Cut text token rest) {tokens : List Token} :
    Lexed text tokens ↔ ∃ later, tokens = token :: later ∧ Lexed rest later := by
  cases h with
  | @intro first body rest kind spelled =>
      have scanned := spelled.scanned
      constructor
      · intro lexed
        cases lexed with
        | @cons _ _ kind' more later head tail =>
            have same := (scan_of_scanned head).symm.trans (scan_of_scanned scanned)
            simp only [Scan.token.injEq] at same
            obtain ⟨rfl, rfl⟩ := same
            rw [List.drop_left] at tail
            exact ⟨later, by rw [List.take_left], tail⟩
      · rintro ⟨later, rfl, lexed⟩
        have whole := @Lexed.cons _ _ _ _ later scanned (by rwa [List.drop_left])
        rwa [List.take_left] at whole

theorem exists_spelled (h : Cut text token rest) :
    ∃ first body, token.text = first :: body ∧ text = first :: (body ++ rest) ∧
      Spelled first body token.kind rest := by
  cases h with
  | intro spelled => exact ⟨_, _, rfl, rfl, spelled⟩

/-- A text has one first token. -/
theorem unique (h : Cut text token rest) {token' : Token} {rest' : Text}
    (h' : Cut text token' rest') : token = token' ∧ rest = rest' := by
  obtain ⟨first, body, spelling, whole, spelled⟩ := h.exists_spelled
  obtain ⟨first', body', spelling', whole', spelled'⟩ := h'.exists_spelled
  rw [whole, List.cons.injEq] at whole'
  obtain ⟨rfl, same⟩ := whole'
  have scanned := scan_of_scanned spelled.scanned
  rw [same, scan_of_scanned spelled'.scanned] at scanned
  obtain ⟨kind, length⟩ := Scan.token.inj scanned
  obtain ⟨rfl, rest⟩ := List.append_inj same length.symm
  refine ⟨?_, rest⟩
  cases token
  cases token'
  simp_all

end Cut

/-- A text with a token before its end has a first one. -/
theorem Lexed.exists_cut {text : Text} {token : Token} {later : List Token}
    (h : Lexed text (token :: later)) (inside : token.isEnd = false) :
    ∃ rest, Cut text token rest ∧ Lexed rest later := by
  cases h with
  | nil => cases inside
  | cons head tail => exact ⟨_, .of_scanned head, tail⟩

/-- Whatever is no end was cut off some text. -/
theorem Lexed.exists_cut_of_mem {text : Text} {token : Token} {tokens : List Token}
    (h : Lexed text tokens) (mem : token ∈ tokens) (inside : token.isEnd = false) :
    ∃ front rest, Cut front token rest := by
  induction h with
  | nil =>
      rw [List.mem_singleton.1 mem] at inside
      cases inside
  | cons head _ ih =>
      rcases List.mem_cons.1 mem with rfl | mem
      · exact ⟨_, _, .of_scanned head⟩
      · exact ih mem

/-! ### Tokens in a row -/

/-- The first tokens of a text, and the text behind them. -/
inductive Cuts : Text → List Token → Text → Prop where
  | nil {text} : Cuts text [] text
  | cons {text token mid tokens rest} (head : Cut text token mid) (tail : Cuts mid tokens rest) :
      Cuts text (token :: tokens) rest

namespace Cuts

variable {text mid rest : Text} {tokens later : List Token}

theorem text_eq (h : Cuts text tokens rest) : text = textOf tokens ++ rest := by
  induction h with
  | nil => rfl
  | cons head _ ih => rw [head.text_eq, ih, textOf, textOf, List.flatMap_cons, List.append_assoc]

theorem append (h : Cuts text tokens mid) (h' : Cuts mid later rest) :
    Cuts text (tokens ++ later) rest := by
  induction h with
  | nil => exact h'
  | cons head _ ih => exact .cons head (ih h')

theorem isEnd_eq_false (h : Cuts text tokens rest) {token : Token} (mem : token ∈ tokens) :
    token.isEnd = false := by
  induction h with
  | nil => cases mem
  | cons head _ ih =>
      rcases List.mem_cons.1 mem with rfl | mem
      · exact head.isEnd_eq_false
      · exact ih mem

/-- What is behind the first tokens of a text settles the others. -/
theorem lexed_iff (h : Cuts text tokens rest) {all : List Token} :
    Lexed text all ↔ ∃ later, all = tokens ++ later ∧ Lexed rest later := by
  induction h generalizing all with
  | nil => simp
  | cons head _ ih =>
      rw [head.lexed_iff]
      constructor
      · rintro ⟨_, rfl, lexed⟩
        obtain ⟨later, rfl, behind⟩ := ih.1 lexed
        exact ⟨later, rfl, behind⟩
      · rintro ⟨later, rfl, lexed⟩
        exact ⟨_, rfl, ih.2 ⟨later, rfl, lexed⟩⟩

theorem lexed (h : Cuts text tokens rest) (lexed : Lexed rest later) :
    Lexed text (tokens ++ later) :=
  h.lexed_iff.2 ⟨later, rfl, lexed⟩

theorem split (h : Cuts text (tokens ++ later) rest) :
    ∃ mid, Cuts text tokens mid ∧ Cuts mid later rest := by
  induction tokens generalizing text with
  | nil => exact ⟨text, .nil, h⟩
  | cons token others ih =>
      cases h with
      | cons head tail =>
          obtain ⟨mid, front, back⟩ := ih tail
          exact ⟨mid, .cons head front, back⟩

end Cuts

/-- The tokens of a text in front of some others are cut off it. -/
theorem Lexed.exists_cuts {text : Text} {tokens later : List Token}
    (h : Lexed text (tokens ++ later)) (inside : ∀ token ∈ tokens, token.isEnd = false) :
    ∃ rest, Cuts text tokens rest ∧ Lexed rest later := by
  induction tokens generalizing text with
  | nil => exact ⟨text, .nil, h⟩
  | cons token others ih =>
      obtain ⟨mid, head, lexed⟩ := h.exists_cut (inside token List.mem_cons_self)
      obtain ⟨rest, tail, lexed⟩ := ih lexed fun token mem =>
        inside token (List.mem_cons_of_mem _ mem)
      exact ⟨rest, .cons head tail, lexed⟩

/-- All tokens of a text are cut off it but the end of the input. -/
theorem lexed_iff_cuts {text : Text} {tokens : List Token} :
    Lexed text tokens ↔
      ∃ lexemes, tokens = lexemes ++ [Token.endOfInput] ∧ Cuts text lexemes [] := by
  constructor
  · intro h
    obtain ⟨lexemes, rfl, each⟩ := h.exists_lexemes
    obtain ⟨rest, cuts, lexed⟩ := h.exists_cuts fun token mem => by
      simpa [Token.isEnd] using (each token mem).1
    cases lexed with
    | nil => exact ⟨lexemes, rfl, cuts⟩
  · rintro ⟨lexemes, rfl, cuts⟩
    exact cuts.lexed .nil

/-! ### What a token does not depend on -/

/-- The characters that no other character makes a longer token with, white space apart. -/
def separates (c : Char) : Bool :=
  isBlank c || c ∈ punctuation.map (·.1)

/-- Two texts that a token in front of them cannot tell apart: up to two characters they agree,
as far as no character separates. -/
structure Alike (left right : Text) : Prop where
  first : ∀ c, separates c = false → (left.head? = some c ↔ right.head? = some c)
  second : ∀ c d, separates c = false → separates d = false →
    (left.head? = some c ∧ left[1]? = some d ↔ right.head? = some c ∧ right[1]? = some d)

/-- Whether a text begins with a character that separates, or not at all. -/
def Separated (text : Text) : Prop :=
  text.head?.all separates = true

theorem separated_nil : Separated [] := rfl

theorem separated_cons {c : Char} {rest : Text} : Separated (c :: rest) ↔ separates c = true := by
  simp [Separated]

theorem Separated.head_ne {text : Text} (h : Separated text) {c : Char}
    (other : separates c = false) : text.head? ≠ some c := by
  intro head
  rw [Separated, head, Option.all_some, other] at h
  cases h

namespace Alike

variable {left right : Text}

theorem refl (text : Text) : Alike text text :=
  ⟨fun _ _ => .rfl, fun _ _ _ _ => .rfl⟩

theorem of_separated (h : Separated left) (h' : Separated right) : Alike left right := by
  constructor
  · intro c other
    exact iff_of_false (h.head_ne other) (h'.head_ne other)
  · intro c d other _
    exact iff_of_false (fun both => h.head_ne other both.1) (fun both => h'.head_ne other both.1)

theorem cons (c : Char) (h : Alike left right) : Alike (c :: left) (c :: right) := by
  constructor
  · intro d _
    rfl
  · intro d e _ other
    have second : ((c :: left)[1]? = some e) ↔ ((c :: right)[1]? = some e) := by
      simpa [List.head?_eq_getElem?] using h.first e other
    simp only [List.head?_cons, second]

theorem append (front : Text) (h : Alike left right) : Alike (front ++ left) (front ++ right) := by
  induction front with
  | nil => exact h
  | cons c _ ih => exact ih.cons c

/-- A test of the first character that no separating character passes. -/
theorem any_head (h : Alike left right) {p : Char → Bool}
    (apart : ∀ c, p c = true → separates c = false) :
    left.head?.any p = right.head?.any p := by
  rw [Bool.eq_iff_iff, Option.any_eq_true, Option.any_eq_true]
  constructor
  · rintro ⟨c, head, holds⟩
    exact ⟨c, (h.first c (apart c holds)).1 head, holds⟩
  · rintro ⟨c, head, holds⟩
    exact ⟨c, (h.first c (apart c holds)).2 head, holds⟩

end Alike

theorem separates_of_isBlank {c : Char} (h : isBlank c = true) : separates c = true := by
  rw [separates, h, Bool.true_or]

theorem separates_eq_false_iff {c : Char} :
    separates c = false ↔ isBlank c = false ∧ c ∉ punctuation.map (·.1) := by
  rw [separates, Bool.or_eq_false_iff, decide_eq_false_iff_not]

/-- No bracket goes on with a word. -/
theorem separates_of_isWordPart {c : Char} (h : isWordPart c = true) : separates c = false := by
  cases sep : separates c with
  | false => rfl
  | true =>
      exfalso
      rw [separates, Bool.or_eq_true] at sep
      rcases sep with blank | mark
      · rw [not_isWordPart_of_isBlank blank] at h
        cases h
      · have each : (punctuation.map (·.1)).all (!isWordPart ·) = true := by decide +kernel
        have other := List.all_eq_true.1 each c (of_decide_eq_true mark)
        rw [h] at other
        cases other

theorem separates_of_isDigit {c : Char} (h : c.isDigit = true) : separates c = false := by
  have each : digitChars.all (!separates ·) = true := by decide +kernel
  simpa using List.all_eq_true.1 each c (mem_digitChars h)

theorem separates_of_isAlphanum {c : Char} (h : c.isAlphanum = true) : separates c = false := by
  rw [Char.isAlphanum, Bool.or_eq_true] at h
  rcases h with alpha | digit
  · refine separates_of_isWordPart (isWordPart_of_isWordStart ?_)
    have ascii : c.toNat < 0x80 := by
      have cases : (c.isUpper || c.isLower) = true := alpha
      have bound : c.val.toNat < 0x80 := by
        rcases Bool.or_eq_true_iff.1 cases with upper | lower
        · have high := (of_decide_eq_true upper).2
          exact Nat.lt_of_le_of_lt (UInt32.le_iff_toNat_le.1 high) (by decide)
        · have high := of_decide_eq_true (Bool.and_eq_true_iff.1 lower).2
          exact Nat.lt_of_le_of_lt (UInt32.le_iff_toNat_le.1 high) (by decide)
      exact bound
    simp [isWordStart, isLetter, ascii, alpha]
  · exact separates_of_isDigit digit

/-- The characters of a number are none that separate. -/
theorem numberLength_append {previous : Char} {body left right : Text} (alike : Alike left right)
    (h : numberLength previous (body ++ left) = body.length) :
    numberLength previous (body ++ right) = body.length := by
  induction body generalizing previous with
  | nil =>
      simp only [List.nil_append, List.length_nil] at h ⊢
      cases right with
      | nil => rfl
      | cons c rest =>
          rw [numberLength]
          by_cases known : (c.isAlphanum || c = '_' || c = '.' ||
              (c = '+' || c = '-') && previous ∈ ['e', 'E', 'p', 'P']) = true
          · have other : separates c = false := by
              simp only [Bool.or_eq_true, Bool.and_eq_true, decide_eq_true_eq] at known
              rcases known with ((known | rfl) | rfl) | ⟨rfl | rfl, _⟩
              · exact separates_of_isAlphanum known
              all_goals decide
            have head := (alike.first c other).2 rfl
            obtain ⟨left, rfl⟩ : ∃ others, left = c :: others := by
              cases left with
              | nil => cases head
              | cons d others => exact ⟨others, by rw [Option.some.inj head]⟩
            rw [numberLength] at h
            simp only [known, if_true] at h ⊢
            split at h
            · next dots =>
                have dots : c = '.' ∧ left.head? = some '.' := by simpa using dots
                have both := (alike.second '.' '.' (by decide) (by decide)).1
                  ⟨by rw [dots.1]; rfl, by simpa [List.head?_eq_getElem?] using dots.2⟩
                rw [if_pos]
                simpa [dots.1, List.head?_eq_getElem?] using both.2
            · cases h
          · simp only [known, if_false, Bool.false_eq_true]
  | cons c others ih =>
      rw [List.cons_append, numberLength] at h ⊢
      split at h
      · next known =>
          rw [if_pos known]
          split at h
          · cases h
          · next goesOn =>
              have same : decide ((others ++ left).head? = some '.') =
                  decide ((others ++ right).head? = some '.') := by
                cases others with
                | nil => exact decide_eq_decide.2 (alike.first '.' (by decide))
                | cons => rfl
              rw [same] at goesOn
              rw [if_neg goesOn, ih (by simpa using h)]
              rfl
      · cases h

/-- A token is spelled alike whatever is behind it, up to what it cannot tell apart. -/
theorem Spelled.swap {first : Char} {body left right : Text} {kind : Kind}
    (h : Spelled first body kind left) (alike : Alike left right)
    (line : kind = .lineComment → right.head?.all endsLine = true)
    (blank : kind = .whitespace → right.head?.all (!isBlank ·) = true) :
    Spelled first body kind right := by
  cases h with
  | mark known => exact .mark known
  | comparison => exact .comparison
  | equals alone => exact .equals (mt (alike.first '=' (by decide)).2 alone)
  | ellipsis => exact .ellipsis
  | fraction digit length => exact .fraction digit (numberLength_append alike length)
  | dot alone noDigit =>
      refine .dot (mt (alike.second '.' '.' (by decide) (by decide)).2 alone) ?_
      rw [← alike.any_head fun c => separates_of_isDigit]
      exact noDigit
  | lineComment stays => exact .lineComment stays (line rfl)
  | comment closed => exact .comment closed
  | slash noComment =>
      exact .slash ⟨mt (alike.first '/' (by decide)).2 noComment.1,
        mt (alike.first '*' (by decide)).2 noComment.2⟩
  | textBlock closed => exact .textBlock closed
  | string noBlock closed =>
      exact .string (fun empty => mt (alike.first '"' (by decide)).2 (noBlock empty)) closed
  | character closed => exact .character closed
  | whitespace start blanks => exact .whitespace start blanks (blank rfl)
  | word start parts ends =>
      refine .word start parts ?_
      have same := alike.any_head fun c => separates_of_isWordPart
      cases head : right.head? with
      | none => rfl
      | some c =>
          cases part : isWordPart c with
          | false => simp [part]
          | true =>
              have back := (alike.first c (separates_of_isWordPart part)).2 head
              rw [back] at ends
              simp [part] at ends
  | number digit length => exact .number digit (numberLength_append alike length)
  | operator known => exact .operator known
  | unknown noBlank noStart noDigit noMark noOperator =>
      exact .unknown noBlank noStart noDigit noMark noOperator

/-- Behind a line comment the line ends. -/
theorem Spelled.head_of_lineComment {first : Char} {body rest : Text} {kind : Kind}
    (h : Spelled first body kind rest) (line : kind = .lineComment) :
    rest.head?.all endsLine = true := by
  obtain ⟨_, _, _, ends⟩ := h.exists_of_lineComment line
  exact ends

/-- Behind white space there is none. -/
theorem Spelled.head_of_whitespace {first : Char} {body rest : Text} {kind : Kind}
    (h : Spelled first body kind rest) (blank : kind = .whitespace) :
    rest.head?.all (!isBlank ·) = true :=
  (h.isBlank_of_whitespace blank).2

/-- A token is cut off the same way with another text behind it. -/
theorem Cut.swap {text left right : Text} {token : Token} (h : Cut text token left)
    (alike : Alike left right)
    (line : token.kind = .lineComment → right.head?.all endsLine = true)
    (blank : token.kind = .whitespace → right.head?.all (!isBlank ·) = true) :
    Cut (token.text ++ right) token right := by
  cases h with
  | intro spelled => exact .intro (spelled.swap alike line blank)

/-- Tokens in a row are cut off the same way with another text behind them. Only the last one of
them could get longer, if it is a line comment or white space. -/
theorem Cuts.swap {text left right : Text} {tokens : List Token} (h : Cuts text tokens left)
    (alike : Alike left right)
    (last : ∀ token, tokens.getLast? = some token →
      (token.kind = .lineComment → right.head?.all endsLine = true) ∧
      (token.kind = .whitespace → right.head?.all (!isBlank ·) = true)) :
    Cuts (textOf tokens ++ right) tokens right := by
  induction h with
  | nil => exact .nil
  | @cons text token mid tokens rest head tail ih =>
      have later : Cuts (textOf tokens ++ right) tokens right := by
        refine ih alike fun token mem => last token ?_
        rw [List.getLast?_cons, mem, Option.getD_some]
      have whole : textOf (token :: tokens) ++ right =
          token.text ++ (textOf tokens ++ right) := by
        rw [textOf, List.flatMap_cons, List.append_assoc, textOf]
      rw [whole]
      refine .cons ?_ later
      rw [tail.text_eq] at head
      refine head.swap (alike.append _) ?_ ?_
      · intro kind
        cases tail with
        | nil => exact (last token rfl).1 kind
        | cons second _ =>
            cases head with
            | intro spelled =>
                have ends := spelled.head_of_lineComment kind
                cases second with
                | intro => exact ends
      · intro kind
        cases tail with
        | nil => exact (last token rfl).2 kind
        | cons second _ =>
            cases head with
            | intro spelled =>
                have ends := spelled.head_of_whitespace kind
                cases second with
                | intro => exact ends

namespace Cuts

variable {text left right rest : Text} {tokens : List Token}

/-- Behind tokens in a row stands nothing that the last one goes on with. -/
theorem head_of_getLast? (h : Cuts text tokens rest) {token : Token}
    (last : tokens.getLast? = some token) :
    (token.kind = .lineComment → rest.head?.all endsLine = true) ∧
      (token.kind = .whitespace → rest.head?.all (!isBlank ·) = true) := by
  induction h with
  | nil => cases last
  | cons head tail ih =>
      cases tail with
      | nil =>
          obtain rfl := Option.some.inj last
          cases head with
          | intro spelled => exact ⟨spelled.head_of_lineComment, spelled.head_of_whitespace⟩
      | cons => exact ih (by rwa [List.getLast?_cons_cons] at last)

/-- Tokens in a row are cut off the same way in front of a text that begins alike. -/
theorem swap_of_head (h : Cuts text tokens left) (alike : Alike left right)
    (head : left.head? = right.head?) : Cuts (textOf tokens ++ right) tokens right := by
  refine h.swap alike fun token last => ?_
  rw [← head]
  exact h.head_of_getLast? last

end Cuts

/-! ### Texts cut short -/

theorem head?_append_of_head? {mid : Text} {c : Char} (h : mid.head? = some c) (rest : Text) :
    (mid ++ rest).head? = some c := by
  rw [List.head?_append, h, Option.some_or]

theorem all_head_of_append {p : Char → Bool} {mid rest : Text}
    (h : (mid ++ rest).head?.all p = true) : mid.head?.all p = true := by
  cases mid with
  | nil => rfl
  | cons => exact h

/-- A number that ends in front of a text ends in front of a shorter one, unless that is the first
of two dots. -/
theorem numberLength_cutShort {previous : Char} {body mid rest : Text}
    (dots : mid = ['.'] → rest.head? ≠ some '.')
    (h : numberLength previous (body ++ (mid ++ rest)) = body.length) :
    numberLength previous (body ++ mid) = body.length := by
  induction body generalizing previous with
  | nil =>
      cases mid with
      | nil => rfl
      | cons c others =>
          rw [List.nil_append, List.cons_append, numberLength] at h
          rw [List.nil_append, numberLength]
          split at h
          · next known =>
              rw [if_pos known]
              split at h
              · next both =>
                  have both : c = '.' ∧ (others ++ rest).head? = some '.' := by simpa using both
                  have second : others.head? = some '.' := by
                    cases others with
                    | nil => exact absurd both.2 (dots (by rw [both.1]))
                    | cons => exact both.2
                  rw [if_pos (by simp [both.1, second])]
                  rfl
              · cases h
          · next other => rw [if_neg other]; rfl
  | cons c others ih =>
      rw [List.cons_append, numberLength] at h ⊢
      split at h
      · next known =>
          rw [if_pos known]
          split at h
          · cases h
          · next goesOn =>
              have single :
                  ¬ (decide (c = '.') && decide ((others ++ mid).head? = some '.')) = true := by
                intro both
                apply goesOn
                simp only [Bool.and_eq_true, decide_eq_true_eq] at both ⊢
                refine ⟨both.1, ?_⟩
                rw [← List.append_assoc]
                exact head?_append_of_head? both.2 rest
              rw [if_neg single, ih (by simpa using h)]
              rfl
      · cases h

/-- A token is spelled alike in front of a text and in front of the beginning of it. Only the first
of two dots is not told from a part of a number any more. -/
theorem Spelled.cutShort {first : Char} {body mid rest : Text} {kind : Kind}
    (h : Spelled first body kind (mid ++ rest)) (dots : mid = ['.'] → rest.head? ≠ some '.') :
    Spelled first body kind mid := by
  have head : ∀ {c}, (mid ++ rest).head? ≠ some c → mid.head? ≠ some c := fun other same =>
    other (head?_append_of_head? same rest)
  cases h with
  | mark known => exact .mark known
  | comparison => exact .comparison
  | equals alone => exact .equals (head alone)
  | ellipsis => exact .ellipsis
  | fraction digit length => exact .fraction digit (numberLength_cutShort dots length)
  | dot alone noDigit =>
      refine .dot (fun both => alone ⟨head?_append_of_head? both.1 rest, ?_⟩) ?_
      · obtain ⟨bound, -⟩ := List.getElem?_eq_some_iff.1 both.2
        rw [List.getElem?_append_left bound]
        exact both.2
      · cases mid with
        | nil => rfl
        | cons => exact noDigit
  | lineComment stays ends => exact .lineComment stays (all_head_of_append ends)
  | comment closed => exact .comment closed
  | slash noComment => exact .slash ⟨head noComment.1, head noComment.2⟩
  | textBlock closed => exact .textBlock closed
  | string noBlock closed => exact .string (fun empty => head (noBlock empty)) closed
  | character closed => exact .character closed
  | whitespace start blanks ends => exact .whitespace start blanks (all_head_of_append ends)
  | word start parts ends => exact .word start parts (all_head_of_append ends)
  | number digit length => exact .number digit (numberLength_cutShort dots length)
  | operator known => exact .operator known
  | unknown noBlank noStart noDigit noMark noOperator =>
      exact .unknown noBlank noStart noDigit noMark noOperator

/-- Tokens in a row are those of their own text, if no dot is behind them. -/
theorem Cuts.cutShort {text rest : Text} {tokens : List Token} (h : Cuts text tokens rest)
    (noDot : rest.head? ≠ some '.') : Cuts (textOf tokens) tokens [] := by
  induction h with
  | nil => exact .nil
  | cons head tail ih =>
      rw [textOf, List.flatMap_cons, ← textOf]
      rw [tail.text_eq] at head
      cases head with
      | intro spelled => exact .cons (.intro (spelled.cutShort fun _ => noDot)) (ih noDot)

/-! ### White space at the ends -/

/-- The tokens that are not white space. -/
def inkOf (tokens : List Token) : List Token :=
  tokens.filter (!·.isWhitespace)

theorem inkOf_append (left right : List Token) : inkOf (left ++ right) = inkOf left ++ inkOf right :=
  List.filter_append ..

/-- A run of white space is one token. -/
theorem cut_whitespace {blanks rest : Text} (present : blanks ≠ [])
    (blank : ∀ c ∈ blanks, isBlank c = true) (ends : rest.head?.all (!isBlank ·) = true) :
    Cut (blanks ++ rest) ⟨.whitespace, blanks⟩ rest := by
  obtain ⟨c, others, rfl⟩ := List.exists_cons_of_ne_nil present
  exact .intro (.whitespace (blank c List.mem_cons_self)
    (fun d mem => blank d (List.mem_cons_of_mem _ mem)) ends)

theorem isBlank_of_mem_feed (c : Char) (mem : c ∈ ['\n']) : isBlank c = true := by
  rw [List.mem_singleton.1 mem]
  rfl

theorem Cut.blank_of_whitespace {text rest : Text} {token : Token} (h : Cut text token rest)
    (kind : token.kind = .whitespace) :
    (∀ c ∈ token.text, isBlank c = true) ∧ rest.head?.all (!isBlank ·) = true := by
  cases h with
  | intro spelled => exact spelled.isBlank_of_whitespace kind

/-- Only white space begins with white space. -/
theorem Cut.whitespace_of_blank {text rest : Text} {token : Token} (h : Cut text token rest)
    (blank : text.head?.any isBlank = true) : token.kind = .whitespace := by
  cases h with
  | @intro first body rest kind spelled =>
      have start : isBlank first = true := by simpa using blank
      have scanned := scan_of_scanned spelled.scanned
      rw [scan_of_not_opensLexeme (not_opensLexeme_of_isBlank start), if_pos start] at scanned
      exact (Scan.token.inj scanned).1.symm

namespace Cuts

variable {text rest : Text} {tokens : List Token}

/-- White space in front of some tokens adds no token but white space. -/
theorem exists_blank_front (h : Cuts text tokens rest) {c : Char} (blank : isBlank c = true)
    (ends : tokens = [] → rest.head?.all (!isBlank ·) = true) :
    ∃ tokens', Cuts (c :: text) tokens' rest ∧ inkOf tokens' = inkOf tokens := by
  have own : ∀ {text : Text}, text.head?.all (!isBlank ·) = true →
      Cut (c :: text) ⟨.whitespace, [c]⟩ text := fun ends =>
    @cut_whitespace [c] _ (List.cons_ne_nil _ _) (by simpa using blank) ends
  cases h with
  | nil => exact ⟨[⟨.whitespace, [c]⟩], .cons (own (ends rfl)) .nil, rfl⟩
  | @cons _ token mid tokens _ head tail =>
      by_cases kind : token.kind = .whitespace
      · obtain ⟨blanks, ends⟩ := head.blank_of_whitespace kind
        refine ⟨⟨.whitespace, c :: token.text⟩ :: tokens, .cons ?_ tail, ?_⟩
        · rw [head.text_eq]
          refine @cut_whitespace (c :: token.text) _ (List.cons_ne_nil _ _) ?_ ends
          intro d mem
          rcases List.mem_cons.1 mem with rfl | mem
          · exact blank
          · exact blanks d mem
        · simp [inkOf, Token.isWhitespace, kind]
      · refine ⟨⟨.whitespace, [c]⟩ :: token :: tokens, .cons (own ?_) (.cons head tail), ?_⟩
        · cases first : text.head? with
          | none => rfl
          | some d =>
              cases blank' : isBlank d with
              | false => simp [blank']
              | true => exact absurd (head.whitespace_of_blank (by simp [first, blank'])) kind
        · simp [inkOf, Token.isWhitespace]

/-- A line break behind some tokens that a separating character follows adds no token but white
space. -/
theorem exists_break_back (h : Cuts text tokens rest) (separated : Separated rest) {after : Text}
    (ends : after.head?.all (!isBlank ·) = true) :
    ∃ tokens', Cuts (textOf tokens ++ '\n' :: after) tokens' after ∧
      inkOf tokens' = inkOf tokens := by
  have feed : Separated ('\n' :: after) := separated_cons.2 (by decide)
  by_cases last : ∃ token, tokens.getLast? = some token ∧ token.kind = .whitespace
  · obtain ⟨blank, last, kind⟩ := last
    obtain ⟨front, rfl⟩ : ∃ front, tokens = front ++ [blank] :=
      ⟨_, (List.dropLast_append_getLast? blank last).symm⟩
    obtain ⟨mid, cuts, cut⟩ := h.split
    cases cut with
    | cons head tail =>
        cases tail with
        | nil =>
            obtain ⟨blanks, _⟩ := head.blank_of_whitespace kind
            obtain ⟨c, others, spelling⟩ := List.exists_cons_of_ne_nil head.text_ne_nil
            have same := head.text_eq
            refine ⟨front ++ [⟨.whitespace, blank.text ++ ['\n']⟩], ?_, ?_⟩
            · have longer : Cut (blank.text ++ '\n' :: after)
                  ⟨.whitespace, blank.text ++ ['\n']⟩ after := by
                have cut := @cut_whitespace (blank.text ++ ['\n']) after (by simp) (by
                  intro d mem
                  rcases List.mem_append.1 mem with mem | mem
                  · exact blanks d mem
                  · rw [List.mem_singleton.1 mem]
                    decide) ends
                rwa [List.append_assoc, List.singleton_append] at cut
              have start : separates c = true :=
                separates_of_isBlank (blanks c (by rw [spelling]; exact List.mem_cons_self))
              have moved := @swap_of_head _ _ (blank.text ++ '\n' :: after) _ cuts (by
                rw [same, spelling]
                exact .of_separated (separated_cons.2 start) (separated_cons.2 start)) (by
                rw [same, spelling]
                rfl)
              have whole : textOf (front ++ [blank]) ++ '\n' :: after =
                  textOf front ++ (blank.text ++ '\n' :: after) := by
                simp [textOf]
              rw [whole]
              exact moved.append (.cons longer .nil)
            · simp [inkOf, Token.isWhitespace, kind]
  · refine ⟨tokens ++ [⟨.whitespace, ['\n']⟩], ?_, ?_⟩
    · have moved := @swap _ _ ('\n' :: after) _ h (.of_separated separated feed)
        fun token mem => ⟨fun _ => rfl, fun kind => absurd ⟨token, mem, kind⟩ last⟩
      refine moved.append (.cons ?_ .nil)
      exact @cut_whitespace ['\n'] after (List.cons_ne_nil _ _) isBlank_of_mem_feed ends
    · rw [inkOf_append]
      simp [inkOf, Token.isWhitespace]

end Cuts

end JavaUnit
