/-
Module: JavaUnit.Proofs.Suffixes
Purpose: Reading from a token on is reading the text from that token on. A token is cut off without
  looking back, and reading sees the tokens that are left and nothing else; only where the two texts
  begin shows, in indexes and offsets.
Main exports: TokenStream.Continues, TokenStream.exists_continues, Agrees, parseAt_suffix
-/
import JavaUnit.Proofs.Anchors
import JavaUnit.Proofs.Cut
import JavaUnit.Proofs.Lossless

namespace JavaUnit

/-! ### Places -/

/-- A place with a text put in front of its own. -/
def shiftPlace (offset : Nat) (place : Token × Nat × Nat) : Token × Nat × Nat :=
  (place.1, offset + place.2.1, offset + place.2.2)

theorem placesFrom_add (offset start : Nat) (tokens : List Token) :
    placesFrom (offset + start) tokens = (placesFrom start tokens).map (shiftPlace offset) := by
  induction tokens generalizing start with
  | nil => rfl
  | cons token rest ih =>
      rw [placesFrom, placesFrom, List.map_cons, ← ih, shiftPlace, Nat.add_assoc]

/-- Behind some tokens places begin where the texts of those tokens end. -/
theorem placesFrom_append (start : Nat) (front behind : List Token) :
    placesFrom start (front ++ behind) =
      placesFrom start front ++ placesFrom (start + (textOf front).bytes) behind := by
  induction front generalizing start with
  | nil => rfl
  | cons token rest ih =>
      rw [List.cons_append, placesFrom, placesFrom, ih, textOf, textOf, List.flatMap_cons,
        Text.bytes_append, Nat.add_assoc, List.cons_append]

theorem length_placesFrom (start : Nat) (tokens : List Token) :
    (placesFrom start tokens).length = tokens.length := by
  rw [← List.length_map (·.1), map_fst_placesFrom]

/-! ### The text from a token on -/

namespace TokenStream

/-- The text of one stream is that of another one behind `front`, and so are its tokens. -/
structure Continues (later stream : TokenStream) (front : List Token) : Prop where
  source : stream.source = textOf front ++ later.source
  tokens : stream.tokens = front ++ later.tokens
  text : textOf later.tokens = later.source
  ends : ∃ lexemes, later.tokens = lexemes ++ [Token.endOfInput]

variable {stream later : TokenStream} {front left : List Token}

/-- From any of its tokens on, the text of a stream is cut into the tokens that are left. -/
theorem exists_continues {name source : Text} (name' : Text) {index : Nat}
    (made : TokenStream.ofSource name source = .ok stream) (inside : index < stream.tokens.length) :
    ∃ later, TokenStream.ofSource name' later.source = .ok later ∧
      later.Continues stream (stream.tokens.take index) := by
  obtain ⟨_, text, tokens⟩ := stream
  obtain ⟨rfl, rfl, lexed⟩ := ofSource_eq_ok_iff.1 made
  obtain ⟨lexemes, rfl, cuts⟩ := lexed_iff_cuts.1 (lex_eq_ok_iff.1 lexed)
  have bound : index ≤ lexemes.length := by simpa [Nat.lt_succ_iff] using inside
  obtain ⟨behind, before, after⟩ : ∃ behind, Cuts text (lexemes.take index) behind ∧
      Cuts behind (lexemes.drop index) [] := by
    rw [← List.take_append_drop index lexemes] at cuts
    exact cuts.split
  have cut : lex behind = .ok (lexemes.drop index ++ [Token.endOfInput]) :=
    lex_eq_ok_iff.2 (lexed_iff_cuts.2 ⟨_, rfl, after⟩)
  have front : (lexemes ++ [Token.endOfInput]).take index = lexemes.take index :=
    List.take_append_of_le_length bound
  refine ⟨⟨name', behind, lexemes.drop index ++ [Token.endOfInput]⟩,
    ofSource_eq_ok_iff.2 ⟨rfl, rfl, cut⟩, ?_, ?_, ?_, _, rfl⟩
  · rw [front]
    exact before.text_eq
  · rw [front, ← List.append_assoc, List.take_append_drop]
  · exact textOf_of_lex cut

namespace Continues

/-- Where reading has moved forward to there is still a token. -/
theorem ne_nil (h : later.Continues stream front) (moved : Advances later.tokens left) :
    left ≠ [] := by
  rintro rfl
  obtain ⟨passed, same, inside⟩ := moved
  obtain ⟨lexemes, ends⟩ := h.ends
  have last : Token.endOfInput.isEnd = false := inside _ (by
    rw [List.append_nil] at same
    simp [← same, ends])
  cases last

theorem bytes_le (moved : Advances later.tokens left) :
    (textOf left).bytes ≤ (textOf later.tokens).bytes := by
  obtain ⟨passed, same, -⟩ := moved
  rw [same]
  simp [textOf]

theorem offset_eq (h : later.Continues stream front) (moved : Advances later.tokens left) :
    stream.offset left = (textOf front).bytes + later.offset left := by
  have bound := bytes_le moved
  rw [h.text] at bound
  have some : left.isEmpty = false := by simpa using h.ne_nil moved
  rw [offset, offset, some, h.source, Text.bytes_append]
  simp only [Bool.false_eq_true, if_false]
  omega

theorem index_eq (h : later.Continues stream front) (moved : Advances later.tokens left) :
    stream.index left = front.length + later.index left := by
  have bound := moved.length_le
  rw [index, index, h.tokens, List.length_append]
  omega

theorem span_eq (h : later.Continues stream front) {start stop : List Token}
    (begun : Advances later.tokens start) (stopped : Advances later.tokens stop) :
    stream.span start stop =
      ⟨(textOf front).bytes + (later.span start stop).offset, (later.span start stop).length⟩ := by
  simp only [span, endOffset, h.offset_eq begun, h.offset_eq stopped, Span.mk.injEq, true_and]
  omega

/-- The first token of the rest of a text stands at its beginning. -/
theorem head_places (h : later.Continues stream front) :
    ∃ token stop, later.places.head? = some (token, 0, stop) := by
  obtain ⟨lexemes, ends⟩ := h.ends
  cases lexemes with
  | nil => simp [places, ends, placesFrom]
  | cons first others => simp [places, ends, placesFrom]

end Continues

end TokenStream

/-- Reading from a token on and reading the text from there on agree: they give equal nodes and
indexes that differ by the index of the token, or they fail in the same construct, with the same
defects, at offsets that differ by that of the token. -/
inductive Agrees (index offset : Nat) :
    Except Problem (Node × Nat) → Except Problem (Node × Nat) → Prop where
  | read {node : Node} {next : Nat} : Agrees index offset (.ok (node, index + next)) (.ok (node, next))
  | failed {construct : Construct} {defects : List Defect} {span : Span} {name name' : Text} :
      Agrees index offset (.error (.parse construct defects ⟨offset + span.offset, span.length⟩ name))
        (.error (.parse construct defects span name'))

namespace Agrees

variable {index offset : Nat} {name : Text} {result : Except Problem (Node × Nat)}

/-- What is read from the token on is read from the text. -/
theorem read_of_read {node : Node} {next : Nat}
    (h : Agrees index offset (.ok (node, index + next)) result) : result = .ok (node, next) := by
  generalize whole : (Except.ok (node, index + next) : Except Problem (Node × Nat)) = left at h
  cases h with
  | failed => cases whole
  | read =>
      obtain ⟨rfl, same⟩ := Prod.mk.inj (Except.ok.inj whole)
      rw [Nat.add_left_cancel same]

/-- What fails from the token on fails in the text. -/
theorem failed_of_failed {construct : Construct} {defects : List Defect} {start length : Nat}
    (h : Agrees index offset (.error (.parse construct defects ⟨offset + start, length⟩ name))
      result) :
    ∃ name', result = .error (.parse construct defects ⟨start, length⟩ name') := by
  generalize whole : (Except.error (.parse construct defects ⟨offset + start, length⟩ name) :
    Except Problem (Node × Nat)) = left at h
  cases h with
  | read => cases whole
  | failed =>
      obtain ⟨rfl, rfl, place, rfl⟩ := Problem.parse.inj (Except.error.inj whole)
      obtain ⟨same, rfl⟩ := Span.mk.inj place
      obtain rfl := Nat.add_left_cancel same
      exact ⟨_, rfl⟩

end Agrees

theorem TokenStream.Continues.agrees {stream later : TokenStream} {front : List Token}
    (h : later.Continues stream front) (goal : Goal) :
    Agrees front.length (textOf front).bytes (goal.entry.parseAt stream front.length)
      (goal.entry.parseAt later 0) := by
  have here : stream.startingAt front.length = later.tokens := by
    simp [TokenStream.startingAt, h.tokens]
  have there : later.startingAt 0 = later.tokens := List.drop_zero
  have moved := goal.entry.reading.advances later.tokens
  rw [Entry.parseAt, Entry.parseAt, here, there, Entry.read]
  cases run : goal.entry.reading.run later.tokens with
  | read node rest skipped journal =>
      rw [run] at moved
      dsimp only
      rw [h.index_eq moved]
      exact .read
  | failed failure journal =>
      rw [run] at moved
      have begun := (goal.anchored later.tokens (.refl _) ⟨journal, run⟩).start
      dsimp only
      rw [Problem.ofFailure, Problem.ofFailure, Failure.span, Failure.span, h.span_eq begun moved]
      exact .failed

theorem TokenStream.make_eq_ok_iff {name source : Text} {stream : TokenStream} :
    TokenStream.make name source = .ok stream ↔ TokenStream.ofSource name source = .ok stream := by
  rw [make]
  cases TokenStream.ofSource name source <;> simp [Except.mapError]

/-- Reading from a token of a stream on comes to the same as cutting the text off in front of that
token and reading it from its beginning. Its tokens are those that are left, at offsets that differ
by that of the token. -/
theorem parseAt_suffix {name source : Text} {stream : TokenStream}
    (made : TokenStream.make name source = .ok stream) {index start stop : Nat} {token : Token}
    (place : stream.get? index = some (token, start, stop)) (name' : Text) :
    ∃ front behind later, source.splitAtByte? start = some (front, behind) ∧
      TokenStream.make name' behind = .ok later ∧
      later.places.map (shiftPlace start) = stream.places.drop index ∧
      ∀ goal : Goal, Agrees index start (goal.entry.parseAt stream index)
        (goal.entry.parseAt later 0) := by
  have inside : index < stream.tokens.length := by
    rw [← length_placesFrom 0]
    exact (List.getElem?_eq_some_iff.1 place).1
  have made := TokenStream.make_eq_ok_iff.1 made
  obtain ⟨later, cut, continues⟩ := TokenStream.exists_continues name' made inside
  have length : (stream.tokens.take index).length = index := List.length_take_of_le (Nat.le_of_lt inside)
  have whole : stream.places = placesFrom 0 (stream.tokens.take index) ++
      later.places.map (shiftPlace (textOf (stream.tokens.take index)).bytes) := by
    rw [TokenStream.places, TokenStream.places, ← placesFrom_add, Nat.add_zero]
    conv => lhs; rw [continues.tokens, placesFrom_append, Nat.zero_add]
  have behind : stream.places.drop index =
      later.places.map (shiftPlace (textOf (stream.tokens.take index)).bytes) := by
    rw [whole, List.drop_left' (by rw [length_placesFrom, length])]
  obtain rfl : (textOf (stream.tokens.take index)).bytes = start := by
    have head : (stream.places.drop index).head? = some (token, start, stop) := by
      rw [List.head?_drop]
      exact place
    obtain ⟨_, _, is⟩ := continues.head_places
    simpa [behind, is, shiftPlace] using congrArg (Option.map (·.2.1)) head
  refine ⟨textOf (stream.tokens.take index), later.source, later, ?_,
    TokenStream.make_eq_ok_iff.2 cut, behind.symm, fun goal => ?_⟩
  · have same := continues.source
    rw [(TokenStream.ofSource_eq_ok_iff.1 made).2.1] at same
    rw [same]
    exact Text.splitAtByte?_append _ _
  · have agrees := continues.agrees goal
    rwa [length] at agrees

def shiftedSample : Text :=
  "package é;\n// c\n@A int x = 1;\n\x7d".toList

/-- At the annotation, token 7 and byte 17, a field is read up to token 18, and no method is. The
text from there on has the same field up to token 11, and the same failure 17 bytes earlier. -/
theorem parseAt_suffix_shiftedSample :
    ∃ stream, TokenStream.make [] shiftedSample = .ok stream ∧
      stream.get? 7 = some (⟨.atSign, ['@']⟩, 17, 18) ∧
      ∃ front behind later, shiftedSample.splitAtByte? 17 = some (front, behind) ∧
        TokenStream.make [] behind = .ok later ∧
        later.places.map (shiftPlace 17) = stream.places.drop 7 ∧
        (∀ goal : Goal, Agrees 7 17 (goal.entry.parseAt stream 7) (goal.entry.parseAt later 0)) ∧
        (∃ node, node.render = "@A\nint x = 1;".toList ∧
          Goal.field.entry.parseAt stream 7 = .ok (node, 18) ∧
          Goal.field.entry.parseAt later 0 = .ok (node, 11)) ∧
        Goal.method.entry.parseAt stream 7 =
          .error (.parse (.node .method) [.otherDeclaration .method .field] ⟨17, 14⟩ []) ∧
        ∃ name, Goal.method.entry.parseAt later 0 =
          .error (.parse (.node .method) [.otherDeclaration .method .field] ⟨0, 14⟩ name) := by
  have runs : (TokenStream.make [] shiftedSample).toOption.any (fun stream =>
      stream.get? 7 = some (⟨.atSign, ['@']⟩, 17, 18) ∧
      ((Goal.field.entry.parseAt stream 7).toOption.any fun read =>
        read.1.render = "@A\nint x = 1;".toList ∧ read.2 = 18) = true ∧
      ((Goal.method.entry.parseAt stream 7).map fun _ => ()) =
        .error (.parse (.node .method) [.otherDeclaration .method .field] ⟨17, 14⟩ [])) = true := by
    decide +kernel
  obtain ⟨stream, is, runs⟩ := (Option.any_eq_true _ _).1 runs
  obtain ⟨place, field, refused⟩ := of_decide_eq_true runs
  have failed := eq_error_of_map refused
  have made := eq_ok_of_toOption is
  obtain ⟨⟨node, next⟩, read, holds⟩ := (Option.any_eq_true _ _).1 field
  obtain ⟨rendered, rfl⟩ := of_decide_eq_true holds
  have parsed := eq_ok_of_toOption read
  obtain ⟨front, behind, later, split, cut, places, agrees⟩ := parseAt_suffix made place []
  refine ⟨stream, made, place, front, behind, later, split, cut, places, agrees,
    ⟨node, rendered, parsed, ?_⟩, failed, ?_⟩
  · have same : Agrees 7 17 (.ok (node, 7 + 11)) _ := parsed ▸ agrees .field
    exact same.read_of_read
  · have same : Agrees 7 17 (.error (.parse _ _ ⟨17 + 0, 14⟩ [])) _ := failed ▸ agrees .method
    exact same.failed_of_failed

end JavaUnit
