/-
Module: JavaUnit.Proofs.Lossless
Purpose: Cutting a text into tokens loses nothing and reads nothing twice. The places of the tokens
  of a stream lie end to end from the first byte of its source to the last, on boundaries of
  characters, and what stands between the two ends of a place is the text of its token. No scan
  counts past the end of the text: at each place it counts the characters of the token there.
Main exports: Text.slice?, Text.slice?_eq_some_iff, Lexed.exists_scan, Tiling, tiling_places
-/
import JavaUnit.Proofs.Scan

namespace JavaUnit

/-! ### Slices of a text by bytes -/

namespace Text

/-- The text before a byte offset and the text behind it; none inside a character and none past
the end. -/
def splitAtByte? : Nat → Text → Option (Text × Text)
  | 0, text => some ([], text)
  | _ + 1, [] => none
  | n + 1, c :: rest =>
    if c.utf8Size ≤ n + 1 then
      (splitAtByte? (n + 1 - c.utf8Size) rest).map fun parts => (c :: parts.1, parts.2)
    else none

/-- Whether a byte offset lies between two characters of a text or at one of its ends. -/
def IsBoundary (text : Text) (offset : Nat) : Prop :=
  (splitAtByte? offset text).isSome

/-- The text between two byte offsets; none unless both are boundaries, in that order. -/
def slice? (text : Text) (start stop : Nat) : Option Text := do
  let (_, behind) ← splitAtByte? start text
  if start ≤ stop then
    let (inside, _) ← splitAtByte? (stop - start) behind
    return inside
  else none

theorem splitAtByte?_append (left right : Text) :
    splitAtByte? left.bytes (left ++ right) = some (left, right) := by
  induction left with
  | nil =>
      cases right <;> rfl
  | cons c rest ih =>
      have size : 0 < c.utf8Size := c.utf8Size_pos
      obtain ⟨n, hn⟩ : ∃ n, c.utf8Size + bytes rest = n + 1 :=
        ⟨c.utf8Size + bytes rest - 1, by omega⟩
      have remaining : n + 1 - c.utf8Size = bytes rest := by omega
      rw [bytes_cons, hn, List.cons_append, splitAtByte?, if_pos (by omega), remaining, ih]
      rfl

/-- The end of a prefix is a boundary. -/
theorem isBoundary_bytes_append (left right : Text) : IsBoundary (left ++ right) left.bytes := by
  simp [IsBoundary, splitAtByte?_append]

theorem slice?_append (left inside right : Text) :
    slice? (left ++ inside ++ right) left.bytes (left.bytes + inside.bytes) = some inside := by
  simp [slice?, List.append_assoc, splitAtByte?_append]

theorem eq_append_of_splitAtByte? {offset : Nat} {text left right : Text}
    (h : splitAtByte? offset text = some (left, right)) :
    text = left ++ right ∧ offset = left.bytes := by
  fun_induction splitAtByte? offset text generalizing left with
  | case1 text =>
      obtain ⟨rfl, rfl⟩ := Prod.mk.inj (Option.some.inj h)
      exact ⟨rfl, rfl⟩
  | case2 => cases h
  | case3 n c rest fits ih =>
      obtain ⟨⟨front, behind⟩, found, same⟩ := Option.map_eq_some_iff.1 h
      obtain ⟨rfl, rfl⟩ := Prod.mk.inj same
      obtain ⟨rfl, size⟩ := ih found
      refine ⟨rfl, ?_⟩
      rw [bytes_cons, ← size]
      omega
  | case4 => cases h

/-- The text between two byte offsets is what stands there. -/
theorem slice?_eq_some_iff {text inside : Text} {start stop : Nat} :
    slice? text start stop = some inside ↔
      ∃ left right, text = left ++ inside ++ right ∧ start = left.bytes ∧
        stop = start + inside.bytes := by
  constructor
  · intro h
    obtain ⟨⟨left, behind⟩, front, h⟩ := Option.bind_eq_some_iff.1 h
    dsimp only at h
    split at h
    case isFalse => cases h
    case isTrue ordered =>
      obtain ⟨⟨own, right⟩, found, same⟩ := Option.bind_eq_some_iff.1 h
      obtain rfl : own = inside := Option.some.inj same
      obtain ⟨rfl, starts⟩ := eq_append_of_splitAtByte? front
      obtain ⟨rfl, size⟩ := eq_append_of_splitAtByte? found
      exact ⟨left, right, (List.append_assoc ..).symm, starts, by omega⟩
  · rintro ⟨left, right, rfl, rfl, rfl⟩
    exact slice?_append left inside right

end Text

/-! ### Places -/

/-- The places of tokens with a text in front of them: each begins where the texts before it
end. -/
theorem mem_placesFrom {start : Nat} {tokens : List Token} {place : Token × Nat × Nat}
    (h : place ∈ placesFrom start tokens) :
    ∃ before after, tokens = before ++ place.1 :: after ∧
      place.2.1 = start + (textOf before).bytes ∧
      place.2.2 = place.2.1 + place.1.text.bytes := by
  induction tokens generalizing start with
  | nil => simp [placesFrom] at h
  | cons token rest ih =>
      rw [placesFrom, List.mem_cons] at h
      rcases h with rfl | h
      · exact ⟨[], rest, by simp [textOf]⟩
      · obtain ⟨before, after, rfl, first, second⟩ := ih h
        refine ⟨token :: before, after, rfl, ?_, second⟩
        rw [first, textOf, textOf, List.flatMap_cons, Text.bytes_append]
        omega

/-- Neighbouring places touch. -/
theorem placesFrom_touch {start : Nat} {tokens : List Token} {i : Nat}
    {left right : Token × Nat × Nat} (hl : (placesFrom start tokens)[i]? = some left)
    (hr : (placesFrom start tokens)[i + 1]? = some right) : left.2.2 = right.2.1 := by
  induction tokens generalizing start i with
  | nil => simp [placesFrom] at hl
  | cons token rest ih =>
      rw [placesFrom] at hl hr
      cases i with
      | succ i => exact ih (by simpa using hl) (by simpa using hr)
      | zero =>
          cases rest with
          | nil => simp [placesFrom] at hr
          | cons next others =>
              simp only [placesFrom, List.getElem?_cons_zero, List.getElem?_cons_succ,
                Option.some.injEq] at hl hr
              rw [← hl, ← hr]

/-- The last place ends where all texts end. -/
theorem getLast?_placesFrom_append (start : Nat) (tokens : List Token) (token : Token) :
    (placesFrom start (tokens ++ [token])).getLast? =
      some (token, start + (textOf tokens).bytes,
        start + (textOf tokens).bytes + token.text.bytes) := by
  induction tokens generalizing start with
  | nil => simp [placesFrom, textOf]
  | cons first rest ih =>
      rw [List.cons_append, placesFrom, List.getLast?_cons, ih]
      simp [textOf, Nat.add_assoc]

/-! ### Scans at places -/

/-- At each token but the last the text is scanned as that token, and the scan counts the characters
that the token has behind its first one. A scan that counted past the end of the text would count
more than those. -/
theorem Lexed.exists_scan {source : Text} {tokens before after : List Token} {token : Token}
    (h : Lexed source tokens) (split : tokens = before ++ token :: after)
    (inside : token.kind ≠ .eof) :
    ∃ first rest more, source = textOf before ++ first :: rest ∧
      scan first rest = .token token.kind more ∧ token.text.length = more + 1 := by
  induction h generalizing before with
  | nil =>
      rw [List.singleton_eq_append_iff] at split
      rcases split with ⟨-, last⟩ | ⟨-, none⟩
      · obtain ⟨rfl, -⟩ := List.cons.inj last
        exact absurd rfl inside
      · cases none
  | @cons first rest kind more later head tail ih =>
      cases before with
      | nil =>
          obtain ⟨rfl, -⟩ := List.cons.inj split
          refine ⟨first, rest, more, rfl, scan_eq_token_iff.2 head, ?_⟩
          rw [List.length_cons, List.length_take_of_le head.more_le]
      | cons own before =>
          obtain ⟨rfl, behind⟩ := List.cons.inj split
          obtain ⟨first', rest', more', whole, scanned, length⟩ := ih behind
          refine ⟨first', rest', more', ?_, scanned, length⟩
          rw [textOf, List.flatMap_cons, ← textOf, List.append_assoc, ← whole, List.cons_append,
            List.take_append_drop]

/-! ### Tilings -/

/-- Tokens with places cover a text from end to end. -/
structure Tiling (source : Text) (places : List (Token × Nat × Nat)) : Prop where
  /-- The end of the input comes last, and it is the only token that is empty. -/
  lexemes : ∃ lexemes, places.map (·.1) = lexemes ++ [Token.endOfInput] ∧
    ∀ token ∈ lexemes, token.kind ≠ .eof ∧ token.text ≠ []
  /-- The end of the input lies at the end of the text. -/
  last : places.getLast? = some (Token.endOfInput, source.bytes, source.bytes)
  first : places.head?.map (·.2.1) = some 0
  touch : ∀ (i : Nat) left right, places[i]? = some left → places[i + 1]? = some right →
    left.2.2 = right.2.1
  boundary : ∀ place ∈ places, source.IsBoundary place.2.1 ∧ source.IsBoundary place.2.2
  slice : ∀ place ∈ places, source.slice? place.2.1 place.2.2 = some place.1.text
  /-- The scan at a place counts the characters of the token there. -/
  scanned : ∀ place ∈ places, place.1.kind ≠ .eof →
    ∃ (before : Text) (first : Char) (rest : Text) (more : Nat),
      source = before ++ first :: rest ∧ place.2.1 = before.bytes ∧
        scan first rest = .token place.1.kind more ∧ place.1.text.length = more + 1
  text : (places.map (·.1)).flatMap Token.text = source

/-- The tokens of a stream cover its source from end to end. -/
theorem tiling_places {name source : Text} {stream : TokenStream}
    (h : TokenStream.ofSource name source = .ok stream) : Tiling source stream.places := by
  obtain ⟨tokens, lexed, rfl⟩ := map_eq_ok_iff.1 h
  have whole : textOf tokens = source := textOf_of_lex lexed
  have map : (placesFrom 0 tokens).map (·.1) = tokens := map_fst_placesFrom 0 tokens
  obtain ⟨lexemes, ends, nonempty⟩ := (lex_eq_ok_iff.1 lexed).exists_lexemes
  -- Every place has the texts of some tokens in front of it and those of others behind it.
  have around : ∀ place ∈ placesFrom 0 tokens, ∃ before after,
      source = before ++ place.1.text ++ after ∧ place.2.1 = before.bytes ∧
        place.2.2 = before.bytes + place.1.text.bytes := by
    intro place member
    obtain ⟨before, after, split, start, stop⟩ := mem_placesFrom member
    refine ⟨textOf before, textOf after, ?_, by simpa using start, by simpa [start] using stop⟩
    rw [← whole, split]
    simp [textOf]
  constructor
  case lexemes => exact ⟨lexemes, by rw [TokenStream.places, map, ends], nonempty⟩
  case last =>
    have inside : textOf lexemes = source := by
      rw [← whole, ends]
      simp [textOf, Token.endOfInput]
    rw [TokenStream.places, ends, getLast?_placesFrom_append, inside]
    simp [Token.endOfInput]
  case first =>
    cases tokens with
    | nil => simp at ends
    | cons token rest => rfl
  case touch => exact fun i left right => placesFrom_touch
  case boundary =>
    intro place member
    obtain ⟨before, after, split, start, stop⟩ := around place member
    rw [split, start, stop, ← Text.bytes_append]
    refine ⟨?_, Text.isBoundary_bytes_append _ _⟩
    rw [List.append_assoc]
    exact Text.isBoundary_bytes_append _ _
  case slice =>
    intro place member
    obtain ⟨before, after, split, start, stop⟩ := around place member
    rw [split, start, stop]
    exact Text.slice?_append _ _ _
  case scanned =>
    intro place member inside
    obtain ⟨before, after, split, start, -⟩ := mem_placesFrom member
    obtain ⟨first, rest, more, own, scanned, length⟩ :=
      (lex_eq_ok_iff.1 lexed).exists_scan split inside
    exact ⟨textOf before, first, rest, more, own, by simpa using start, scanned, length⟩
  case text => rw [TokenStream.places, map, ← textOf, whole]

/-- A character of several bytes, a text block, and a number in front of two dots. -/
theorem tiling_places_mixed :
    TokenStream.ofSource [] "é=\"\"\"\n\"\"\" 1..".toList =
        .ok ⟨[], "é=\"\"\"\n\"\"\" 1..".toList,
          [⟨.identifier, "é".toList⟩, ⟨.equals, ['=']⟩, ⟨.string, "\"\"\"\n\"\"\"".toList⟩,
            ⟨.whitespace, [' ']⟩, ⟨.number, ['1']⟩, ⟨.dot, ['.']⟩, ⟨.dot, ['.']⟩,
            Token.endOfInput]⟩ ∧
      Tiling "é=\"\"\"\n\"\"\" 1..".toList
        [(⟨.identifier, "é".toList⟩, 0, 2), (⟨.equals, ['=']⟩, 2, 3),
          (⟨.string, "\"\"\"\n\"\"\"".toList⟩, 3, 10), (⟨.whitespace, [' ']⟩, 10, 11),
          (⟨.number, ['1']⟩, 11, 12), (⟨.dot, ['.']⟩, 12, 13), (⟨.dot, ['.']⟩, 13, 14),
          (Token.endOfInput, 14, 14)] := by
  have lexed : lex "é=\"\"\"\n\"\"\" 1..".toList =
      .ok [⟨.identifier, "é".toList⟩, ⟨.equals, ['=']⟩, ⟨.string, "\"\"\"\n\"\"\"".toList⟩,
        ⟨.whitespace, [' ']⟩, ⟨.number, ['1']⟩, ⟨.dot, ['.']⟩, ⟨.dot, ['.']⟩,
        Token.endOfInput] :=
    eq_ok_of_toOption (by decide +kernel)
  have cut := congrArg (Except.map (TokenStream.mk [] "é=\"\"\"\n\"\"\" 1..".toList)) lexed
  exact ⟨cut, tiling_places cut⟩

end JavaUnit
