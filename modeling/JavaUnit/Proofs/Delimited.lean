/-
Module: JavaUnit.Proofs.Delimited
Purpose: The lexemes that have to be closed, by what they are made of: the rest of a literal, of a
  text block and of a comment, each up to its closing delimiter. An extent is closed if and only if
  the text begins with such a rest, whatever comes behind it.
Main exports: LiteralRest, TextBlockRest, CommentRest, literalExtent_eq_closed_iff,
  textBlockExtent_eq_closed_iff, commentExtent_eq_closed_iff
-/
import JavaUnit.Proofs.Scan

namespace JavaUnit

/-! ### Literals -/

/-- What is behind the opening quote of a literal on one line. -/
inductive LiteralRest (quote : Char) : Text → Prop where
  | close : LiteralRest quote [quote]
  | escape {c body} (stays : c ≠ '\n') (tail : LiteralRest quote body) :
      LiteralRest quote ('\\' :: c :: body)
  | char {c body} (other : c ≠ quote) (plain : c ≠ '\\') (stays : endsLine c = false)
      (tail : LiteralRest quote body) : LiteralRest quote (c :: body)

variable {quote c : Char} {text rest body : Text} {n : Nat}

theorem literalExtent_of_ne (plain : c ≠ '\\') :
    literalExtent quote (c :: rest) =
      if c = quote then .closed 1
      else if endsLine c then .unclosed 0
      else (literalExtent quote rest).after 1 := by
  rw [literalExtent.eq_4]
  · intro _ same _
    exact plain same
  · intro _ _ same _
    exact plain same

theorem LiteralRest.extent (apart : quote ≠ '\\') (h : LiteralRest quote body) (rest : Text) :
    literalExtent quote (body ++ rest) = .closed body.length := by
  induction h with
  | close => simp [literalExtent_of_ne apart]
  | escape stays _ ih =>
      rw [List.cons_append, List.cons_append, literalExtent.eq_3 _ _ _ stays, ih]
      rfl
  | char other plain stays _ ih =>
      rw [List.cons_append, literalExtent_of_ne plain, if_neg other, stays, ih]
      rfl

/-- The extent of a literal is closed by its first quote that no backslash takes along. -/
theorem literalExtent_eq_closed_iff (apart : quote ≠ '\\') :
    literalExtent quote text = .closed n ↔
      ∃ body rest, text = body ++ rest ∧ n = body.length ∧ LiteralRest quote body := by
  constructor
  · intro h
    fun_induction literalExtent quote text generalizing n with
    | case1 => cases h
    | case2 => cases h
    | case3 c tail stays ih =>
        obtain ⟨m, closed, rfl⟩ := Extent.after_eq_closed.1 h
        obtain ⟨body, rest, rfl, rfl, literal⟩ := ih closed
        exact ⟨'\\' :: c :: body, rest, rfl, rfl, .escape stays literal⟩
    | case4 rest _ =>
        obtain rfl := Extent.closed.inj h
        exact ⟨[quote], rest, rfl, rfl, .close⟩
    | case5 => cases h
    | case6 c tail _ escape other stays ih =>
        obtain ⟨m, closed, rfl⟩ := Extent.after_eq_closed.1 h
        obtain ⟨body, rest, rfl, rfl, literal⟩ := ih closed
        have plain : c ≠ '\\' := by
          intro same
          cases literal with
          | close => exact escape _ _ same rfl
          | escape => exact escape _ _ same rfl
          | char => exact escape _ _ same rfl
        exact ⟨c :: body, rest, rfl, rfl, .char other plain (by simpa using stays) literal⟩
  · rintro ⟨body, rest, rfl, rfl, literal⟩
    exact literal.extent apart rest

/-! ### Text blocks -/

/-- What is behind the opening quotes of a text block and `quotes` more in a row. -/
inductive TextBlockRest : Nat → Text → Prop where
  | close : TextBlockRest 2 ['"']
  | quote {quotes body} (few : quotes ≠ 2) (tail : TextBlockRest (quotes + 1) body) :
      TextBlockRest quotes ('"' :: body)
  | escape {quotes c body} (tail : TextBlockRest 0 body) : TextBlockRest quotes ('\\' :: c :: body)
  | char {quotes c body} (other : c ≠ '"') (plain : c ≠ '\\') (tail : TextBlockRest 0 body) :
      TextBlockRest quotes (c :: body)

theorem textBlockExtent_of_ne {quotes : Nat} (plain : c ≠ '\\') :
    textBlockExtent quotes (c :: rest) =
      if c = '"' then
        if quotes = 2 then .closed 1 else (textBlockExtent (quotes + 1) rest).after 1
      else (textBlockExtent 0 rest).after 1 := by
  rw [textBlockExtent.eq_3]
  intro _ _ same _
  exact plain same

theorem TextBlockRest.extent {quotes : Nat} (h : TextBlockRest quotes body) (rest : Text) :
    textBlockExtent quotes (body ++ rest) = .closed body.length := by
  induction h with
  | close => simp [textBlockExtent_of_ne]
  | quote few _ ih =>
      rw [List.cons_append, textBlockExtent_of_ne (by decide), if_pos rfl, if_neg few, ih]
      rfl
  | escape _ ih =>
      rw [List.cons_append, List.cons_append, textBlockExtent, ih]
      rfl
  | char other plain _ ih =>
      rw [List.cons_append, textBlockExtent_of_ne plain, if_neg other, ih]
      rfl

/-- The extent of a text block is closed by its first three quotes in a row, none of which a
backslash takes along. -/
theorem textBlockExtent_eq_closed_iff {quotes : Nat} :
    textBlockExtent quotes text = .closed n ↔
      ∃ body rest, text = body ++ rest ∧ n = body.length ∧ TextBlockRest quotes body := by
  constructor
  · intro h
    fun_induction textBlockExtent quotes text generalizing n with
    | case1 => cases h
    | case2 quotes c tail ih =>
        obtain ⟨m, closed, rfl⟩ := Extent.after_eq_closed.1 h
        obtain ⟨body, rest, rfl, rfl, block⟩ := ih closed
        exact ⟨'\\' :: c :: body, rest, rfl, rfl, .escape block⟩
    | case3 rest _ =>
        obtain rfl := Extent.closed.inj h
        exact ⟨['"'], rest, rfl, rfl, .close⟩
    | case4 quotes tail few _ ih =>
        obtain ⟨m, closed, rfl⟩ := Extent.after_eq_closed.1 h
        obtain ⟨body, rest, rfl, rfl, block⟩ := ih closed
        exact ⟨'"' :: body, rest, rfl, rfl, .quote few block⟩
    | case5 quotes c tail escape other ih =>
        obtain ⟨m, closed, rfl⟩ := Extent.after_eq_closed.1 h
        obtain ⟨body, rest, rfl, rfl, block⟩ := ih closed
        have plain : c ≠ '\\' := by
          intro same
          cases block with
          | quote => exact escape _ _ same rfl
          | escape => exact escape _ _ same rfl
          | char => exact escape _ _ same rfl
        exact ⟨c :: body, rest, rfl, rfl, .char other plain block⟩
  · rintro ⟨body, rest, rfl, rfl, block⟩
    exact block.extent rest

/-! ### Comments -/

/-- What is behind the opening slash and star of a comment, after a character `previous` of it. -/
inductive CommentRest : Char → Text → Prop where
  | close : CommentRest '*' ['/']
  | char {previous c body} (goesOn : ¬ (previous = '*' ∧ c = '/')) (tail : CommentRest c body) :
      CommentRest previous (c :: body)

theorem CommentRest.extent {previous : Char} (h : CommentRest previous body) (rest : Text) :
    commentExtent previous (body ++ rest) = .closed body.length := by
  induction h with
  | close => simp [commentExtent]
  | char goesOn _ ih =>
      rw [List.cons_append, commentExtent, if_neg goesOn, ih]
      rfl

/-- The extent of a comment is closed by its first star with a slash behind it. -/
theorem commentExtent_eq_closed_iff {previous : Char} :
    commentExtent previous text = .closed n ↔
      ∃ body rest, text = body ++ rest ∧ n = body.length ∧ CommentRest previous body := by
  constructor
  · intro h
    induction text generalizing previous n with
    | nil => cases h
    | cons c tail ih =>
        rw [commentExtent] at h
        split at h
        · next ends =>
            obtain ⟨rfl, rfl⟩ := ends
            obtain rfl := Extent.closed.inj h
            exact ⟨['/'], tail, rfl, rfl, .close⟩
        · next goesOn =>
            obtain ⟨m, closed, rfl⟩ := Extent.after_eq_closed.1 h
            obtain ⟨body, rest, rfl, rfl, comment⟩ := ih closed
            exact ⟨c :: body, rest, rfl, rfl, .char goesOn comment⟩
  · rintro ⟨body, rest, rfl, rfl, comment⟩
    exact comment.extent rest

/-- A comment has at least its closing delimiter behind its opening one. -/
theorem CommentRest.two_le {previous : Char} (h : CommentRest previous body)
    (opening : previous ≠ '*') : 2 ≤ body.length := by
  cases h with
  | close => exact absurd rfl opening
  | char _ tail =>
      cases tail with
      | close => simp
      | char => simp

end JavaUnit
