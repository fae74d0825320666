/-
Module: JavaUnit.Proofs.Lines
Purpose: Splitting a text at a mark, by equations: splitting is additive over the mark, a text
  without the mark is one part, and the parts hold no mark.
Main exports: Text.split_append, Text.split_of_notMem, simpleName_eq_iff
-/
import JavaUnit.Name

namespace JavaUnit

namespace Text

/-! ### Splitting -/

@[simp] theorem split_nil (mark : Char) : split mark [] = [[]] := rfl

@[simp] theorem split_mark (mark : Char) (text : Text) :
    split mark (mark :: text) = [] :: split mark text := by
  rw [split, if_pos rfl]

/-- A mark separates the parts in front of it from those behind it. -/
theorem split_append (mark : Char) (left right : Text) :
    split mark (left ++ mark :: right) = split mark left ++ split mark right := by
  induction left with
  | nil => simp
  | cons c rest ih =>
      rw [List.cons_append, split, split, ih]
      by_cases marked : c = mark
      · simp [marked]
      · obtain ⟨first, others, parts⟩ := List.exists_cons_of_ne_nil (split_ne_nil mark rest)
        simp [marked, parts]

/-- A text without the mark is its only part. -/
theorem split_of_notMem {mark : Char} {text : Text} (h : mark ∉ text) :
    split mark text = [text] := by
  induction text with
  | nil => rfl
  | cons c rest ih =>
      rw [List.mem_cons, not_or] at h
      rw [split, if_neg (Ne.symm h.1), ih h.2]

/-- No part holds the mark. -/
theorem notMem_of_mem_split {mark : Char} {text part : Text} (h : part ∈ split mark text) :
    mark ∉ part := by
  induction text generalizing part with
  | nil =>
      rw [split_nil, List.mem_singleton] at h
      simp [h]
  | cons c rest ih =>
      obtain ⟨first, others, parts⟩ := List.exists_cons_of_ne_nil (split_ne_nil mark rest)
      rw [parts] at ih
      by_cases marked : c = mark
      · rw [marked, split_mark, parts, List.mem_cons] at h
        rcases h with rfl | h
        · simp
        · exact ih h
      · simp only [split, if_neg marked, parts, List.mem_cons] at h
        rcases h with rfl | h
        · rw [List.mem_cons, not_or]
          exact ⟨Ne.symm marked, ih List.mem_cons_self⟩
        · exact ih (List.mem_cons_of_mem _ h)

/-- A text that holds the mark ends in a mark and a text without one. -/
theorem exists_last_mark {mark : Char} {text : Text} (h : mark ∈ text) :
    ∃ front last, text = front ++ mark :: last ∧ mark ∉ last := by
  obtain ⟨last, front, reversed, bare⟩ := List.eq_append_cons_of_mem (List.mem_reverse.2 h)
  refine ⟨front.reverse, last.reverse, ?_, by simpa using bare⟩
  rw [← List.reverse_reverse text, reversed]
  simp

end Text

/-! ### Names -/

/-- The simple name of a qualified name is what stands behind its last dot. -/
theorem simpleName_append (container : Text) {last : Text} (h : '.' ∉ last) :
    simpleName (container ++ '.' :: last) = last := by
  rw [simpleName, Text.split_append, Text.split_of_notMem h, List.getLast?_concat]
  rfl

theorem simpleName_of_notMem {name : Text} (h : '.' ∉ name) : simpleName name = name := by
  rw [simpleName, Text.split_of_notMem h]
  rfl

/-- A name has a dotless simple name if it is that name or ends in a dot and that name. -/
theorem simpleName_eq_iff {name last : Text} (h : '.' ∉ last) :
    simpleName name = last ↔ name = last ∨ ∃ container, name = container ++ '.' :: last := by
  constructor
  · rintro rfl
    by_cases dotted : '.' ∈ name
    · obtain ⟨container, last, rfl, bare⟩ := Text.exists_last_mark dotted
      exact .inr ⟨container, by rw [simpleName_append container bare]⟩
    · exact .inl (simpleName_of_notMem dotted).symm
  · rintro (rfl | ⟨container, rfl⟩)
    · exact simpleName_of_notMem h
    · exact simpleName_append container h

end JavaUnit
