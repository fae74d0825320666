/-
Module: JavaUnit.Proofs.Indent
Purpose: Indentation of a text with several lines, as a change behind its line breaks: it is
  additive, it goes through the parts of a text one by one, and it changes the layout of the text
  only.
Main exports: Text.shift, Text.shift_append, Text.shift_shift, Text.indent_eq
-/
import JavaUnit.Proofs.Blocks

namespace JavaUnit

namespace Text

/-- A text with blanks in front of each of its lines but the first one, unless the line is
empty. -/
def shift (count : Nat) : Text → Text
  | [] => []
  | c :: rest =>
    if c = '\n' ∧ rest.head?.any (· ≠ '\n') then
      c :: (List.replicate count ' ' ++ shift count rest)
    else c :: shift count rest

variable {count : Nat} {left right text : Text} {c : Char}

theorem shift_cons_of_ne (other : c ≠ '\n') : shift count (c :: text) = c :: shift count text := by
  rw [shift, if_neg fun both => other both.1]

theorem shift_break (other : c ≠ '\n') :
    shift count ('\n' :: c :: text) =
      '\n' :: (List.replicate count ' ' ++ c :: shift count text) := by
  rw [shift, if_pos ⟨rfl, by simp [other]⟩, shift_cons_of_ne other]

theorem shift_break_break :
    shift count ('\n' :: '\n' :: text) = '\n' :: shift count ('\n' :: text) := by
  rw [shift, if_neg (by simp)]

/-- Indentation does not touch the first character. -/
theorem head?_shift (count : Nat) (text : Text) : (shift count text).head? = text.head? := by
  cases text with
  | nil => rfl
  | cons c rest =>
      rw [shift]
      split <;> rfl

/-- A text on one line stays. -/
theorem shift_of_notMem (line : '\n' ∉ text) : shift count text = text := by
  induction text with
  | nil => rfl
  | cons c rest ih =>
      rw [List.mem_cons, not_or] at line
      rw [shift_cons_of_ne (Ne.symm line.1), ih line.2]

/-- The parts of a text are indented one by one, if the first does not end in a line break. -/
theorem shift_append (ends : left.getLast? ≠ some '\n') :
    shift count (left ++ right) = shift count left ++ shift count right := by
  induction left with
  | nil => rfl
  | cons c rest ih =>
      cases rest with
      | nil =>
          have other : c ≠ '\n' := by simpa using ends
          rw [List.singleton_append, shift_cons_of_ne other, shift_cons_of_ne other]
          rfl
      | cons d more =>
          rw [List.getLast?_cons_cons] at ends
          have later := ih ends
          by_cases feed : c = '\n'
          · subst feed
            by_cases feed' : d = '\n'
            · subst feed'
              rw [List.cons_append, List.cons_append, shift_break_break, shift_break_break,
                List.cons_append, ← later, List.cons_append]
            · rw [List.cons_append, shift_cons_of_ne feed', shift_cons_of_ne feed'] at later
              rw [List.cons_append, List.cons_append, shift_break feed', shift_break feed']
              rw [List.cons_append, List.cons.injEq] at later
              rw [later.2]
              simp
          · rw [List.cons_append, shift_cons_of_ne feed, shift_cons_of_ne feed, later]
            rfl

theorem shift_append_of_notMem (line : '\n' ∉ left) :
    shift count (left ++ right) = left ++ shift count right := by
  rw [shift_append fun last => line (List.mem_of_getLast? last), shift_of_notMem line]

/-- Indenting lines in a row. -/
theorem shift_unlines {first : Text} {others : List Text} (line : '\n' ∉ first)
    (plain : ∀ line ∈ others, '\n' ∉ line) :
    shift count (unlines (first :: others)) = unlines (first :: others.map (pad count)) := by
  induction others generalizing first with
  | nil =>
      rw [unlines_singleton, shift_of_notMem line, List.map_nil, unlines_singleton]
  | cons second others ih =>
      have later := ih (plain second List.mem_cons_self) fun line mem =>
        plain line (List.mem_cons_of_mem _ mem)
      rw [unlines_cons (List.cons_ne_nil _ _), List.map_cons,
        unlines_cons (List.cons_ne_nil _ _)]
      have behind : ∀ padded, unlines (padded :: others.map (pad count)) =
          padded ++ (if others = [] then [] else '\n' :: unlines (others.map (pad count))) := by
        intro padded
        by_cases more : others = []
        · simp [more]
        · rw [unlines_cons (by simpa using more), if_neg more]
      cases second with
      | nil =>
          rw [shift_append_of_notMem line]
          congr 1
          by_cases more : others = []
          · subst more
            rfl
          · rw [unlines_cons more, List.nil_append] at later ⊢
            rw [shift_break_break, later]
            rfl
      | cons c rest =>
          have other : c ≠ '\n' := by
            rintro rfl
            exact plain _ List.mem_cons_self List.mem_cons_self
          obtain ⟨tail, whole⟩ : ∃ tail, unlines ((c :: rest) :: others) = c :: tail := by
            by_cases more : others = []
            · exact ⟨rest, by rw [more, unlines_singleton]⟩
            · exact ⟨_, by rw [unlines_cons more]; rfl⟩
          rw [whole] at later ⊢
          rw [shift_append_of_notMem line]
          congr 1
          rw [shift_break other, ← shift_cons_of_ne other, later, behind, behind, pad,
            if_neg (List.cons_ne_nil _ _), List.append_assoc]

theorem pad_pad (first second : Nat) (line : Text) :
    pad second (pad first line) = pad (first + second) line := by
  by_cases empty : line = []
  · simp [pad, empty]
  · have some : List.replicate first ' ' ++ line ≠ [] := by simp [empty]
    rw [pad, pad, if_neg empty, if_neg some, pad, if_neg empty, ← List.append_assoc,
      List.replicate_append_replicate, Nat.add_comm]

/-- Indenting twice is indenting by the sum. -/
theorem shift_shift (first second : Nat) (text : Text) :
    shift second (shift first text) = shift (first + second) text := by
  have pointwise : pad second ∘ pad first = pad (first + second) :=
    funext (pad_pad first second)
  obtain ⟨line, others, lines⟩ := List.exists_cons_of_ne_nil (split_ne_nil '\n' text)
  have plain : ∀ part ∈ line :: others, '\n' ∉ part := fun part mem =>
    notMem_of_mem_split (lines ▸ mem)
  have others' : ∀ part ∈ others, '\n' ∉ part := fun part mem =>
    plain part (List.mem_cons_of_mem _ mem)
  rw [← unlines_split text, lines, shift_unlines (plain line List.mem_cons_self) others',
    shift_unlines (plain line List.mem_cons_self) others', shift_unlines, List.map_map, pointwise]
  · exact plain line List.mem_cons_self
  · intro part mem
    obtain ⟨part, listed, rfl⟩ := List.mem_map.1 mem
    exact notMem_pad (others' part listed)

theorem shift_zero (text : Text) : shift 0 text = text := by
  obtain ⟨line, others, lines⟩ := List.exists_cons_of_ne_nil (split_ne_nil '\n' text)
  have plain : ∀ part ∈ line :: others, '\n' ∉ part := fun part mem =>
    notMem_of_mem_split (lines ▸ mem)
  rw [← unlines_split text, lines, shift_unlines (plain line List.mem_cons_self), map_pad_zero]
  exact fun part mem => plain part (List.mem_cons_of_mem _ mem)

/-! ### Rendered texts -/

/-- A text that no line of ends in a carriage return. -/
def NoReturn (text : Text) : Prop :=
  ∀ front back, text = front ++ '\r' :: back → back.head?.any (· ≠ '\n') = true

theorem noReturn_append (h : NoReturn left) (h' : NoReturn right) : NoReturn (left ++ right) := by
  intro front back whole
  rcases List.append_eq_append_iff.1 whole with ⟨more, rfl, rest⟩ | ⟨more, rfl, rest⟩
  · exact h' more back rest
  · cases more with
    | nil => exact h' [] back (by simpa using rest.symm)
    | cons d more =>
        rw [List.cons_append, List.cons.injEq] at rest
        obtain ⟨rfl, rfl⟩ := rest
        have next := h front more rfl
        cases more with
        | nil => cases next
        | cons => exact next

theorem noReturn_of_notMem (absent : '\r' ∉ text) : NoReturn text := by
  rintro front back rfl
  simp at absent

/-- A line that does not end in white space. -/
theorem noReturn_of_line (line : '\n' ∉ text) (ends : EndsInked text) : NoReturn text := by
  rintro front back rfl
  cases back with
  | nil =>
      have inked : JavaUnit.isBlank '\r' = false := endsOff_concat.1 ends
      revert inked
      decide
  | cons d more =>
      have other : d ≠ '\n' := by
        rintro rfl
        simp at line
      simp [other]

theorem noReturn_cons (h : NoReturn text) (other : c ≠ '\r') : NoReturn (c :: text) := by
  rw [← List.singleton_append]
  exact noReturn_append (noReturn_of_notMem (by simpa using Ne.symm other)) h

theorem noReturn_unlines {lines : List Text}
    (plain : ∀ line ∈ lines, '\n' ∉ line ∧ EndsInked line) : NoReturn (unlines lines) := by
  induction lines with
  | nil => exact noReturn_of_notMem (by simp [unlines, join])
  | cons line others ih =>
      have first := plain line List.mem_cons_self
      have own := noReturn_of_line first.1 first.2
      by_cases more : others = []
      · rwa [more, unlines_singleton]
      · rw [unlines_cons more]
        refine noReturn_append own (noReturn_cons ?_ (by decide))
        exact ih fun line mem => plain line (List.mem_cons_of_mem _ mem)

/-- Every line of such a text stays when a carriage return at its end goes. -/
theorem stripReturn_of_noReturn {line : Text} (h : NoReturn text) (mem : line ∈ text.split '\n') :
    stripReturn line = line := by
  have kept : ∀ {line : Text}, line.getLast? ≠ some '\r' → stripReturn line = line := by
    intro line ends
    have none : beforeTail? ['\r'] line = none := by
      rw [beforeTail?, List.reverse_singleton]
      cases reversed : line.reverse with
      | nil => rfl
      | cons d rest =>
          have last : line.getLast? = some d := by
            rw [← List.head?_reverse, reversed]
            rfl
          rw [last] at ends
          have other : '\r' ≠ d := fun same => ends (by rw [same])
          simp [afterLead?, other]
    rw [stripReturn, none]
    rfl
  refine kept fun last => ?_
  obtain ⟨front, rfl⟩ : ∃ front, line = front ++ ['\r'] :=
    ⟨_, (List.dropLast_append_getLast? _ last).symm⟩
  obtain ⟨before, after, lines⟩ := List.append_of_mem mem
  have whole := unlines_split text
  rw [lines] at whole
  -- The line is followed by the end of the text or by a line break.
  have behind : ∃ lead rest, text = lead ++ '\r' :: rest ∧ rest.head?.any (· ≠ '\n') = false := by
    obtain ⟨lead, text'⟩ : ∃ lead, text = lead ++ unlines ((front ++ ['\r']) :: after) := by
      by_cases first : before = []
      · exact ⟨[], by rw [← whole, first]; rfl⟩
      · refine ⟨unlines before ++ ['\n'], ?_⟩
        rw [← whole]
        exact unlines_append first (List.cons_ne_nil _ _)
    by_cases last : after = []
    · refine ⟨lead ++ front, [], ?_, rfl⟩
      rw [text', last, unlines_singleton, List.append_assoc]
    · refine ⟨lead ++ front, '\n' :: unlines after, ?_, by simp⟩
      rw [text', unlines_cons last]
      simp
  obtain ⟨lead, rest, split, next⟩ := behind
  rw [h lead rest split] at next
  cases next

/-- Indentation, for a text that begins and ends with a line that is not empty. -/
theorem indent_eq {c : Char} {rest : Text} (other : c ≠ '\n')
    (ends : (c :: rest).getLast? ≠ some '\n') (h : NoReturn (c :: rest)) :
    indent (c :: rest) = tab ++ shift 4 (c :: rest) := by
  obtain ⟨first, others, parts⟩ := List.exists_cons_of_ne_nil (split_ne_nil '\n' (c :: rest))
  have plain : ∀ part ∈ first :: others, '\n' ∉ part := fun part mem =>
    notMem_of_mem_split (parts ▸ mem)
  have whole := unlines_split (c :: rest)
  rw [parts] at whole
  have some : first ≠ [] := by
    rintro rfl
    by_cases more : others = []
    · rw [more, unlines_singleton] at whole
      cases whole
    · rw [unlines_cons more, List.nil_append, List.cons.injEq] at whole
      exact other whole.1.symm
  -- The last line is not empty, so none is dropped.
  obtain ⟨front, last, ended⟩ : ∃ front last, first :: others = front ++ [last] :=
    ⟨_, _, (List.dropLast_append_getLast (List.cons_ne_nil first others)).symm⟩
  have last_ne : last ≠ [] := by
    rintro rfl
    by_cases single : front = []
    · rw [single, List.nil_append, List.cons.injEq] at ended
      exact some ended.1
    · rw [ended, unlines_append single (List.cons_ne_nil _ _), unlines_singleton] at whole
      rw [← whole] at ends
      simp at ends
  have kept : lines (c :: rest) = first :: others := by
    have same : ∀ line ∈ front, stripReturn line = id line := by
      intro line mem
      refine stripReturn_of_noReturn h ?_
      rw [parts, ended]
      exact List.mem_append_left _ mem
    show (split '\n' (c :: rest)).dropLast.map stripReturn ++ _ = _
    rw [parts, ended, List.dropLast_concat, List.getLast?_concat, List.map_congr_left same]
    simp [last_ne]
  rw [indent, kept, ← whole, shift_unlines (plain first List.mem_cons_self) fun part mem =>
    plain part (List.mem_cons_of_mem _ mem), List.map_cons, if_neg some]
  have tail : (others.map fun line => if line = [] then [] else tab ++ line) =
      others.map (pad 4) := rfl
  rw [tail]
  by_cases more : others = []
  · rw [more, List.map_nil, unlines_singleton, unlines_singleton]
  · have more' : others.map (pad 4) ≠ [] := by simpa using more
    rw [unlines_cons more', unlines_cons more', List.append_assoc]

end Text

end JavaUnit
