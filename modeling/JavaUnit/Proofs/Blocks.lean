/-
Module: JavaUnit.Proofs.Blocks
Purpose: The canonical lines of blocks. They have no white space behind them, none of them is empty
  at either end of the block, and one of them is not indented. Lines of that kind come back from
  any text that sets them between line breaks, however far it indents them; and taking the
  canonical lines of a block changes its layout at line breaks only.
Main exports: Text.Settled, Text.settled_block, Text.block_frame, Text.reflow_block
-/
import JavaUnit.Proofs.Reflow
import JavaUnit.Proofs.Trim

namespace JavaUnit

namespace Text

/-! ### Lines in a row -/

theorem unlines_cons {line : Text} {lines : List Text} (present : lines ≠ []) :
    unlines (line :: lines) = line ++ '\n' :: unlines lines := by
  obtain ⟨second, others, rfl⟩ := List.exists_cons_of_ne_nil present
  simp [unlines, join, List.intercalate_cons_cons]

@[simp] theorem unlines_singleton (line : Text) : unlines [line] = line := by
  simp [unlines, join]

@[simp] theorem join_singleton (mark part : Text) : join mark [part] = part := by
  simp [join]

theorem unlines_append {lines lines' : List Text} (present : lines ≠ []) (present' : lines' ≠ []) :
    unlines (lines ++ lines') = unlines lines ++ ['\n'] ++ unlines lines' := by
  induction lines with
  | nil => exact absurd rfl present
  | cons line others ih =>
      by_cases more : others = []
      · subst more
        rw [List.singleton_append, unlines_cons present', unlines_singleton]
        simp
      · rw [List.cons_append, unlines_cons (by simp [more]), unlines_cons more, ih more]
        simp

/-- The lines of a text are those that it is made of. -/
theorem split_unlines {lines : List Text} (present : lines ≠ [])
    (each : ∀ line ∈ lines, '\n' ∉ line) : (unlines lines).split '\n' = lines := by
  induction lines with
  | nil => exact absurd rfl present
  | cons line others ih =>
      have plain := each line List.mem_cons_self
      by_cases more : others = []
      · subst more
        rw [unlines_singleton, split_of_notMem plain]
      · rw [unlines_cons more, split_append, split_of_notMem plain,
          ih more fun line mem => each line (List.mem_cons_of_mem _ mem)]
        rfl

theorem unlines_split (text : Text) : unlines (text.split '\n') = text :=
  join_split '\n' text

/-- Each of the lines stands somewhere in the text. -/
theorem infix_of_mem_split {text line : Text} (mem : line ∈ text.split '\n') : line <:+: text := by
  suffices general : ∀ lines : List Text, line ∈ lines → line <:+: unlines lines by
    have part := general _ mem
    rwa [unlines_split] at part
  intro lines
  induction lines with
  | nil => nofun
  | cons first others ih =>
      intro mem
      by_cases last : others = []
      · rw [last, List.mem_singleton] at mem
        rw [last, unlines_singleton]
        exact mem ▸ List.infix_rfl
      · rw [unlines_cons last]
        rcases List.mem_cons.1 mem with rfl | mem
        · exact (List.prefix_append _ _).isInfix
        · exact (ih mem).trans (List.suffix_cons _ _ |>.isInfix.trans
            (List.suffix_append _ _).isInfix)

/-- Lines that are all ended by a line break. -/
theorem unlines_append_break {lines : List Text} (present : lines ≠ []) (rest : Text) :
    unlines lines ++ '\n' :: rest = lines.flatMap (· ++ ['\n']) ++ rest := by
  induction lines with
  | nil => exact absurd rfl present
  | cons line others ih =>
      by_cases more : others = []
      · subst more
        simp
      · rw [unlines_cons more, List.append_assoc, List.cons_append, ih more]
        simp

/-! ### Edges -/

theorem stripEdges_eq_strip (p : Text → Bool) (lines : List Text) :
    stripEdges p lines = strip p lines := rfl

/-- A line with some number of blanks in front of it, unless it is empty. -/
def pad (count : Nat) (line : Text) : Text :=
  if line = [] then [] else List.replicate count ' ' ++ line

theorem isBlank_replicate (count : Nat) : isBlank (List.replicate count ' ') = true := by
  rw [isBlank_iff]
  intro c mem
  rw [(List.mem_replicate.1 mem).2]
  decide

theorem notMem_pad {count : Nat} {line : Text} (h : '\n' ∉ line) : '\n' ∉ pad count line := by
  rw [pad]
  split
  · exact List.not_mem_nil
  · simp [h]

theorem endsInked_pad {count : Nat} {line : Text} (h : EndsInked line) :
    EndsInked (pad count line) := by
  rw [pad]
  split
  · exact endsOff_nil
  · next present => exact (endsOff_append present).2 h

/-! ### Indentation -/

/-- The front of a line that is indented. -/
theorem exists_indentation (line : Text) :
    ∃ front back, line = front ++ back ∧ front.isBlank = true ∧
      front.length = indentation line ∧ StartsInked back :=
  ⟨line.takeWhile JavaUnit.isBlank, line.dropWhile JavaUnit.isBlank,
    List.takeWhile_append_dropWhile.symm, List.all_takeWhile, rfl, dropWhile_startsOff _ _⟩

theorem indentation_append {front back : Text} (blank : front.isBlank = true)
    (h : StartsInked back) : indentation (front ++ back) = front.length := by
  rw [indentation, List.takeWhile_append_of_pos (isBlank_iff.1 blank)]
  cases back with
  | nil => simp
  | cons c others => rw [List.takeWhile_cons_of_neg (by simp [startsOff_cons.1 h]), List.append_nil]

theorem indentation_pad {count : Nat} {line : Text} (present : line ≠ []) :
    indentation (pad count line) = count + indentation line := by
  obtain ⟨front, back, whole, blank, length, starts⟩ := exists_indentation line
  rw [pad, if_neg present]
  conv => lhs; rw [whole]
  rw [← List.append_assoc, indentation_append _ starts, List.length_append, List.length_replicate,
    length]
  rw [isBlank_append, isBlank_replicate, blank]
  rfl

/-- The common indentation is that of some line that is not blank, and no such line has less. -/
theorem commonIndentation_spec {lines : List Text} (h : ∃ line ∈ lines, line.isBlank = false) :
    (∃ line ∈ lines, line.isBlank = false ∧ indentation line = commonIndentation lines) ∧
      ∀ line ∈ lines, line.isBlank = false → commonIndentation lines ≤ indentation line := by
  obtain ⟨line, mem, ink⟩ := h
  have listed : indentation line ∈ (lines.filter (!·.isBlank)).map indentation :=
    List.mem_map_of_mem (List.mem_filter.2 ⟨mem, by simp [ink]⟩)
  cases least : ((lines.filter (!·.isBlank)).map indentation).min? with
  | none =>
      rw [List.min?_eq_none_iff] at least
      rw [least] at listed
      cases listed
  | some count =>
      have common : commonIndentation lines = count := by rw [commonIndentation, least]; rfl
      rw [List.min?_eq_some_iff] at least
      obtain ⟨attained, bound⟩ := least
      rw [common]
      constructor
      · obtain ⟨line, mem, same⟩ := List.mem_map.1 attained
        obtain ⟨mem, ink⟩ := List.mem_filter.1 mem
        exact ⟨line, mem, by simpa using ink, same⟩
      · intro line mem ink
        exact bound _ (List.mem_map_of_mem (List.mem_filter.2 ⟨mem, by simp [ink]⟩))

theorem commonIndentation_eq {lines : List Text} {count : Nat}
    (attained : ∃ line ∈ lines, line.isBlank = false ∧ indentation line = count)
    (bound : ∀ line ∈ lines, line.isBlank = false → count ≤ indentation line) :
    commonIndentation lines = count := by
  obtain ⟨line, mem, ink, same⟩ := attained
  obtain ⟨⟨line', mem', ink', same'⟩, bound'⟩ := commonIndentation_spec ⟨line, mem, ink⟩
  exact Nat.le_antisymm (same ▸ bound' line mem ink) (same' ▸ bound line' mem' ink')

/-- Taking no more than its indentation away from a line leaves the same between its ends. -/
theorem trim_dedent {count : Nat} {line : Text}
    (bound : line.isBlank = false → count ≤ indentation line) :
    trim (dedent count line) = trim line := by
  rw [dedent]
  cases blank : line.isBlank with
  | true =>
      rw [trim_eq_nil_iff.2 blank]
      rfl
  | false =>
      rw [if_neg (by simp)]
      obtain ⟨front, back, whole, blank', length, starts⟩ := exists_indentation line
      have shorter : count ≤ front.length := length ▸ bound blank
      have drop : line.drop count = front.drop count ++ back := by
        rw [whole, List.drop_append_of_le_length shorter]
      have front' : Text.isBlank (front.drop count) = true :=
        isBlank_iff.2 fun c mem => isBlank_iff.1 blank' c (List.mem_of_mem_drop mem)
      rw [drop, whole, trim, trim, trimStart_append front' starts, trimStart_append blank' starts]

/-! ### Canonical lines -/

/-- Lines that are canonical for a block. -/
structure Settled (lines : List Text) : Prop where
  plain : ∀ line ∈ lines, '\n' ∉ line ∧ EndsInked line
  starts : StartsOff (· = []) lines
  ends : EndsOff (· = []) lines
  margin : lines = [] ∨ ∃ line ∈ lines, line ≠ [] ∧ indentation line = 0

/-- The lines that a block is cut from, before empty ones go at its ends. -/
def openLines (first : Text) (others : List Text) : List Text :=
  (if first.trim = [] then [] else [first.trim]) ++ others.map (dedent (commonIndentation others))

/-- The canonical lines of a text, by its lines. -/
theorem block_eq {raw first : Text} {others : List Text} (lines : raw.split '\n' = first :: others) :
    block raw = strip (· = []) (openLines first (others.map trimEnd)) := by
  rw [block, lines, List.map_cons]
  simp only [trim_trimEnd, openLines, stripEdges_eq_strip]

theorem dedent_ne_nil {count : Nat} {line : Text} (ink : line.isBlank = false)
    (bound : count ≤ indentation line) : dedent count line ≠ [] := by
  intro empty
  have same := @trim_dedent count line fun _ => bound
  rw [empty] at same
  rw [trim_eq_nil_iff.1 same.symm] at ink
  cases ink

theorem endsInked_dedent {count : Nat} {line : Text} (h : EndsInked line) :
    EndsInked (dedent count line) := by
  rw [dedent]
  split
  · exact endsOff_nil
  · by_cases present : line.drop count = []
    · rw [present]
      exact endsOff_nil
    · rw [← List.take_append_drop count line] at h
      exact (endsOff_append present).1 h

/-- The canonical lines of a block are canonical. -/
theorem settled_block (raw : Text) : Settled (block raw) := by
  obtain ⟨first, others, lines⟩ := List.exists_cons_of_ne_nil (split_ne_nil '\n' raw)
  have plain : ∀ line ∈ first :: others, '\n' ∉ line := fun line mem =>
    notMem_of_mem_split (lines ▸ mem)
  rw [block_eq lines]
  obtain ⟨starts, ends, _⟩ := strip_spec (· = []) (openLines first (others.map trimEnd))
  refine ⟨?_, starts, ends, ?_⟩
  · intro line mem
    replace mem := mem_of_mem_strip mem
    rw [openLines, List.mem_append] at mem
    rcases mem with mem | mem
    · split at mem
      · cases mem
      · rw [List.mem_singleton] at mem
        subst mem
        obtain ⟨_, ends, front, back, _, _, whole⟩ := trim_spec first
        refine ⟨fun broken => plain first List.mem_cons_self ?_, ends⟩
        rw [whole]
        simp [broken]
    · obtain ⟨trimmed, listed, rfl⟩ := List.mem_map.1 mem
      obtain ⟨line, source, rfl⟩ := List.mem_map.1 listed
      obtain ⟨ends, back, _, whole⟩ := trimEnd_spec line
      refine ⟨fun broken => plain line (List.mem_cons_of_mem _ source) ?_, endsInked_dedent ends⟩
      have kept : '\n' ∈ trimEnd line := by
        rw [dedent] at broken
        split at broken
        · cases broken
        · exact List.mem_of_mem_drop broken
      rw [whole]
      simp [kept]
  · by_cases opening : first.trim = []
    · by_cases ink : ∃ line ∈ others.map trimEnd, line.isBlank = false
      · obtain ⟨⟨line, mem, ink, least⟩, bound⟩ := commonIndentation_spec ink
        have present := dedent_ne_nil ink (Nat.le_of_eq least.symm)
        refine .inr ⟨_, (mem_strip_iff (by simpa using present)).2 ?_, present, ?_⟩
        · rw [openLines, List.mem_append]
          exact .inr (List.mem_map_of_mem mem)
        · obtain ⟨front, back, whole, blank, length, starts⟩ := exists_indentation line
          have drop : line.drop (commonIndentation (others.map trimEnd)) = back := by
            rw [← least, ← length]
            conv => lhs; rw [whole]
            exact List.drop_left
          rw [dedent, ink, if_neg (by simp), drop]
          exact @indentation_append [] back rfl starts
      · left
        rw [openLines, if_pos opening, List.nil_append]
        have blank : ∀ line ∈ others.map trimEnd, line.isBlank = true := by
          intro line mem
          cases ink' : line.isBlank with
          | true => rfl
          | false => exact absurd ⟨line, mem, ink'⟩ ink
        have none : ∀ line ∈ (others.map trimEnd).map
            (dedent (commonIndentation (others.map trimEnd))), decide (line = []) = true := by
          intro line mem
          obtain ⟨trimmed, listed, rfl⟩ := List.mem_map.1 mem
          rw [dedent, blank trimmed listed, if_pos rfl]
          rfl
        have whole := @strip_append _ (fun line : Text => decide (line = [])) _ [] [] none nofun
          startsOff_nil endsOff_nil
        rwa [List.append_nil, List.append_nil] at whole
    · refine .inr ⟨first.trim, (mem_strip_iff (by simpa using opening)).2 ?_, opening, ?_⟩
      · rw [openLines, if_neg opening, List.mem_append]
        exact .inl (List.mem_singleton_self _)
      · exact @indentation_append [] first.trim rfl (trim_spec first).1

/-! ### Canonical lines come back -/

theorem dedent_pad {count : Nat} {line : Text} (h : EndsInked line) :
    dedent count (pad count line) = line := by
  by_cases present : line = []
  · rw [pad, if_pos present, present]
    rfl
  · have ink : (pad count line).isBlank = false := by
      rw [pad, if_neg present, isBlank_append, isBlank_eq_false_of_endsInked h present,
        Bool.and_false]
    rw [dedent, ink, if_neg (by simp), pad, if_neg present]
    exact List.drop_left' (List.length_replicate)

theorem commonIndentation_pad {count : Nat} {lines empty : List Text} (settled : Settled lines)
    (present : lines ≠ []) (none : ∀ line ∈ empty, line = []) :
    commonIndentation (lines.map (pad count) ++ empty) = count := by
  apply commonIndentation_eq
  · obtain ⟨line, mem, some, margin⟩ := settled.margin.resolve_left present
    refine ⟨pad count line, List.mem_append_left _ (List.mem_map_of_mem mem), ?_, ?_⟩
    · refine isBlank_eq_false_of_endsInked (endsInked_pad (settled.plain line mem).2) ?_
      rw [pad, if_neg some]
      simp [some]
    · rw [indentation_pad some, margin]
      rfl
  · intro padded mem ink
    rcases List.mem_append.1 mem with mem | mem
    · obtain ⟨line, listed, rfl⟩ := List.mem_map.1 mem
      by_cases some : line = []
      · rw [some, pad, if_pos rfl] at ink
        cases ink
      · rw [indentation_pad some]
        exact Nat.le_add_right _ _
    · rw [none padded mem] at ink
      cases ink

/-- Canonical lines that are indented alike, behind an opening delimiter on a line of its own. -/
theorem block_of_padded {raw first : Text} {others lines : List Text} (empty : List Text)
    (count : Nat) (whole : raw.split '\n' = first :: others) (alone : first.isBlank = true)
    (same : others.map trimEnd = lines.map (pad count) ++ empty)
    (none : ∀ line ∈ empty, line = []) (settled : Settled lines) : block raw = lines := by
  rw [block_eq whole, openLines, if_pos (trim_eq_nil_iff.2 alone), List.nil_append, same]
  have dedented : ∀ count, ∀ line ∈ empty.map (dedent count), decide (line = []) = true := by
    intro count line mem
    obtain ⟨padded, listed, rfl⟩ := List.mem_map.1 mem
    rw [none padded listed]
    rfl
  by_cases present : lines = []
  · rw [present, List.map_nil, List.nil_append]
    refine Eq.trans ?_ (@strip_append _ (fun line : Text => decide (line = [])) _ [] []
      (dedented (commonIndentation empty)) nofun startsOff_nil endsOff_nil)
    rw [List.append_nil, List.append_nil]
  · rw [commonIndentation_pad settled present none, List.map_append, List.map_map]
    have each : lines.map (dedent count ∘ pad count) = lines := by
      have pointwise : ∀ line ∈ lines, (dedent count ∘ pad count) line = id line := fun line mem =>
        dedent_pad (settled.plain line mem).2
      rw [List.map_congr_left pointwise, List.map_id]
    rw [each]
    exact @strip_append _ (fun line : Text => decide (line = [])) [] lines _ nofun (dedented _)
      settled.starts settled.ends

theorem map_trimEnd_pad {count : Nat} {lines : List Text}
    (plain : ∀ line ∈ lines, '\n' ∉ line ∧ EndsInked line) :
    (lines.map (pad count)).map trimEnd = lines.map (pad count) := by
  rw [List.map_map]
  refine List.map_congr_left fun line mem => ?_
  exact trimEnd_eq_self_iff.2 (endsInked_pad (plain line mem).2)

/-- The text between the braces of a block whose lines are indented by `count` characters and whose
closing brace has `last` in front of it. -/
def frame (count : Nat) (last : Text) (lines : List Text) : Text :=
  unlines ([] :: (lines.map (pad count) ++ [last]))

/-- Canonical lines come back from between the braces. -/
theorem block_frame {lines : List Text} (settled : Settled lines) (count : Nat) {last : Text}
    (blank : last.isBlank = true) (plain : '\n' ∉ last) : block (frame count last lines) = lines := by
  have whole : (frame count last lines).split '\n' = [] :: (lines.map (pad count) ++ [last]) := by
    refine split_unlines (List.cons_ne_nil _ _) fun line mem => ?_
    rcases List.mem_cons.1 mem with rfl | mem
    · exact List.not_mem_nil
    · rcases List.mem_append.1 mem with mem | mem
      · obtain ⟨line, listed, rfl⟩ := List.mem_map.1 mem
        exact notMem_pad (settled.plain line listed).1
      · rw [List.mem_singleton.1 mem]
        exact plain
  refine block_of_padded [[]] count whole rfl ?_ (by simp) settled
  rw [List.map_append, map_trimEnd_pad settled.plain, List.map_singleton,
    trimEnd_eq_nil_iff.2 blank]

theorem map_pad_zero (lines : List Text) : lines.map (pad 0) = lines := by
  have pointwise : ∀ line ∈ lines, pad 0 line = id line := by
    intro line _
    rw [pad]
    split
    · next empty => rw [empty]; rfl
    · rfl
  rw [List.map_congr_left pointwise, List.map_id]

/-- Canonical lines stay when they are written one by one. -/
theorem blockLines_of_settled {lines : List Text} (settled : Settled lines) :
    blockLines lines = lines := by
  by_cases present : lines = []
  · rw [present]
    rfl
  · have whole : split '\n' ('\n' :: unlines lines) = [] :: lines := by
      rw [split_mark, split_unlines present fun line mem => (settled.plain line mem).1]
    have trimmed := @map_trimEnd_pad 0 lines settled.plain
    rw [map_pad_zero] at trimmed
    refine block_of_padded [] 0 whole rfl ?_ nofun settled
    rw [trimmed, map_pad_zero, List.append_nil]

/-! ### Canonical lines as another layout -/

/-- What lines hold besides white space at their ends. -/
def contents (lines : List Text) : List Text :=
  (lines.map trim).filter (· ≠ [])

theorem contents_cons (line : Text) (lines : List Text) :
    contents (line :: lines) =
      if line.isBlank then contents lines else trim line :: contents lines := by
  rw [contents, List.map_cons, List.filter_cons]
  cases blank : line.isBlank with
  | true => simp [trim_eq_nil_iff.2 blank, contents]
  | false =>
      have some : trim line ≠ [] := fun empty => by simp [trim_eq_nil_iff.1 empty] at blank
      simp [some, contents]

theorem contents_append (left right : List Text) :
    contents (left ++ right) = contents left ++ contents right := by
  rw [contents, List.map_append, List.filter_append, contents, contents]

theorem contents_of_isBlank {lines : List Text} (blank : ∀ line ∈ lines, line.isBlank = true) :
    contents lines = [] := by
  induction lines with
  | nil => rfl
  | cons line others ih =>
      rw [contents_cons, if_pos (blank line List.mem_cons_self)]
      exact ih fun line mem => blank line (List.mem_cons_of_mem _ mem)

theorem contents_map {lines : List Text} {f : Text → Text}
    (same : ∀ line ∈ lines, trim (f line) = trim line) : contents (lines.map f) = contents lines := by
  rw [contents, List.map_map, contents]
  exact congrArg _ (List.map_congr_left same)

/-- The canonical lines of a block hold what its lines do. -/
theorem contents_block (raw : Text) : contents (block raw) = contents (raw.split '\n') := by
  obtain ⟨first, others, lines⟩ := List.exists_cons_of_ne_nil (split_ne_nil '\n' raw)
  rw [block_eq lines, lines]
  obtain ⟨_, _, front, back, none, none', whole⟩ :=
    strip_spec (· = []) (openLines first (others.map trimEnd))
  have blank : ∀ {lines : List Text}, (∀ line ∈ lines, decide (line = []) = true) →
      contents lines = [] := by
    intro lines none
    refine contents_of_isBlank fun line mem => ?_
    rw [of_decide_eq_true (none line mem)]
    rfl
  have stripped := congrArg contents whole
  rw [contents_append, contents_append, blank none, blank none', List.nil_append,
    List.append_nil] at stripped
  have opening : contents (if first.trim = [] then [] else [first.trim]) = contents [first] := by
    split
    · next empty =>
        rw [contents_cons, if_pos (trim_eq_nil_iff.1 empty)]
    · have same := @contents_map [first] trim fun line _ => trim_trim line
      simpa using same
  have dedented : contents ((others.map trimEnd).map
      (dedent (commonIndentation (others.map trimEnd)))) = contents others := by
    rw [contents_map, contents_map fun line _ => trim_trimEnd line]
    intro line mem
    refine trim_dedent fun ink => ?_
    exact (commonIndentation_spec ⟨line, mem, ink⟩).2 line mem ink
  rw [← stripped, openLines, contents_append, opening, dedented, ← contents_append]
  rfl

/-- White space at the end of a line, and its line break. -/
theorem break_line {blank : Text} (h : blank.isBlank = true) : Break (blank ++ ['\n']) := by
  constructor
  · intro c mem
    rcases List.mem_append.1 mem with mem | mem
    · exact isBlank_iff.1 h c mem
    · rw [List.mem_singleton.1 mem]
      decide
  · simp

/-- White space may follow a break. -/
theorem break_append {u blank : Text} (brk : Break u) (h : blank.isBlank = true) :
    Break (u ++ blank) := by
  constructor
  · intro c mem
    rcases List.mem_append.1 mem with mem | mem
    · exact brk.blank c mem
    · exact isBlank_iff.1 h c mem
  · exact List.mem_append_left _ brk.line

/-- Lines that hold the same differ in their layout only, white space in front of what follows
them included. -/
theorem reflow_of_contents {left right : Text} (tail : Reflow left right) {lines lines' : List Text}
    (same : contents lines = contents lines') {u v trail : Text} (old : Break u) (new : Break v)
    (blank : trail.isBlank = true) :
    Reflow (u ++ lines.flatMap (· ++ ['\n']) ++ left)
      (v ++ lines'.flatMap (· ++ ['\n']) ++ (trail ++ right)) := by
  -- A blank line goes into the white space in front of it.
  have grows : ∀ {u line : Text}, Break u → line.isBlank = true → Break (u ++ line ++ ['\n']) :=
    fun brk blank => break_append (break_append brk blank) (by decide)
  induction lines generalizing lines' u v with
  | nil =>
      induction lines' generalizing v with
      | nil => simpa using Reflow.gap old (break_append new blank) tail
      | cons line' others' ih =>
          rw [contents_cons] at same
          split at same
          · next none =>
              have moved := ih same (grows new none)
              simpa using moved
          · cases same
  | cons line others ih =>
      by_cases none : line.isBlank = true
      · rw [contents_cons, if_pos none] at same
        have moved := ih same (grows old none) new
        simpa using moved
      · induction lines' generalizing v with
        | nil =>
            rw [contents_cons, if_neg none] at same
            cases same
        | cons line' others' ih' =>
            by_cases none' : line'.isBlank = true
            · rw [contents_cons line', if_pos none'] at same
              have moved := ih' same (grows new none')
              simpa using moved
            · rw [contents_cons, if_neg none, contents_cons, if_neg none',
                List.cons.injEq] at same
              obtain ⟨_, _, front, back, empty, empty₂, whole⟩ := trim_spec line
              obtain ⟨_, _, front', back', empty', empty₂', whole'⟩ := trim_spec line'
              have behind := ih same.2 (break_line empty₂) (break_line empty₂')
              have step := Reflow.gap (break_append old empty) (break_append new empty')
                (behind.append (trim line))
              rw [List.flatMap_cons, List.flatMap_cons, whole]
              conv =>
                arg 2
                rw [whole', ← same.1]
              simpa using step

/-- Taking the canonical lines of a block changes its layout only. -/
theorem reflow_block (raw : Text) {left right : Text} (tail : Reflow left right) :
    Reflow ('\n' :: (raw ++ '\n' :: left)) ('\n' :: (unlines (block raw) ++ '\n' :: right)) := by
  have whole : raw ++ '\n' :: left = (raw.split '\n').flatMap (· ++ ['\n']) ++ left := by
    rw [← unlines_append_break (split_ne_nil '\n' raw), unlines_split]
  rw [whole]
  by_cases present : block raw = []
  · have more : Break ['\n', '\n'] := break_append break_feed rfl
    have lines :=
      @reflow_of_contents _ _ tail _ _ (contents_block raw).symm _ _ [] break_feed more rfl
    rw [present] at lines ⊢
    simpa [unlines, join] using lines
  · have lines :=
      @reflow_of_contents _ _ tail _ _ (contents_block raw).symm _ _ [] break_feed break_feed rfl
    rw [unlines_append_break present]
    simpa using lines

end Text

end JavaUnit
