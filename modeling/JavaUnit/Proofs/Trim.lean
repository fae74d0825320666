/-
Module: JavaUnit.Proofs.Trim
Purpose: Trimming by what it leaves: a list without some elements at its ends, to which the whole
  adds such elements only. Texts lose white space that way, blocks their empty lines. Trimming what
  trimming leaves changes nothing.
Main exports: StartsOff, EndsOff, strip_append, Text.trimEnd_eq_self_iff, Text.trim_append
-/
import Mathlib.Data.List.Basic
import Mathlib.Data.List.Forall2
import Mathlib.Tactic.Common
import JavaUnit.Proofs.Lines
import JavaUnit.Text.Block

namespace JavaUnit

/-! ### Lists without some elements at their ends -/

section Strip

variable {α : Type} {p : α → Bool} {front list back : List α}

/-- A list that does not begin with an element that `p` holds of. -/
def StartsOff (p : α → Bool) (list : List α) : Prop :=
  ∀ x, list.head? = some x → p x = false

/-- A list that does not end in an element that `p` holds of. -/
def EndsOff (p : α → Bool) (list : List α) : Prop :=
  ∀ x, list.getLast? = some x → p x = false

theorem startsOff_nil : StartsOff p [] := nofun

theorem endsOff_nil : EndsOff p [] := nofun

theorem startsOff_cons {x : α} : StartsOff p (x :: list) ↔ p x = false := by
  simp [StartsOff]

theorem endsOff_reverse : EndsOff p list.reverse ↔ StartsOff p list := by
  rw [EndsOff, List.getLast?_reverse, StartsOff]

theorem startsOff_reverse : StartsOff p list.reverse ↔ EndsOff p list := by
  rw [StartsOff, List.head?_reverse, EndsOff]

theorem startsOff_append (present : list ≠ []) :
    StartsOff p (list ++ back) ↔ StartsOff p list := by
  obtain ⟨x, others, rfl⟩ := List.exists_cons_of_ne_nil present
  rw [List.cons_append, startsOff_cons, startsOff_cons]

theorem endsOff_append (present : list ≠ []) : EndsOff p (front ++ list) ↔ EndsOff p list := by
  rw [← startsOff_reverse, ← startsOff_reverse, List.reverse_append,
    startsOff_append (by simpa using present)]

theorem endsOff_concat {x : α} : EndsOff p (front ++ [x]) ↔ p x = false := by
  rw [endsOff_append (List.cons_ne_nil _ _)]
  simp [EndsOff]

theorem dropWhile_startsOff (p : α → Bool) (list : List α) : StartsOff p (list.dropWhile p) := by
  intro x head
  have stop := List.head?_dropWhile_not p list
  rw [head] at stop
  simpa using stop

/-- What dropping leaves. -/
theorem dropWhile_append_of_startsOff (each : ∀ x ∈ front, p x = true) (h : StartsOff p list) :
    (front ++ list).dropWhile p = list := by
  rw [List.dropWhile_append_of_pos each]
  cases list with
  | nil => rfl
  | cons x others => exact List.dropWhile_cons_of_neg (by simp [startsOff_cons.1 h])

/-- A list without the elements at its ends that `p` holds of. -/
def strip (p : α → Bool) (list : List α) : List α :=
  ((list.dropWhile p).reverse.dropWhile p).reverse

/-- Dropping from the end leaves a list that ends otherwise. -/
theorem reverse_dropWhile_spec (p : α → Bool) (list : List α) :
    EndsOff p (list.reverse.dropWhile p).reverse ∧
      ∃ back, (∀ x ∈ back, p x = true) ∧ list = (list.reverse.dropWhile p).reverse ++ back := by
  refine ⟨endsOff_reverse.2 (dropWhile_startsOff p _), (list.reverse.takeWhile p).reverse, ?_, ?_⟩
  · intro x mem
    exact List.all_eq_true.1 List.all_takeWhile x (List.mem_reverse.1 mem)
  · rw [← List.reverse_append, List.takeWhile_append_dropWhile, List.reverse_reverse]

/-- Cutting off at the end takes away just what is behind the last element that stays. -/
theorem reverse_dropWhile_append (each : ∀ x ∈ back, p x = true) (h : EndsOff p list) :
    ((list ++ back).reverse.dropWhile p).reverse = list := by
  rw [List.reverse_append, dropWhile_append_of_startsOff, List.reverse_reverse]
  · intro x mem
    exact each x (List.mem_reverse.1 mem)
  · exact startsOff_reverse.2 h

/-- Stripping leaves a list that begins and ends otherwise, and takes nothing else away. -/
theorem strip_spec (p : α → Bool) (list : List α) :
    StartsOff p (strip p list) ∧ EndsOff p (strip p list) ∧
      ∃ front back, (∀ x ∈ front, p x = true) ∧ (∀ x ∈ back, p x = true) ∧
        list = front ++ strip p list ++ back := by
  obtain ⟨ends, back, each, whole⟩ := reverse_dropWhile_spec p (list.dropWhile p)
  refine ⟨?_, ends, list.takeWhile p, back, ?_, each, ?_⟩
  · by_cases present : strip p list = []
    · rw [present]
      exact startsOff_nil
    · have starts := dropWhile_startsOff p list
      rw [whole] at starts
      exact (startsOff_append present).1 starts
  · exact List.all_eq_true.1 List.all_takeWhile
  · rw [List.append_assoc, strip, ← whole, List.takeWhile_append_dropWhile]

/-- What stripping leaves. -/
theorem strip_append (each : ∀ x ∈ front, p x = true) (each' : ∀ x ∈ back, p x = true)
    (starts : StartsOff p list) (ends : EndsOff p list) : strip p (front ++ list ++ back) = list := by
  by_cases present : list = []
  · obtain ⟨starts', _, lead, trail, _, _, whole⟩ := strip_spec p (front ++ list ++ back)
    rw [present] at whole starts' ⊢
    cases left : strip p (front ++ [] ++ back) with
    | nil => rfl
    | cons x others =>
        rw [left] at whole starts'
        have mem : x ∈ front ++ [] ++ back := by
          rw [whole]
          simp
        rw [List.append_nil, List.mem_append] at mem
        have holds : p x = true := mem.elim (each x) (each' x)
        rw [startsOff_cons.1 starts'] at holds
        cases holds
  · rw [strip, List.append_assoc, dropWhile_append_of_startsOff each ((startsOff_append present).2
      starts), reverse_dropWhile_append each' ends]

theorem strip_of_off (starts : StartsOff p list) (ends : EndsOff p list) : strip p list = list := by
  have whole := @strip_append _ p [] list [] nofun nofun starts ends
  rwa [List.append_nil] at whole

/-- Stripping keeps what `p` does not hold of. -/
theorem mem_strip_iff {x : α} (off : p x = false) : x ∈ strip p list ↔ x ∈ list := by
  obtain ⟨_, _, front, back, each, each', whole⟩ := strip_spec p list
  constructor
  · intro mem
    rw [whole]
    simp [mem]
  · intro mem
    rw [whole, List.mem_append, List.mem_append] at mem
    rcases mem with (mem | mem) | mem
    · rw [each x mem] at off
      cases off
    · exact mem
    · rw [each' x mem] at off
      cases off

/-- Nothing is put in place of what is cut off. -/
theorem mem_of_mem_strip {x : α} (mem : x ∈ strip p list) : x ∈ list := by
  obtain ⟨_, _, front, back, _, _, whole⟩ := strip_spec p list
  rw [whole]
  simp [mem]

end Strip

/-! ### Texts without white space at their ends -/

namespace Text

/-- A text that does not begin with white space. -/
abbrev StartsInked (text : Text) : Prop := StartsOff JavaUnit.isBlank text

/-- A text that does not end in white space. -/
abbrev EndsInked (text : Text) : Prop := EndsOff JavaUnit.isBlank text

theorem isBlank_iff {text : Text} :
    text.isBlank = true ↔ ∀ c ∈ text, JavaUnit.isBlank c = true := by
  rw [isBlank, List.all_eq_true]

@[simp] theorem isBlank_nil : isBlank [] = true := rfl

theorem isBlank_append {left right : Text} :
    isBlank (left ++ right) = (left.isBlank && right.isBlank) :=
  List.all_append

/-- A text that does not end in white space is not blank, unless it is empty. -/
theorem isBlank_eq_false_of_endsInked {text : Text} (h : EndsInked text) (present : text ≠ []) :
    text.isBlank = false := by
  cases blank : text.isBlank with
  | false => rfl
  | true =>
      have last := h _ (List.getLast?_eq_some_getLast present)
      rw [isBlank_iff.1 blank _ (List.getLast_mem present)] at last
      cases last

/-! ### Trimming -/

/-- What is left of a text by trimming at the front. -/
theorem trimStart_append {front text : Text} (blank : front.isBlank = true)
    (h : StartsInked text) : trimStart (front ++ text) = text :=
  dropWhile_append_of_startsOff (isBlank_iff.1 blank) h

theorem trimStart_of_startsInked {text : Text} (h : StartsInked text) : trimStart text = text :=
  @trimStart_append [] text rfl h

/-- A text is its trimmed part with white space behind it. -/
theorem trimEnd_spec (text : Text) :
    EndsInked (trimEnd text) ∧ ∃ back, back.isBlank = true ∧ text = trimEnd text ++ back := by
  obtain ⟨ends, back, each, whole⟩ := reverse_dropWhile_spec JavaUnit.isBlank text
  exact ⟨ends, back, isBlank_iff.2 each, whole⟩

/-- What is left of a text by trimming at the end. -/
theorem trimEnd_append {text back : Text} (blank : back.isBlank = true) (h : EndsInked text) :
    trimEnd (text ++ back) = text :=
  reverse_dropWhile_append (isBlank_iff.1 blank) h

/-- Trimming keeps just the texts that do not end in white space. -/
theorem trimEnd_eq_self_iff {text : Text} : trimEnd text = text ↔ EndsInked text := by
  constructor
  · intro same
    rw [← same]
    exact (trimEnd_spec text).1
  · intro h
    have whole := @trimEnd_append text [] rfl h
    rwa [List.append_nil] at whole

theorem trimEnd_eq_nil_iff {text : Text} : trimEnd text = [] ↔ text.isBlank = true := by
  constructor
  · intro empty
    obtain ⟨_, back, blank, whole⟩ := trimEnd_spec text
    rw [empty, List.nil_append] at whole
    rwa [whole]
  · intro blank
    exact @trimEnd_append [] text blank endsOff_nil

/-- A text is its trimmed part between white space. -/
theorem trim_spec (text : Text) :
    StartsInked (trim text) ∧ EndsInked (trim text) ∧
      ∃ front back, front.isBlank = true ∧ back.isBlank = true ∧
        text = front ++ trim text ++ back := by
  obtain ⟨starts, ends, front, back, each, each', whole⟩ := strip_spec JavaUnit.isBlank text
  exact ⟨starts, ends, front, back, isBlank_iff.2 each, isBlank_iff.2 each', whole⟩

/-- What is left of a text by trimming it. -/
theorem trim_append {front text back : Text} (blank : front.isBlank = true)
    (blank' : back.isBlank = true) (starts : StartsInked text) (ends : EndsInked text) :
    trim (front ++ text ++ back) = text :=
  strip_append (isBlank_iff.1 blank) (isBlank_iff.1 blank') starts ends

theorem trim_of_inked {text : Text} (starts : StartsInked text) (ends : EndsInked text) :
    trim text = text :=
  strip_of_off starts ends

theorem trim_eq_nil_iff {text : Text} : trim text = [] ↔ text.isBlank = true := by
  constructor
  · intro empty
    obtain ⟨_, _, front, back, blank, blank', whole⟩ := trim_spec text
    rw [empty, List.append_nil] at whole
    rw [whole, isBlank_append, blank, blank']
    rfl
  · intro blank
    have whole := @trim_append text [] [] blank rfl startsOff_nil endsOff_nil
    rwa [List.append_nil, List.append_nil] at whole

/-- What is trimmed has nothing left to trim. -/
@[simp] theorem trim_trim (text : Text) : trim (trim text) = trim text :=
  trim_of_inked (trim_spec text).1 (trim_spec text).2.1

/-- Trimming leaves the same of a text that is trimmed at its end before. -/
theorem trim_trimEnd (text : Text) : trim (trimEnd text) = trim text := by
  obtain ⟨starts, ends, front, back, blank, blank', whole⟩ := trim_spec text
  obtain ⟨_, back', blank'', whole'⟩ := trimEnd_spec text
  by_cases present : trim text = []
  · rw [present, trim_eq_nil_iff]
    have all := trim_eq_nil_iff.1 present
    rw [whole', isBlank_append, Bool.and_eq_true] at all
    exact all.1
  · have core : trimEnd text = front ++ trim text := by
      conv => lhs; rw [whole]
      exact trimEnd_append blank' ((endsOff_append present).2 ends)
    rw [core]
    have whole := @trim_append front (trim text) [] blank rfl starts ends
    rwa [List.append_nil] at whole

end Text

end JavaUnit
