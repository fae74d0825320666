/-
Module: JavaUnit.Proofs.JavadocText
Purpose: The text of Javadoc, there and back: the description and the block tags that a rendered
  Javadoc comment is read as are those it was rendered from, at any indentation.
Main exports: Javadoc.Canonical, Javadoc.encloses_render, Javadoc.ofBody_render,
  Javadoc.canonical_of_cut
-/
import JavaUnit.Proofs.CommentText

namespace JavaUnit

open Text

/-! ### Words in front of a blank -/

theorem splitAtBlank_append {word text : Text} (ink : ∀ c ∈ word, JavaUnit.isBlank c = false) :
    splitAtBlank (word ++ ' ' :: text) = (word, text) := by
  have keeps : ∀ c ∈ word, (!JavaUnit.isBlank c) = true := fun c mem => by rw [ink c mem]; rfl
  rw [splitAtBlank, List.takeWhile_append_of_pos keeps, List.dropWhile_append_of_pos keeps]
  have blank : (!JavaUnit.isBlank ' ') = false := rfl
  rw [List.takeWhile_cons, blank, List.dropWhile_cons, blank]
  simp

theorem splitAtBlank_of_ink {word : Text} (ink : ∀ c ∈ word, JavaUnit.isBlank c = false) :
    splitAtBlank word = (word, []) := by
  have keeps : ∀ c ∈ word, (!JavaUnit.isBlank c) = true := fun c mem => by rw [ink c mem]; rfl
  have whole : (word ++ []).takeWhile (!JavaUnit.isBlank ·) = word ++ [] :=
    List.takeWhile_append_of_pos keeps
  have none : (word ++ []).dropWhile (!JavaUnit.isBlank ·) = [] :=
    List.dropWhile_append_of_pos keeps
  rw [List.append_nil] at whole none
  rw [splitAtBlank, whole, none]
  rfl

theorem splitAtBlank_within (text : Text) :
    (splitAtBlank text).1 <:+: text ∧ (splitAtBlank text).2 <:+: text :=
  ⟨(List.takeWhile_prefix _).isInfix,
    ((List.drop_suffix _ _).trans (List.dropWhile_suffix _)).isInfix⟩

theorem isWordPart_of_isIdentifier {name : Text} (h : isIdentifier name = true) :
    name ≠ [] ∧ ∀ c ∈ name, isWordPart c = true := by
  cases name with
  | nil => cases h
  | cons first rest =>
      rw [isIdentifier, Bool.and_eq_true, Bool.and_eq_true, List.all_eq_true] at h
      refine ⟨List.cons_ne_nil _ _, fun c mem => ?_⟩
      rcases List.mem_cons.1 mem with rfl | mem
      · exact isWordPart_of_isWordStart h.1.1
      · exact h.1.2 c mem

/-- A word without blanks needs no trimming. -/
theorem inked_of_ink {word : Text} (ink : ∀ c ∈ word, JavaUnit.isBlank c = false) :
    StartsInked word ∧ EndsInked word :=
  ⟨fun c first => ink c (List.mem_of_head? first), fun c last => ink c (List.mem_of_getLast? last)⟩

theorem isBlank_eq_false_of_isWordPart {c : Char} (h : isWordPart c = true) :
    JavaUnit.isBlank c = false := by
  by_contra blank
  rw [Bool.not_eq_false] at blank
  rw [not_isWordPart_of_isBlank blank] at h
  cases h

/-- A word of letters, numbers and hyphens holds no blank and closes nothing. -/
theorem isBlank_of_isTag {tag : Text} (h : JavadocDraft.isTag tag = true) :
    tag ≠ [] ∧ ∀ c ∈ tag, JavaUnit.isBlank c = false ∧ c ≠ '*' := by
  rw [JavadocDraft.isTag, Bool.and_eq_true, decide_eq_true_eq, List.all_eq_true] at h
  refine ⟨h.1, fun c mem => ?_⟩
  have either := h.2 c mem
  rw [Bool.or_eq_true, decide_eq_true_eq] at either
  rcases either with letter | rfl
  · have part : isWordPart c = true := by rw [isWordPart, letter]; rfl
    refine ⟨isBlank_eq_false_of_isWordPart part, ?_⟩
    · rintro rfl
      revert letter
      decide
  · decide

/-! ### The lines of Javadoc -/

/-- The text of a block tag: one line, trimmed, that does not close a comment. -/
structure TagText (text : Text) : Prop where
  plain : '\n' ∉ text
  starts : StartsInked text
  ends : EndsInked text
  inside : holdsCloser text = false

namespace Javadoc

/-- The texts of all block tags. -/
def texts (node : Javadoc) : List Text :=
  node.params.map (·.2) ++ node.returns.toList ++ node.author.toList ++ node.version.toList
    ++ node.since.toList ++ node.tags.map (·.2)

/-- The block tags with their texts, in canonical order. -/
def entries (node : Javadoc) : List (Text × Text) :=
  node.params.map (fun param => ("param".toList, Text.trimEnd (param.1 ++ ' ' :: param.2)))
    ++ node.returns.toList.map ("return".toList, ·)
    ++ node.author.toList.map ("author".toList, ·)
    ++ node.version.toList.map ("version".toList, ·)
    ++ node.since.toList.map ("since".toList, ·) ++ node.tags

theorem tagLines_eq (node : Javadoc) :
    node.tagLines = node.entries.map fun entry => tagLine entry.1 entry.2 := by
  rw [tagLines, entries]
  cases node.returns <;> cases node.author <;> cases node.version <;> cases node.since <;> simp

/-- What all Javadoc that is read comes to. -/
structure Canonical (node : Javadoc) : Prop where
  plain : ∀ line ∈ node.description, '\n' ∉ line ∧ EndsInked line
  starts : StartsOff Text.isBlank node.description
  ends : EndsOff Text.isBlank node.description
  inside : ∀ line ∈ node.description, holdsCloser line = false
  noTag : ∀ line ∈ node.description, line.trimStart.head? ≠ some '@'
  texts : ∀ text ∈ node.texts, TagText text
  params : ∀ param ∈ node.params, isIdentifier param.1 = true
  tags : ∀ tag ∈ node.tags, JavadocDraft.isTag tag.1 = true ∧
    JavadocDraft.reservedTags.contains tag.1 = false
  editable : node.editable = true

variable {node : Javadoc}

theorem tagText_of_isIdentifier {name : Text} (known : isIdentifier name = true) :
    TagText name ∧ ∀ c ∈ name, JavaUnit.isBlank c = false := by
  have parts := (isWordPart_of_isIdentifier known).2
  have ink : ∀ c ∈ name, JavaUnit.isBlank c = false :=
    fun c mem => isBlank_eq_false_of_isWordPart (parts c mem)
  obtain ⟨starts, ends⟩ := inked_of_ink ink
  refine ⟨⟨fun feed => ?_, starts, ends, holdsCloser_of_notMem fun star => ?_⟩, ink⟩
  · cases ink _ feed
  · have part := parts _ star
    revert part
    decide

/-- The text of the tag of a parameter is its name and what is said about it. -/
theorem tagText_param {name text : Text} (known : isIdentifier name = true) (h : TagText text) :
    TagText (trimEnd (name ++ ' ' :: text)) ∧
      (splitAtBlank (trimEnd (name ++ ' ' :: text))).1 = name ∧
      trim (splitAtBlank (trimEnd (name ++ ' ' :: text))).2 = text := by
  obtain ⟨word, ink⟩ := tagText_of_isIdentifier known
  have some := (isWordPart_of_isIdentifier known).1
  by_cases empty : text = []
  · have trimmed : trimEnd (name ++ [' ']) = name := trimEnd_append rfl word.ends
    rw [empty, trimmed, splitAtBlank_of_ink ink]
    exact ⟨word, rfl, rfl⟩
  · have ends : EndsInked (name ++ ' ' :: text) := by
      rw [List.append_cons]
      exact (endsOff_append empty).2 h.ends
    rw [trimEnd_eq_self_iff.2 ends, splitAtBlank_append ink]
    refine ⟨⟨?_, (startsOff_append some).2 word.starts, ends, ?_⟩, rfl,
      trim_of_inked h.starts h.ends⟩
    · simp [word.plain, h.plain]
    · rw [holdsCloser_append_cons (by decide) (by decide), word.inside, h.inside]
      rfl

theorem isTag_of_reserved {tag : Text} (h : tag ∈ ["param".toList, "return".toList,
    "author".toList, "version".toList, "since".toList]) : JavadocDraft.isTag tag = true := by
  have each : ["param".toList, "return".toList, "author".toList, "version".toList,
      "since".toList].all JavadocDraft.isTag = true := by decide +kernel
  exact List.all_eq_true.1 each tag h

/-- Each entry is a word and a text. -/
theorem entry_of_mem (canonical : node.Canonical) {entry : Text × Text}
    (mem : entry ∈ node.entries) : JavadocDraft.isTag entry.1 = true ∧ TagText entry.2 := by
  have texts := canonical.texts
  simp only [Javadoc.texts, List.mem_append, List.mem_map] at texts
  simp only [entries, List.mem_append, List.mem_map] at mem
  rcases mem with ((((mem | mem) | mem) | mem) | mem) | mem
  · obtain ⟨param, listed, rfl⟩ := mem
    refine ⟨isTag_of_reserved (by simp), (tagText_param (canonical.params param listed) (texts param.2 ?_)).1⟩
    exact .inl (.inl (.inl (.inl (.inl ⟨param, listed, rfl⟩))))
  · obtain ⟨text, listed, rfl⟩ := mem
    exact ⟨isTag_of_reserved (by simp), texts text (.inl (.inl (.inl (.inl (.inr listed)))))⟩
  · obtain ⟨text, listed, rfl⟩ := mem
    exact ⟨isTag_of_reserved (by simp), texts text (.inl (.inl (.inl (.inr listed))))⟩
  · obtain ⟨text, listed, rfl⟩ := mem
    exact ⟨isTag_of_reserved (by simp), texts text (.inl (.inl (.inr listed)))⟩
  · obtain ⟨text, listed, rfl⟩ := mem
    exact ⟨isTag_of_reserved (by simp), texts text (.inl (.inr listed))⟩
  · exact ⟨(canonical.tags entry mem).1, texts entry.2 (.inr ⟨entry, mem, rfl⟩)⟩

/-- The line of a block tag. -/
theorem tagLine_spec {tag text : Text} (word : JavadocDraft.isTag tag = true) (h : TagText text) :
    ('\n' ∉ tagLine tag text ∧ EndsInked (tagLine tag text)) ∧
      holdsCloser (tagLine tag text) = false ∧
      ∃ rest, tagLine tag text = '@' :: rest ∧ splitAtBlank rest = (tag, text) := by
  obtain ⟨some, chars⟩ := isBlank_of_isTag word
  have ink : ∀ c ∈ tag, JavaUnit.isBlank c = false := fun c mem => (chars c mem).1
  have plain : '\n' ∉ tag := fun feed => by cases ink _ feed
  have inside : holdsCloser tag = false := holdsCloser_of_notMem fun star => (chars _ star).2 rfl
  rw [tagLine]
  split
  · next empty =>
      refine ⟨⟨by simp [plain], ?_⟩, ?_, tag, rfl, ?_⟩
      · rw [← List.singleton_append]
        exact (endsOff_append some).2 (inked_of_ink ink).2
      · rw [holdsCloser_cons, inside]
        rfl
      · rw [splitAtBlank_of_ink ink, empty]
  · next present =>
      refine ⟨⟨by simp [plain, h.plain], ?_⟩, ?_, tag ++ ' ' :: text, rfl,
        splitAtBlank_append ink⟩
      · rw [List.append_cons]
        exact (endsOff_append present).2 h.ends
      · rw [holdsCloser_append_cons (by decide) (by decide), h.inside, holdsCloser_cons, inside]
        rfl

/-! ### Rendering -/

/-- The lines of Javadoc, with an empty one between its description and its block tags. -/
def lines (node : Javadoc) : List Text :=
  node.description ++ (if node.description ≠ [] ∧ node.tagLines ≠ [] then [[]] else [])
    ++ node.tagLines

theorem plain_of_mem_lines (canonical : node.Canonical) {line : Text} (mem : line ∈ node.lines) :
    ('\n' ∉ line ∧ EndsInked line) ∧ holdsCloser line = false := by
  rw [lines, List.mem_append, List.mem_append, tagLines_eq] at mem
  rcases mem with (mem | mem) | mem
  · exact ⟨canonical.plain line mem, canonical.inside line mem⟩
  · split at mem
    · rw [List.mem_singleton] at mem
      rw [mem]
      exact ⟨⟨by simp, endsOff_nil⟩, rfl⟩
    · cases mem
  · obtain ⟨entry, listed, rfl⟩ := List.mem_map.1 mem
    obtain ⟨word, text⟩ := entry_of_mem canonical listed
    obtain ⟨plain, inside, -⟩ := tagLine_spec word text
    exact ⟨plain, inside⟩

/-- The rendering of Javadoc encloses its lines, at any indentation. -/
theorem encloses_render (canonical : node.Canonical) (count : Nat) :
    Encloses "/**".toList (shift count node.render) node.lines := by
  have bare : '\n' ∉ "/**".toList := by decide
  have spreads := encloses_spread count bare
    (fun line mem => (plain_of_mem_lines canonical mem).1)
    (fun line mem => (plain_of_mem_lines canonical mem).2)
  have single : ∀ {line : Text}, node.description ++ node.tagLines = [line] →
      node.lines = [line] → Encloses "/**".toList (shift count (condensed "/**".toList line))
        node.lines := by
    intro line _ only
    have listed : line ∈ node.lines := by simp [only]
    obtain ⟨⟨plain, ends⟩, inside⟩ := plain_of_mem_lines canonical listed
    have bare : '\n' ∉ condensed "/**".toList line := by
      rw [condensed]
      simp [plain]
    rw [shift_of_notMem bare, only]
    exact encloses_condensed _ plain ends inside
  rw [render]
  split
  · next short =>
      rw [isCondensed] at short
      split at short
      · next none none' =>
          have empty : node.lines = [] := by simp [lines, none, none']
          rw [none, none', empty]
          exact encloses_nil "/**".toList
      · next line only none =>
          have whole : node.lines = [line] := by simp [lines, only, none]
          rw [only, none]
          exact single (by simp [only, none]) whole
      · next line none only =>
          have whole : node.lines = [line] := by simp [lines, none, only]
          rw [none, only]
          exact single (by simp [none, only]) whole
      · cases short
  · have whole : node.description.flatMap starLine
        ++ (if node.description ≠ [] ∧ node.tagLines ≠ [] then " *\n".toList else [])
        ++ node.tagLines.flatMap starLine = node.lines.flatMap starLine := by
      rw [lines, List.flatMap_append, List.flatMap_append]
      split <;> rfl
    simp only
    rw [whole]
    exact spreads

end Javadoc

/-! ### Sorting the lines -/

namespace JavadocParts

variable {parts : JavadocParts} {line : Text}

theorem addLine_of_noTag (noTag : line.trimStart.head? ≠ some '@') (none : parts.tags = []) :
    parts.addLine line = { parts with description := parts.description ++ [line] } := by
  rw [addLine]
  split
  · next start =>
      rw [start] at noTag
      exact absurd rfl noTag
  · rw [none]
    rfl

theorem addLine_of_tag {tag text rest : Text} (start : line = '@' :: rest)
    (cut : splitAtBlank rest = (tag, text)) (h : TagText text) :
    parts.addLine line = { parts with tags := parts.tags ++ [(tag, text)] } := by
  have stays : trimStart line = '@' :: rest := by
    rw [start]
    exact trimStart_of_startsInked (startsOff_cons.2 (by decide))
  rw [addLine, stays]
  simp only [cut, trim_of_inked h.starts h.ends]

/-- Behind a tag an empty line changes nothing. -/
theorem addLine_nil (some : parts.tags ≠ []) : parts.addLine [] = parts := by
  have last := List.dropLast_append_getLast some
  rw [addLine]
  have start : trimStart [] = [] := rfl
  rw [start]
  simp only [List.getLast?_eq_some_getLast some, continued]
  obtain ⟨description, tags⟩ := parts
  simp only [if_true, JavadocParts.mk.injEq, true_and]
  exact last

theorem foldl_description {lines : List Text} (none : parts.tags = [])
    (noTag : ∀ line ∈ lines, line.trimStart.head? ≠ some '@') :
    lines.foldl addLine parts = { parts with description := parts.description ++ lines } := by
  induction lines generalizing parts with
  | nil => simp
  | cons line others ih =>
      have stays : ({ parts with description := parts.description ++ [line] } :
        JavadocParts).tags = [] := none
      rw [List.foldl_cons, addLine_of_noTag (noTag line List.mem_cons_self) none,
        ih stays fun line mem => noTag line (List.mem_cons_of_mem _ mem)]
      simp

theorem foldl_tags {entries : List (Text × Text)}
    (known : ∀ entry ∈ entries, JavadocDraft.isTag entry.1 = true ∧ TagText entry.2) :
    (entries.map fun entry => tagLine entry.1 entry.2).foldl addLine parts =
      { parts with tags := parts.tags ++ entries } := by
  induction entries generalizing parts with
  | nil => simp
  | cons entry others ih =>
      obtain ⟨word, text⟩ := known entry List.mem_cons_self
      obtain ⟨-, -, rest, start, cut⟩ := Javadoc.tagLine_spec word text
      rw [List.map_cons, List.foldl_cons, addLine_of_tag start cut text,
        ih fun entry mem => known entry (List.mem_cons_of_mem _ mem)]
      simp

/-- Empty lines at the end leave the tags alone. -/
theorem foldl_empty {lines : List Text} (empty : ∀ line ∈ lines, line = []) :
    ∃ more : List Text, (∀ line ∈ more, line = []) ∧
      lines.foldl addLine parts = { parts with description := parts.description ++ more } := by
  by_cases none : parts.tags = []
  · refine ⟨lines, empty, foldl_description none fun line mem => ?_⟩
    rw [empty line mem]
    exact nofun
  · refine ⟨[], nofun, ?_⟩
    induction lines with
    | nil => simp
    | cons line others ih =>
        rw [List.foldl_cons, empty line List.mem_cons_self, addLine_nil none,
          ih fun line mem => empty line (List.mem_cons_of_mem _ mem)]

/-- The lines of a Javadoc comment, with empty ones around them, are sorted into its description
and its block tags. -/
theorem foldl_lines {node : Javadoc} (canonical : node.Canonical) {front back : List Text}
    (none : ∀ line ∈ front, line = []) (none' : ∀ line ∈ back, line = []) :
    ∃ front' back' : List Text, (∀ line ∈ front', line = []) ∧ (∀ line ∈ back', line = []) ∧
      (front ++ node.lines ++ back).foldl addLine {} =
        { description := front' ++ node.description ++ back', tags := node.entries } := by
  have empty : ∀ {lines : List Text}, (∀ line ∈ lines, line = []) →
      ∀ line ∈ lines, line.trimStart.head? ≠ some '@' := by
    intro lines none line mem
    rw [none line mem]
    exact nofun
  obtain ⟨gap, between, lines⟩ : ∃ gap : List Text, (∀ line ∈ gap, line = []) ∧
      node.lines = node.description ++ gap ++ node.tagLines := by
    refine ⟨_, ?_, rfl⟩
    intro line mem
    split at mem
    · simpa using mem
    · cases mem
  have sorted : (front ++ node.lines).foldl addLine {} =
      { description := front ++ node.description ++ gap, tags := node.entries } := by
    have first := @foldl_description {} _ rfl (empty none)
    have second := @foldl_description { description := front } _ rfl canonical.noTag
    have third := @foldl_description { description := front ++ node.description } _ rfl
      (empty between)
    have fourth := @foldl_tags { description := front ++ node.description ++ gap } _
      fun entry mem => Javadoc.entry_of_mem canonical mem
    rw [lines, List.foldl_append, List.foldl_append, List.foldl_append, first]
    simp only [List.nil_append]
    rw [second, third, Javadoc.tagLines_eq, fourth]
    rfl
  obtain ⟨more, behind, sorted'⟩ := @foldl_empty
    { description := front ++ node.description ++ gap, tags := node.entries } back none'
  refine ⟨front, gap ++ more, none, ?_, ?_⟩
  · intro line mem
    rcases List.mem_append.1 mem with mem | mem
    · exact between line mem
    · exact behind line mem
  · rw [List.foldl_append, sorted, sorted']
    simp

end JavadocParts

/-! ### Block tags -/

namespace JavadocDraft

/-- Adding block tags to a draft makes another one, without anything wrong. -/
def Adds (draft : JavadocDraft) (entries : List (Text × Text)) (next : JavadocDraft) : Prop :=
  draft.addBlockTags entries = (next, [])

namespace Adds

variable {draft mid next : JavadocDraft} {first second : List (Text × Text)}

theorem nil : Adds draft [] draft := rfl

theorem cons {tag text : Text} (step : draft.addBlockTag tag text = (mid, []))
    (later : Adds mid second next) : Adds draft ((tag, text) :: second) next := by
  rw [Adds, addBlockTags, step]
  simp only
  rw [later]
  rfl

theorem append (h : Adds draft first mid) (later : Adds mid second next) :
    Adds draft (first ++ second) next := by
  induction first generalizing draft with
  | nil =>
      cases h
      exact later
  | cons entry others ih =>
      obtain ⟨tag, text⟩ := entry
      rw [Adds, addBlockTags] at h
      simp only [Prod.mk.injEq, List.append_eq_nil_iff] at h
      have step : draft.addBlockTag tag text = ((draft.addBlockTag tag text).1, []) := by
        rw [← h.2.1]
      refine .cons step (ih ?_)
      rw [Adds, ← h.1, ← h.2.2]

end Adds

variable {draft : JavadocDraft}

theorem adds_params {params : List (Text × Text)} (known : ∀ param ∈ params,
    isIdentifier param.1 = true ∧ TagText param.2) :
    Adds draft (params.map fun param => ("param".toList, Text.trimEnd (param.1 ++ ' ' :: param.2)))
      { draft with params := draft.params ++ params } := by
  induction params generalizing draft with
  | nil => simpa using Adds.nil
  | cons param others ih =>
      obtain ⟨name, text⟩ := param
      obtain ⟨word, said⟩ := known (name, text) List.mem_cons_self
      obtain ⟨-, name', text'⟩ := Javadoc.tagText_param word said
      have some := (isWordPart_of_isIdentifier word).1
      have own := (Javadoc.tagText_of_isIdentifier word).1
      have step : draft.addBlockTag "param".toList (trimEnd (name ++ ' ' :: text)) =
          ({ draft with params := draft.params ++ [(name, text)] }, []) := by
        rw [addBlockTag, if_pos rfl]
        simp only [name', if_neg some, addParam, text', trim_of_inked own.starts own.ends,
          trim_of_inked said.starts said.ends]
      have later := @ih { draft with params := draft.params ++ [(name, text)] }
        fun param mem => known param (List.mem_cons_of_mem _ mem)
      simp only [List.append_assoc, List.singleton_append] at later
      exact .cons step later

theorem adds_tags {tags : List (Text × Text)} (known : ∀ tag ∈ tags,
    (isTag tag.1 = true ∧ reservedTags.contains tag.1 = false) ∧ TagText tag.2) :
    Adds draft tags { draft with tags := draft.tags ++ tags } := by
  induction tags generalizing draft with
  | nil => simpa using Adds.nil
  | cons entry others ih =>
      obtain ⟨tag, text⟩ := entry
      obtain ⟨⟨word, free⟩, said⟩ := known (tag, text) List.mem_cons_self
      have own := inked_of_ink fun c mem => ((isBlank_of_isTag word).2 c mem).1
      simp only [reservedTags, List.contains_eq_mem, List.mem_cons, not_or, List.not_mem_nil,
        not_false_eq_true, and_true, decide_eq_false_iff_not] at free
      have step : draft.addBlockTag tag text =
          ({ draft with tags := draft.tags ++ [(tag, text)] }, []) := by
        rw [addBlockTag, if_neg free.1, if_neg free.2.1, if_neg free.2.2.1, if_neg free.2.2.2.1,
          if_neg free.2.2.2.2, addTag, trim_of_inked own.1 own.2,
          trim_of_inked said.starts said.ends]
      have later := @ih { draft with tags := draft.tags ++ [(tag, text)] }
        fun tag mem => known tag (List.mem_cons_of_mem _ mem)
      simp only [List.append_assoc, List.singleton_append] at later
      exact .cons step later

/-- A tag that may be given once, if it is. -/
theorem adds_once {tag : Text} {change : Text → JavadocDraft} {value : Option Text}
    {next : JavadocDraft} (step : ∀ text ∈ value, draft.addBlockTag tag text = (change text, []))
    (same : value.elim draft change = next) : Adds draft (value.toList.map (tag, ·)) next := by
  cases value with
  | none =>
      rw [← same]
      exact .nil
  | some text =>
      rw [← same]
      exact .cons (step text rfl) .nil

theorem foldl_addDescription (lines : List Text) (draft : JavadocDraft) :
    lines.foldl addDescription draft =
      { draft with description := draft.description ++ lines.flatMap trimmedLines } := by
  induction lines generalizing draft with
  | nil => simp
  | cons line others ih =>
      rw [List.foldl_cons, ih]
      simp [addDescription]

/-- The block tags of a node make the draft of the node. -/
theorem adds_entries {node : Javadoc} (canonical : node.Canonical) (description : List Text) :
    Adds { description } node.entries { ofNode node with description } := by
  have texts := canonical.texts
  have identifiers := canonical.params
  have words := canonical.tags
  obtain ⟨_, params, returns, author, version, since, tags, _⟩ := node
  simp only [Javadoc.texts, List.mem_append, List.mem_map] at texts
  have trimmed : ∀ {text : Text}, TagText text → trim text = text :=
    fun h => trim_of_inked h.starts h.ends
  have first := @adds_params ⟨description, [], none, none, none, none, []⟩ params fun param mem =>
    ⟨identifiers param mem, texts _ (.inl (.inl (.inl (.inl (.inl ⟨param, mem, rfl⟩)))))⟩
  have second := @adds_once ⟨description, params, none, none, none, none, []⟩ "return".toList
    (fun text => ⟨description, params, some text, none, none, none, []⟩) returns
    ⟨description, params, returns, none, none, none, []⟩
    (fun text mem => by
      have own := trimmed (texts text (.inl (.inl (.inl (.inl (.inr (by simpa using mem)))))))
      simp [addBlockTag, once, withReturns, own])
    (by cases returns <;> rfl)
  have third := @adds_once ⟨description, params, returns, none, none, none, []⟩ "author".toList
    (fun text => ⟨description, params, returns, some text, none, none, []⟩) author
    ⟨description, params, returns, author, none, none, []⟩
    (fun text mem => by
      have own := trimmed (texts text (.inl (.inl (.inl (.inr (by simpa using mem))))))
      simp [addBlockTag, once, withAuthor, own])
    (by cases author <;> rfl)
  have fourth := @adds_once ⟨description, params, returns, author, none, none, []⟩
    "version".toList (fun text => ⟨description, params, returns, author, some text, none, []⟩)
    version ⟨description, params, returns, author, version, none, []⟩
    (fun text mem => by
      have own := trimmed (texts text (.inl (.inl (.inr (by simpa using mem)))))
      simp [addBlockTag, once, withVersion, own])
    (by cases version <;> rfl)
  have fifth := @adds_once ⟨description, params, returns, author, version, none, []⟩
    "since".toList (fun text => ⟨description, params, returns, author, version, some text, []⟩)
    since ⟨description, params, returns, author, version, since, []⟩
    (fun text mem => by
      have own := trimmed (texts text (.inl (.inr (by simpa using mem))))
      simp [addBlockTag, once, withSince, own])
    (by cases since <;> rfl)
  have sixth := @adds_tags ⟨description, params, returns, author, version, since, []⟩ tags
    fun tag mem => ⟨words tag mem, texts _ (.inr ⟨tag, mem, rfl⟩)⟩
  exact ((((first.append second).append third).append fourth).append fifth).append sixth

/-- A draft with the parts of canonical Javadoc, and empty lines around its description, makes
it. -/
theorem build_of_canonical {node : Javadoc} (canonical : node.Canonical) {front back : List Text}
    (none : ∀ line ∈ front, line = []) (none' : ∀ line ∈ back, line = []) :
    build { ofNode node with description := front ++ node.description ++ back } = .ok node := by
  have blank : ∀ {lines : List Text}, (∀ line ∈ lines, line = []) →
      ∀ line ∈ lines, Text.isBlank line = true := by
    intro lines none line mem
    rw [none line mem]
    rfl
  have content : content { ofNode node with description := front ++ node.description ++ back } =
      node.description := by
    rw [JavadocDraft.content, stripEdges_eq_strip]
    exact strip_append (blank none) (blank none') canonical.starts canonical.ends
  have texts := canonical.texts
  simp only [Javadoc.texts, List.mem_append, List.mem_map] at texts
  have single : ∀ {tag text : Text}, TagText text → tagTextDefects tag text = [] := by
    intro tag text own
    simp [tagTextDefects, own.plain]
  rw [build, settle_eq_ok_iff]
  constructor
  · simp only [defects, content, List.append_eq_nil_iff, List.flatMap_eq_nil_iff]
    refine ⟨⟨⟨⟨⟨⟨?_, ?_⟩, ?_⟩, ?_⟩, ?_⟩, ?_⟩, ?_⟩
    · intro line mem
      simp [descriptionDefects, canonical.noTag line mem, canonical.inside line mem]
    · intro param mem
      have own := texts param.2 (.inl (.inl (.inl (.inl (.inl ⟨param, mem, rfl⟩)))))
      simp [paramDefects, canonical.params param mem, single own]
    · exact fun text mem => single (texts text (.inl (.inl (.inl (.inl (.inr mem))))))
    · exact fun text mem => single (texts text (.inl (.inl (.inl (.inr mem)))))
    · exact fun text mem => single (texts text (.inl (.inl (.inr mem))))
    · exact fun text mem => single (texts text (.inl (.inr mem)))
    · intro tag mem
      have own := texts tag.2 (.inr ⟨tag, mem, rfl⟩)
      obtain ⟨word, free⟩ := canonical.tags tag mem
      simp only [tagDefects, word, free, single own]
      rfl
  · rw [JavadocDraft.node, content]
    have editable := canonical.editable
    obtain ⟨description, params, returns, author, version, since, tags, editable'⟩ := node
    simp only at editable
    rw [editable]
    rfl

/-- What the lines of canonical Javadoc are read as. -/
theorem ofBody_of_encloses {node : Javadoc} (canonical : node.Canonical) {text : Text}
    (h : Encloses "/**".toList text node.lines) :
    (ofBody (between "/**".toList text)).2 = [] ∧
      (ofBody (between "/**".toList text)).1.build = .ok node := by
  obtain ⟨body, rfl, -, -, front, back, lines, none, none'⟩ := h.exists_body
  obtain ⟨front', back', empty, empty', sorted⟩ := JavadocParts.foldl_lines canonical none none'
  have plain : ∀ line ∈ front' ++ node.description ++ back', trimmedLines line = [line] := by
    intro line mem
    have own : '\n' ∉ line ∧ EndsInked line := by
      rw [List.mem_append, List.mem_append] at mem
      rcases mem with (mem | mem) | mem
      · rw [empty line mem]
        exact ⟨by simp, endsOff_nil⟩
      · exact canonical.plain line mem
      · rw [empty' line mem]
        exact ⟨by simp, endsOff_nil⟩
    have single := trimmedLines_unlines (List.cons_ne_nil line []) (by simpa using own)
    rwa [unlines_singleton] at single
  have kept : (front' ++ node.description ++ back').flatMap trimmedLines =
      front' ++ node.description ++ back' := by
    rw [List.flatMap_congr plain]
    simp
  have adds := adds_entries canonical (front' ++ node.description ++ back')
  rw [between_append, ofBody, lines, sorted]
  simp only [foldl_addDescription, List.nil_append, kept]
  rw [adds]
  exact ⟨rfl, build_of_canonical canonical empty empty'⟩

end JavadocDraft

/-- The rendering of Javadoc is read as that Javadoc, at any indentation. -/
theorem Javadoc.cut_render {node : Javadoc} (canonical : node.Canonical) (count : Nat)
    (rest : Text) :
    ∃ token, Cut (shift count node.render ++ rest) token rest ∧ token.kind = .docComment ∧
      (JavadocDraft.ofBody (between "/**".toList token.text)).2 = [] ∧
      (JavadocDraft.ofBody (between "/**".toList token.text)).1.build = .ok node := by
  have encloses := encloses_render canonical count
  exact ⟨_, encloses.cut_doc, rfl, JavadocDraft.ofBody_of_encloses canonical encloses⟩

/-! ### What is read is canonical -/

theorem trimStart_within (text : Text) : trimStart text <:+: text :=
  (List.dropWhile_suffix _).isInfix

theorem trimEnd_within (text : Text) : trimEnd text <:+: text := by
  obtain ⟨-, back, -, whole⟩ := trimEnd_spec text
  exact ⟨[], back, by rw [List.nil_append, ← whole]⟩

theorem getD_afterLead?_within (lead text : Text) : (afterLead? lead text).getD text <:+: text := by
  cases found : afterLead? lead text with
  | none => exact List.infix_rfl
  | some rest =>
      rw [afterLead?_eq_some found]
      exact (List.suffix_append _ _).isInfix

theorem getD_beforeTail?_within (tail text : Text) :
    (beforeTail? tail text).getD text <:+: text := by
  cases found : beforeTail? tail text with
  | none => exact List.infix_rfl
  | some front =>
      rw [beforeTail?_eq_some found]
      exact (List.prefix_append _ _).isInfix

/-- Each line of a comment stands somewhere in its text. -/
theorem infix_of_mem_commentLines {body line : Text} (mem : line ∈ commentLines body) :
    line <:+: body := by
  rw [commentLines] at mem
  split at mem
  · obtain ⟨part, listed, rfl⟩ := List.mem_map.1 mem
    refine List.IsInfix.trans ?_ (infix_of_mem_split listed)
    exact (trimEnd_within _).trans ((getD_afterLead?_within _ _).trans
      ((getD_afterLead?_within _ _).trans (trimStart_within _)))
  · rw [List.mem_singleton] at mem
    rw [mem]
    exact (trimEnd_within _).trans ((getD_beforeTail?_within _ _).trans (getD_afterLead?_within _ _))

namespace JavadocParts

/-- No text of a tag closes a comment. -/
def Open (parts : JavadocParts) : Prop :=
  ∀ entry ∈ parts.tags, holdsCloser entry.2 = false

theorem holdsCloser_continued {text line : Text} (h : holdsCloser text = false)
    (h' : holdsCloser line = false) : holdsCloser (continued text line) = false := by
  rw [continued]
  split
  · exact h
  · split
    · exact h'
    · rw [holdsCloser_append_cons (by decide) (by decide), h, h']
      rfl

theorem open_addLine {parts : JavadocParts} {line : Text} (h : parts.Open)
    (inside : holdsCloser line = false) : (parts.addLine line).Open := by
  have inside' := holdsCloser_of_within (trimStart_within line) inside
  rw [addLine]
  split
  · next rest start =>
      rw [start] at inside'
      have behind := holdsCloser_of_within (List.suffix_cons '@' rest).isInfix inside'
      intro entry mem
      rcases List.mem_append.1 mem with mem | mem
      · exact h entry mem
      · rw [List.mem_singleton] at mem
        rw [mem]
        exact holdsCloser_of_within ((trim_within _).trans (splitAtBlank_within rest).2) behind
  · split
    · exact h
    · next tag text last =>
        intro entry mem
        rcases List.mem_append.1 mem with mem | mem
        · exact h entry (List.dropLast_subset _ mem)
        · rw [List.mem_singleton] at mem
          rw [mem]
          exact holdsCloser_continued (h _ (List.mem_of_getLast? last)) inside'

theorem open_foldl {lines : List Text} {parts : JavadocParts} (h : parts.Open)
    (inside : ∀ line ∈ lines, holdsCloser line = false) : (lines.foldl addLine parts).Open := by
  induction lines generalizing parts with
  | nil => exact h
  | cons line others ih =>
      exact ih (open_addLine h (inside line List.mem_cons_self))
        fun line mem => inside line (List.mem_cons_of_mem _ mem)

end JavadocParts

namespace JavadocDraft

variable {draft : JavadocDraft} {description : List Text}

/-- What a block tag adds to the texts of a draft is a part of its text, trimmed. -/
theorem texts_addBlockTag {tag text said : Text}
    (mem : said ∈ (draft.addBlockTag tag text).1.node.texts) :
    said ∈ draft.node.texts ∨ ∃ part, part <:+: text ∧ said = trim part := by
  have own : ∃ part, part <:+: text ∧ trim text = trim part := ⟨text, List.infix_rfl, rfl⟩
  have rest : ∃ part, part <:+: text ∧ trim (splitAtBlank text).2 = trim part :=
    ⟨_, (splitAtBlank_within text).2, rfl⟩
  have either : ∀ {present : Option Text} {change : JavadocDraft},
      said ∈ (draft.once tag present change).1.node.texts →
      said ∈ draft.node.texts ∨ said ∈ change.node.texts := by
    intro present change mem
    rw [once] at mem
    split at mem
    · exact .inl mem
    · exact .inr mem
  rw [addBlockTag] at mem
  split at mem
  · simp only at mem
    split at mem
    · exact .inl mem
    · simp only [Javadoc.texts, JavadocDraft.node, addParam, List.map_append, List.mem_append,
        List.map_cons, List.map_nil, List.mem_singleton, trim_trim] at mem ⊢
      grind
  · split at mem
    · rcases either mem with mem | mem
      · exact .inl mem
      · simp only [Javadoc.texts, JavadocDraft.node, withReturns, Option.toList_some,
          List.mem_append, List.mem_singleton] at mem ⊢
        grind
    · split at mem
      · rcases either mem with mem | mem
        · exact .inl mem
        · simp only [Javadoc.texts, JavadocDraft.node, withAuthor, Option.toList_some,
            List.mem_append, List.mem_singleton] at mem ⊢
          grind
      · split at mem
        · rcases either mem with mem | mem
          · exact .inl mem
          · simp only [Javadoc.texts, JavadocDraft.node, withVersion, Option.toList_some,
              List.mem_append, List.mem_singleton] at mem ⊢
            grind
        · split at mem
          · rcases either mem with mem | mem
            · exact .inl mem
            · simp only [Javadoc.texts, JavadocDraft.node, withSince, Option.toList_some,
                List.mem_append, List.mem_singleton] at mem ⊢
              grind
          · simp only [Javadoc.texts, JavadocDraft.node, addTag, List.map_append, List.mem_append,
              List.map_cons, List.map_nil, List.mem_singleton] at mem ⊢
            grind

theorem description_addBlockTag (draft : JavadocDraft) (tag text : Text) :
    (draft.addBlockTag tag text).1.description = draft.description := by
  have once : ∀ {present : Option Text} {change : JavadocDraft},
      change.description = draft.description →
      (draft.once tag present change).1.description = draft.description := by
    intro present change same
    rw [JavadocDraft.once]
    split
    · rfl
    · exact same
  rw [addBlockTag]
  split
  · simp only
    split <;> rfl
  · repeat' split
    all_goals first | exact once rfl | rfl

/-- Through any block tags a draft keeps its description, and trimmed texts that close no
comment. -/
theorem addBlockTags_spec {entries : List (Text × Text)}
    (inside : ∀ entry ∈ entries, holdsCloser entry.2 = false) (h : ∀ text ∈ draft.node.texts,
      StartsInked text ∧ EndsInked text ∧ holdsCloser text = false) :
    (draft.addBlockTags entries).1.description = draft.description ∧
      ∀ text ∈ (draft.addBlockTags entries).1.node.texts,
        StartsInked text ∧ EndsInked text ∧ holdsCloser text = false := by
  induction entries generalizing draft with
  | nil => exact ⟨rfl, h⟩
  | cons entry others ih =>
      obtain ⟨tag, text⟩ := entry
      have own := inside (tag, text) List.mem_cons_self
      have next : ∀ said ∈ (draft.addBlockTag tag text).1.node.texts,
          StartsInked said ∧ EndsInked said ∧ holdsCloser said = false := by
        intro said mem
        rcases texts_addBlockTag mem with mem | ⟨part, listed, rfl⟩
        · exact h said mem
        · exact ⟨(trim_spec part).1, (trim_spec part).2.1,
            holdsCloser_of_within ((trim_within part).trans listed) own⟩
      obtain ⟨same, texts⟩ := ih (fun entry mem => inside entry (List.mem_cons_of_mem _ mem)) next
      rw [addBlockTags]
      exact ⟨same.trans (description_addBlockTag draft tag text), texts⟩

end JavadocDraft

/-- A draft makes canonical Javadoc if its texts are in their place and close no comment. -/
theorem JavadocDraft.canonical_of_build {draft : JavadocDraft} {node : Javadoc}
    (plain : ∀ line ∈ draft.description, '\n' ∉ line ∧ EndsInked line)
    (texts : ∀ text ∈ draft.node.texts,
      StartsInked text ∧ EndsInked text ∧ holdsCloser text = false)
    (built : draft.build = .ok node) : node.Canonical := by
  obtain ⟨clean, rfl⟩ := settle_eq_ok_iff.1 built
  obtain ⟨starts, ends, -⟩ := strip_spec Text.isBlank draft.description
  simp only [JavadocDraft.defects, List.append_eq_nil_iff, List.flatMap_eq_nil_iff,
    JavadocDraft.descriptionDefects, JavadocDraft.paramDefects, JavadocDraft.tagDefects,
    JavadocDraft.tagTextDefects, requirement_eq_nil, decide_eq_true_eq, Bool.not_eq_true']
    at clean
  obtain ⟨⟨⟨⟨⟨⟨description, params⟩, returns⟩, author⟩, version⟩, since⟩, tags⟩ := clean
  constructor
  · exact fun line mem => plain line (mem_of_mem_strip mem)
  · exact starts
  · exact ends
  · exact fun line mem => (description line mem).2
  · exact fun line mem => (description line mem).1
  · intro text mem
    obtain ⟨starts, ends, inside⟩ := texts text mem
    refine ⟨?_, starts, ends, inside⟩
    simp only [Javadoc.texts, JavadocDraft.node, List.mem_append, List.mem_map] at mem
    rcases mem with ((((mem | mem) | mem) | mem) | mem) | mem
    · obtain ⟨param, listed, rfl⟩ := mem
      exact (params param listed).2
    · exact returns text mem
    · exact author text mem
    · exact version text mem
    · exact since text mem
    · obtain ⟨tag, listed, rfl⟩ := mem
      exact (tags tag listed).2
  · exact fun param mem => (params param mem).1
  · exact fun tag mem => (tags tag mem).1
  · rfl

/-- Javadoc that is read off a token of a text is canonical. -/
theorem Javadoc.canonical_of_cut {text rest : Text} {token : Token} {node : Javadoc}
    (cut : Cut text token rest) (kind : token.kind = .docComment)
    (built : (JavadocDraft.ofBody (between "/**".toList token.text)).1.build = .ok node) :
    node.Canonical := by
  obtain ⟨body, whole, inside⟩ := cut.exists_body_of_docComment kind
  rw [whole, between_append, JavadocDraft.ofBody] at built
  have lines : ∀ line ∈ commentLines body, holdsCloser line = false :=
    fun line mem => holdsCloser_of_within (infix_of_mem_commentLines mem) inside
  have opened : ((commentLines body).foldl JavadocParts.addLine {}).Open :=
    JavadocParts.open_foldl nofun lines
  generalize (commentLines body).foldl JavadocParts.addLine {} = parts at built opened
  have empty : ∀ text ∈ (parts.description.foldl JavadocDraft.addDescription {}).node.texts,
      StartsInked text ∧ EndsInked text ∧ holdsCloser text = false := by
    rw [JavadocDraft.foldl_addDescription]
    nofun
  obtain ⟨same, texts⟩ := JavadocDraft.addBlockTags_spec opened empty
  rw [JavadocDraft.foldl_addDescription] at built same texts
  refine JavadocDraft.canonical_of_build (fun line mem => ?_) texts built
  rw [same] at mem
  obtain ⟨part, -, listed⟩ := List.mem_flatMap.1 mem
  have own := plain_of_mem_trimmedLines listed
  exact ⟨own.1, own.2.1⟩

end JavaUnit
