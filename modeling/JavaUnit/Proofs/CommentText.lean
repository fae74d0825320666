/-
Module: JavaUnit.Proofs.CommentText
Purpose: The text of comments, there and back: which texts a comment token encloses, and that the
  lines of a rendered comment are the lines it was rendered from, at any indentation.
Main exports: commentRest_closer, commentLines_spread, Comment.Canonical, Comment.cut_render
-/
import JavaUnit.Proofs.Indent
import JavaUnit.Reading.Comment

namespace JavaUnit

/-! ### Closing delimiters -/

variable {left right body : Text} {previous c : Char}

theorem holdsCloser_cons (c : Char) (text : Text) :
    holdsCloser (c :: text) = (decide (c = '*' ∧ text.head? = some '/') || holdsCloser text) := by
  by_cases both : c = '*' ∧ text.head? = some '/'
  · obtain ⟨rfl, first⟩ := both
    cases text with
    | nil => cases first
    | cons d rest =>
        rw [List.head?_cons, Option.some.injEq] at first
        rw [first]
        simp [holdsCloser]
  · rw [holdsCloser.eq_def]
    split
    · next same =>
        rw [List.cons.injEq] at same
        exact absurd ⟨same.1, by rw [same.2]; rfl⟩ both
    · next same =>
        rw [List.cons.injEq] at same
        rw [← same.2]
        simp [both]
    · next same => cases same

/-- A character that is in no delimiter keeps the two sides of it apart. -/
theorem holdsCloser_append_cons (star : c ≠ '*') (slash : c ≠ '/') :
    holdsCloser (left ++ c :: right) = (holdsCloser left || holdsCloser right) := by
  induction left with
  | nil =>
      rw [List.nil_append, holdsCloser_cons]
      simp [star, holdsCloser]
  | cons d rest ih =>
      rw [List.cons_append, holdsCloser_cons, holdsCloser_cons, ih]
      cases rest with
      | nil => simp [slash]
      | cons => simp [Bool.or_assoc]

theorem holdsCloser_of_append (h : holdsCloser (left ++ right) = false) :
    holdsCloser left = false ∧ holdsCloser right = false := by
  induction left with
  | nil => exact ⟨rfl, h⟩
  | cons d rest ih =>
      rw [List.cons_append, holdsCloser_cons, Bool.or_eq_false_iff] at h
      refine ⟨?_, (ih h.2).2⟩
      rw [holdsCloser_cons, Bool.or_eq_false_iff]
      refine ⟨?_, (ih h.2).1⟩
      cases rest with
      | nil => simp
      | cons => simpa using h.1

/-- A star at the end closes nothing. -/
theorem holdsCloser_concat_star : holdsCloser (left ++ ['*']) = holdsCloser left := by
  induction left with
  | nil => rfl
  | cons d rest ih =>
      rw [List.cons_append, holdsCloser_cons, holdsCloser_cons, ih]
      cases rest <;> simp

/-- A text without stars closes nothing. -/
theorem holdsCloser_of_notMem (h : '*' ∉ body) : holdsCloser body = false := by
  induction body with
  | nil => rfl
  | cons d rest ih =>
      rw [List.mem_cons, not_or] at h
      rw [holdsCloser_cons, ih h.2]
      simp [Ne.symm h.1]

/-- A comment goes on up to the first closing delimiter. -/
theorem commentRest_closer (inside : holdsCloser (previous :: (body ++ ['*'])) = false) :
    CommentRest previous (body ++ "*/".toList) := by
  induction body generalizing previous with
  | nil =>
      show CommentRest previous ['*', '/']
      exact .char (by simp) .close
  | cons d rest ih =>
      rw [List.cons_append, holdsCloser_cons, Bool.or_eq_false_iff] at inside
      exact .char (by simpa using inside.1) (ih inside.2)

/-- The body of a comment token ends with the first closing delimiter in it. -/
theorem CommentRest.exists_closer (h : CommentRest previous body) :
    ∃ front, previous :: body = front ++ "*/".toList ∧ holdsCloser front = false := by
  suffices general : ∃ front, previous :: body = front ++ "*/".toList ∧
      holdsCloser (front ++ ['*']) = false by
    obtain ⟨front, whole, inside⟩ := general
    exact ⟨front, whole, (holdsCloser_of_append inside).1⟩
  induction h with
  | close => exact ⟨[], rfl, rfl⟩
  | @char previous c body goesOn tail ih =>
      obtain ⟨front, whole, inside⟩ := ih
      refine ⟨previous :: front, by rw [whole]; rfl, ?_⟩
      rw [List.cons_append, holdsCloser_cons, inside, Bool.or_false, decide_eq_false_iff_not]
      have first : (front ++ ['*']).head? = some c := by
        cases front with
        | nil =>
            have same := congrArg List.head? whole
            simpa using same.symm
        | cons d rest =>
            have same := congrArg List.head? whole
            simpa using same.symm
      rw [first, Option.some.injEq]
      exact goesOn

/-! ### Between delimiters -/

namespace Text

@[simp] theorem afterLead?_append (lead text : Text) : afterLead? lead (lead ++ text) = some text := by
  induction lead with
  | nil => rfl
  | cons c rest ih =>
      rw [List.cons_append, afterLead?, if_pos rfl]
      exact ih

theorem afterLead?_eq_some {lead text rest : Text} (h : afterLead? lead text = some rest) :
    text = lead ++ rest := by
  induction lead generalizing text with
  | nil =>
      cases text <;> cases h <;> rfl
  | cons c lead ih =>
      cases text with
      | nil => cases h
      | cons d text =>
          rw [afterLead?] at h
          split at h
          · next same => rw [← same, ih h, List.cons_append]
          · cases h

@[simp] theorem beforeTail?_append (text tail : Text) : beforeTail? tail (text ++ tail) = some text := by
  rw [beforeTail?, List.reverse_append, afterLead?_append]
  simp

theorem beforeTail?_eq_some {tail text front : Text} (h : beforeTail? tail text = some front) :
    text = front ++ tail := by
  rw [beforeTail?, Option.map_eq_some_iff] at h
  obtain ⟨reversed, after, rfl⟩ := h
  have whole := congrArg List.reverse (afterLead?_eq_some after)
  simpa using whole

end Text

theorem between_append (opening body : Text) :
    between opening (opening ++ body ++ "*/".toList) = body := by
  rw [between, List.append_assoc, Text.afterLead?_append, Option.bind_some,
    Text.beforeTail?_append]
  rfl

/-! ### The lines of a comment -/

open Text

/-- A line of a comment with its decoration, behind `count` more blanks. -/
def starText (count : Nat) (line : Text) : Text :=
  List.replicate count ' ' ++ ' ' :: '*' :: (if line = [] then [] else ' ' :: line)

theorem starLine_eq (line : Text) : starLine line = starText 0 line ++ ['\n'] := by
  rw [starLine, starText]
  split <;> simp

theorem undecorated_starText {count : Nat} {line : Text} (ends : EndsInked line) :
    undecorated (starText count line) = line := by
  have start : trimStart (starText count line) =
      '*' :: (if line = [] then [] else ' ' :: line) := by
    rw [starText, List.append_cons]
    refine trimStart_append ?_ (startsOff_cons.2 (by decide))
    rw [isBlank_append, isBlank_replicate]
    rfl
  rw [undecorated, start]
  split
  · next empty => simp [empty, afterLead?, trimEnd]
  · simpa [afterLead?] using trimEnd_eq_self_iff.2 ends

theorem undecorated_of_isBlank {line : Text} (blank : line.isBlank = true) :
    undecorated line = [] := by
  have start : trimStart line = [] := by
    have trimmed : trimStart (line ++ []) = [] := trimStart_append blank startsOff_nil
    rwa [List.append_nil] at trimmed
  rw [undecorated, start]
  rfl

theorem notMem_starText {count : Nat} {line : Text} (plain : '\n' ∉ line) :
    '\n' ∉ starText count line := by
  rw [starText]
  split <;> simp [plain]

theorem split_flatMap_break {lines : List Text} (plain : ∀ line ∈ lines, '\n' ∉ line)
    {last : Text} (plain' : '\n' ∉ last) :
    split '\n' (lines.flatMap (· ++ ['\n']) ++ last) = lines ++ [last] := by
  induction lines with
  | nil => exact split_of_notMem plain'
  | cons line others ih =>
      rw [List.flatMap_cons, List.append_assoc, List.append_assoc, List.singleton_append,
        split_append, split_of_notMem (plain line List.mem_cons_self),
        ih fun line mem => plain line (List.mem_cons_of_mem _ mem)]
      rfl

/-- What stands between the delimiters of a comment on several lines. -/
def spreadBody (count : Nat) (lines : List Text) : Text :=
  '\n' :: (lines.flatMap (fun line => starText count line ++ ['\n'])
    ++ List.replicate (count + 1) ' ')

/-- The lines of a comment that is spread out are the given ones, between two empty ones. -/
theorem commentLines_spreadBody {count : Nat} {lines : List Text}
    (plain : ∀ line ∈ lines, '\n' ∉ line ∧ EndsInked line) :
    commentLines (spreadBody count lines) = [] :: (lines ++ [[]]) := by
  have parts : split '\n' (spreadBody count lines) =
      [] :: (lines.map (starText count) ++ [List.replicate (count + 1) ' ']) := by
    rw [spreadBody, split_mark]
    have flat : lines.flatMap (fun line => starText count line ++ ['\n']) =
        (lines.map (starText count)).flatMap (· ++ ['\n']) := by
      rw [List.flatMap_map]
    rw [flat, split_flatMap_break]
    · intro line mem
      obtain ⟨line, listed, rfl⟩ := List.mem_map.1 mem
      exact notMem_starText (plain line listed).1
    · simp
  rw [commentLines, if_pos (by simp [spreadBody]), parts, List.map_cons, List.map_append,
    List.map_map, List.map_singleton, undecorated_of_isBlank (isBlank_replicate _)]
  have same : ∀ line ∈ lines, (undecorated ∘ starText count) line = id line :=
    fun line mem => undecorated_starText (plain line mem).2
  rw [List.map_congr_left same, List.map_id]
  rfl

/-- Indenting a comment on several lines. -/
theorem shift_spread {count : Nat} {opening : Text} {lines : List Text} (plain' : '\n' ∉ opening)
    (plain : ∀ line ∈ lines, '\n' ∉ line) :
    shift count (spread opening (lines.flatMap starLine)) =
      opening ++ spreadBody count lines ++ "*/".toList := by
  have inner : ∀ lines : List Text, (∀ line ∈ lines, '\n' ∉ line) →
      shift count ('\n' :: (lines.flatMap starLine ++ " */".toList)) =
        spreadBody count lines ++ "*/".toList := by
    intro lines plain
    induction lines with
    | nil =>
        show shift count ('\n' :: ' ' :: ['*', '/']) = spreadBody count [] ++ ['*', '/']
        rw [shift_break (by decide), shift_of_notMem (by decide), spreadBody]
        simp [List.replicate_succ']
    | cons line others ih =>
        have ih := ih fun line mem => plain line (List.mem_cons_of_mem _ mem)
        have whole : '\n' :: ((line :: others).flatMap starLine ++ " */".toList) =
            '\n' :: ' ' :: (('*' :: (if line = [] then [] else ' ' :: line)) ++
              '\n' :: (others.flatMap starLine ++ " */".toList)) := by
          rw [List.flatMap_cons, starLine_eq, starText]
          simp
        have bare : '\n' ∉ '*' :: (if line = [] then [] else ' ' :: line) := by
          have := plain line List.mem_cons_self
          split <;> simp [this]
        rw [whole, shift_break (by decide), shift_append_of_notMem bare, ih, spreadBody, spreadBody,
          List.flatMap_cons, starText]
        simp
  rw [spread, List.append_assoc, List.append_assoc, List.singleton_append,
    shift_append_of_notMem plain', inner lines plain, List.append_assoc]

theorem holdsCloser_spreadBody {count : Nat} {lines : List Text}
    (inside : ∀ line ∈ lines, holdsCloser line = false) :
    holdsCloser (spreadBody count lines) = false := by
  have blanks : holdsCloser (List.replicate (count + 1) ' ') = false :=
    holdsCloser_of_notMem (by simp)
  rw [spreadBody, holdsCloser_cons]
  suffices tail : holdsCloser (lines.flatMap (fun line => starText count line ++ ['\n'])
      ++ List.replicate (count + 1) ' ') = false by
    simp [tail]
  induction lines with
  | nil => exact blanks
  | cons line others ih =>
      rw [List.flatMap_cons, List.append_assoc, List.append_assoc, List.singleton_append,
        holdsCloser_append_cons (by decide) (by decide),
        ih fun line mem => inside line (List.mem_cons_of_mem _ mem), Bool.or_false, starText,
        holdsCloser_append_cons (by decide) (by decide), holdsCloser_of_notMem (by simp),
        Bool.false_or, holdsCloser_cons]
      split
      · rfl
      · rw [holdsCloser_cons, inside line List.mem_cons_self]
        simp

/-! ### Enclosed lines -/

/-- `text` is a comment between delimiters that encloses some lines and nothing else but empty ones
in front of them and behind them. -/
structure Encloses (opening text : Text) (lines : List Text) : Prop where
  exists_body : ∃ body, text = opening ++ body ++ "*/".toList ∧
    body.head?.any JavaUnit.isBlank = true ∧ holdsCloser body = false ∧
    ∃ front back, commentLines body = front ++ lines ++ back ∧ (∀ line ∈ front, line = []) ∧
      ∀ line ∈ back, line = []

theorem encloses_nil (opening : Text) : Encloses opening (opening ++ " */".toList) [] :=
  ⟨[' '], by rw [List.append_assoc]; rfl, by decide, rfl, [[]], [], rfl, by simp, by simp⟩

/-- One line fits between the delimiters. -/
theorem encloses_condensed (opening : Text) {line : Text} (plain : '\n' ∉ line)
    (ends : EndsInked line) (inside : holdsCloser line = false) :
    Encloses opening (condensed opening line) [line] := by
  refine ⟨' ' :: (line ++ [' ']), ?_, rfl, ?_, [], [], ?_, by simp, by simp⟩
  · rw [condensed]
    have closer : " */".toList = [' '] ++ "*/".toList := rfl
    rw [closer]
    simp
  · rw [holdsCloser_cons, holdsCloser_append_cons (by decide) (by decide), inside]
    rfl
  · rw [commentLines, if_neg (by simp [plain])]
    have front : afterLead? [' '] (' ' :: (line ++ [' '])) = some (line ++ [' ']) :=
      afterLead?_append [' '] _
    rw [front, Option.getD_some]
    show [trimEnd ((beforeTail? [' '] (line ++ [' '])).getD (line ++ [' ']))] = [line]
    rw [beforeTail?_append, Option.getD_some, trimEnd_eq_self_iff.2 ends]

theorem encloses_spread (count : Nat) {opening : Text} (plain' : '\n' ∉ opening) {lines : List Text}
    (plain : ∀ line ∈ lines, '\n' ∉ line ∧ EndsInked line)
    (inside : ∀ line ∈ lines, holdsCloser line = false) :
    Encloses opening (shift count (spread opening (lines.flatMap starLine))) lines := by
  refine ⟨spreadBody count lines, shift_spread plain' fun line mem => (plain line mem).1, rfl,
    holdsCloser_spreadBody inside, [[]], [[]], ?_, by simp, by simp⟩
  rw [commentLines_spreadBody plain]
  rfl

namespace Encloses

variable {text rest : Text} {lines : List Text}

theorem cut_block (h : Encloses "/*".toList text lines) :
    Cut (text ++ rest) ⟨.blockComment, text⟩ rest := by
  obtain ⟨body, rfl, first, inside, -⟩ := h.exists_body
  have closed : CommentRest '\x00' (body ++ ['*', '/']) := by
    apply commentRest_closer
    rw [holdsCloser_cons, holdsCloser_concat_star, inside]
    rfl
  have plain : (body ++ ['*', '/']).head? ≠ some '*' := by
    cases body with
    | nil => cases first
    | cons c more =>
        intro star
        rw [List.cons_append, List.head?_cons, Option.some.injEq] at star
        rw [star] at first
        cases first
  have spelled := @Spelled.comment _ rest closed
  rw [if_neg (by rw [decide_eq_false plain]; simp)] at spelled
  have cut := Cut.intro spelled
  simpa using cut

theorem cut_doc (h : Encloses "/**".toList text lines) :
    Cut (text ++ rest) ⟨.docComment, text⟩ rest := by
  obtain ⟨body, rfl, first, inside, -⟩ := h.exists_body
  have closed : CommentRest '\x00' ('*' :: body ++ ['*', '/']) := by
    apply commentRest_closer
    rw [holdsCloser_cons, holdsCloser_concat_star, holdsCloser_cons, inside]
    cases body with
    | nil => cases first
    | cons c more =>
        rw [List.head?_cons, Option.any_some] at first
        have other : c ≠ '/' := by
          rintro rfl
          cases first
        simp [other]
  have slash : ('*' :: body ++ ['*', '/'])[1]? ≠ some '/' := by
    cases body with
    | nil => cases first
    | cons c more =>
        intro slash
        rw [List.cons_append, List.getElem?_cons_succ, List.cons_append, List.getElem?_cons_zero,
          Option.some.injEq] at slash
        rw [slash] at first
        cases first
  have spelled := @Spelled.comment _ rest closed
  rw [if_pos (by simpa using slash)] at spelled
  have cut := Cut.intro spelled
  simpa using cut

end Encloses

/-! ### Comments -/

/-- The kind of token that a comment of a style is. -/
def CommentStyle.kind : CommentStyle → Kind
  | .line => .lineComment
  | .block => .blockComment
  | .doc => .docComment

/-- What every comment that is read comes to: lines that can be told from their decoration. -/
structure Comment.Canonical (node : Comment) : Prop where
  plain : ∀ line ∈ node.lines, '\n' ∉ line ∧ EndsInked line
  starts : StartsOff Text.isBlank node.lines
  ends : EndsOff Text.isBlank node.lines
  inside : node.style ≠ .line → ∀ line ∈ node.lines, holdsCloser line = false
  single : ∀ line, node.lines = [line] → StartsInked line
  short : node.style = .line → node.lines.length ≤ 1 ∧ ∀ line ∈ node.lines, '\r' ∉ line
  editable : node.editable = true

theorem trimmedLines_unlines {lines : List Text} (present : lines ≠ [])
    (plain : ∀ line ∈ lines, '\n' ∉ line ∧ EndsInked line) :
    trimmedLines (unlines lines) = lines := by
  have same : ∀ line ∈ lines, trimEnd line = id line :=
    fun line mem => trimEnd_eq_self_iff.2 (plain line mem).2
  rw [trimmedLines, split_unlines present fun line mem => (plain line mem).1,
    List.map_congr_left same, List.map_id]

namespace Comment

variable {node : Comment} {text rest : Text}

/-- A comment between delimiters that encloses the lines of a node is read as that node. -/
theorem build_of_encloses {opening : Text} (canonical : node.Canonical)
    (style : node.style ≠ .line) (h : Encloses opening text node.lines) :
    (CommentDraft.addText { style := node.style }
      (unlines (commentLines (between opening text)))).build = .ok node := by
  obtain ⟨body, rfl, -, -, front, back, lines, none, none'⟩ := h.exists_body
  have plain : ∀ line ∈ commentLines body, '\n' ∉ line ∧ EndsInked line := by
    intro line mem
    rw [lines, List.mem_append, List.mem_append] at mem
    have empty : line = [] → '\n' ∉ line ∧ EndsInked line := by
      rintro rfl
      exact ⟨by simp, endsOff_nil⟩
    rcases mem with (mem | mem) | mem
    · exact empty (none line mem)
    · exact canonical.plain line mem
    · exact empty (none' line mem)
  have present : commentLines body ≠ [] := by
    rw [commentLines]
    split
    · simpa using split_ne_nil '\n' body
    · simp
  have blank : ∀ {lines : List Text}, (∀ line ∈ lines, line = []) →
      ∀ line ∈ lines, Text.isBlank line = true := by
    intro lines none line mem
    rw [none line mem]
    rfl
  rw [between_append, CommentDraft.addText, trimmedLines_unlines present plain]
  have content : CommentDraft.content { style := node.style, lines := commentLines body } =
      node.lines := by
    rw [CommentDraft.content, stripEdges_eq_strip]
    show strip Text.isBlank (commentLines body) = _
    rw [lines, strip_append (blank none) (blank none') canonical.starts canonical.ends]
  rw [CommentDraft.build, settle_eq_ok_iff, List.nil_append]
  constructor
  · have clean : (node.lines.flatMap fun line =>
        requirement (!holdsCloser line) .commentCloser) = [] := by
      rw [List.flatMap_eq_nil_iff]
      intro line mem
      rw [canonical.inside style line mem]
      rfl
    rw [CommentDraft.defects, content]
    cases kind : node.style with
    | line => exact absurd kind style
    | block => exact clean
    | doc => exact clean
  · rw [CommentDraft.node, content]
    have editable := canonical.editable
    have single := canonical.single
    obtain ⟨style', lines', editable'⟩ := node
    cases style' with
    | line => exact absurd rfl style
    | block | doc =>
        simp only at editable single
        subst editable
        match lines' with
        | [] => rfl
        | [line] =>
            have trimmed := trim_of_inked (single line rfl) (canonical.plain line (by simp)).2
            simp [trimmed]
        | _ :: _ :: _ => rfl

/-- The rendering of a comment between delimiters encloses its lines, at any indentation. -/
theorem encloses_render (canonical : node.Canonical) (style : node.style ≠ .line) (count : Nat) :
    Encloses node.style.opening (shift count node.render) node.lines := by
  have inside := canonical.inside style
  have plain := canonical.plain
  obtain ⟨style', lines, editable⟩ := node
  have bare : '\n' ∉ style'.opening := by
    cases style' <;> decide
  have spreads := encloses_spread count bare plain inside
  match lines with
  | [] =>
      have whole : render ⟨style', [], editable⟩ = style'.opening ++ " */".toList := by
        cases style' with
        | line => exact absurd rfl style
        | block => rfl
        | doc => rfl
      rw [whole, shift_of_notMem (by simp [bare])]
      exact encloses_nil _
  | [line] =>
      have whole : render ⟨style', [line], editable⟩ =
          if fitsCondensed line then condensed style'.opening line
          else spread style'.opening (starLine line) := by
        cases style' with
        | line => exact absurd rfl style
        | block => rfl
        | doc => rfl
      have own := plain line (by simp)
      rw [whole]
      split
      · have short : '\n' ∉ condensed style'.opening line := by
          rw [condensed]
          simp [bare, own.1]
        rw [shift_of_notMem short]
        exact encloses_condensed _ own.1 own.2 (inside line (by simp))
      · simpa using spreads
  | first :: second :: others =>
      have whole : render ⟨style', first :: second :: others, editable⟩ =
          spread style'.opening ((first :: second :: others).flatMap starLine) := by
        cases style' with
        | line => exact absurd rfl style
        | block => rfl
        | doc => rfl
      rw [whole]
      exact spreads

/-- The text of a line comment behind its slashes. -/
def lineBody (lines : List Text) : Text :=
  if lines = [] then [] else ' ' :: join [' '] lines

theorem render_of_line (style : node.style = .line) :
    node.render = '/' :: '/' :: lineBody node.lines := by
  obtain ⟨style', lines, editable⟩ := node
  simp only at style
  subst style
  cases lines with
  | nil => rfl
  | cons line others =>
      rw [lineBody, if_neg (List.cons_ne_nil _ _)]
      rfl

theorem build_of_line (canonical : node.Canonical) (style : node.style = .line) :
    (CommentDraft.addText { style := .line } (lineBody node.lines)).build = .ok node := by
  have short := (canonical.short style).1
  have single := canonical.single
  have plain := canonical.plain
  have starts := canonical.starts
  have editable := canonical.editable
  obtain ⟨style', lines, editable'⟩ := node
  simp only at style editable
  subst style editable
  match lines with
  | [] => rfl
  | [line] =>
      have own := plain line (by simp)
      have ink : line.isBlank = false := startsOff_cons.1 starts
      have some : line ≠ [] := by
        rintro rfl
        cases ink
      have ends : EndsInked (' ' :: line) := by
        rw [← List.singleton_append]
        exact (endsOff_append some).2 own.2
      have parts : trimmedLines (lineBody [line]) = [' ' :: line] := by
        have bare : '\n' ∉ ' ' :: line := by simp [own.1]
        rw [trimmedLines, lineBody, if_neg (List.cons_ne_nil _ _)]
        rw [join_singleton, split_of_notMem bare, List.map_singleton, trimEnd_eq_self_iff.2 ends]
      have ink' : Text.isBlank (' ' :: line) = false := by
        rw [← List.singleton_append, isBlank_append, ink, Bool.and_false]
      have content : CommentDraft.content { style := .line, lines := [' ' :: line] } =
          [' ' :: line] := by
        rw [CommentDraft.content, stripEdges_eq_strip]
        have ends : EndsOff Text.isBlank ([] ++ [' ' :: line]) := endsOff_concat.2 ink'
        exact strip_of_off (startsOff_cons.2 ink') ends
      have trimmed : trim (' ' :: line) = line := by
        have whole : trim ([' '] ++ line ++ []) = line :=
          trim_append rfl rfl (single line rfl) own.2
        rwa [List.append_nil] at whole
      rw [CommentDraft.addText, parts, List.nil_append, CommentDraft.build, settle_eq_ok_iff]
      constructor
      · rw [CommentDraft.defects, content]
        rfl
      · rw [CommentDraft.node, content]
        simp [trimmed]
  | _ :: _ :: _ =>
      simp at short

theorem endsLine_of_mem_lineBody (canonical : node.Canonical) (style : node.style = .line) :
    ∀ c ∈ lineBody node.lines, endsLine c = false := by
  have short := canonical.short style
  have plain := canonical.plain
  intro c mem
  rw [lineBody] at mem
  match lines : node.lines with
  | [] => simp [lines] at mem
  | [line] =>
      rw [lines, if_neg (List.cons_ne_nil _ _), join_singleton, List.mem_cons] at mem
      have own := plain line (by simp [lines])
      have own' := short.2 line (by simp [lines])
      rcases mem with rfl | mem
      · rfl
      · have feed : c ≠ '\n' := fun same => own.1 (same ▸ mem)
        have carriage : c ≠ '\r' := fun same => own' (same ▸ mem)
        simp [endsLine, feed, carriage]
  | _ :: _ :: _ => simp [lines] at short

theorem cut_line (canonical : node.Canonical) (style : node.style = .line)
    (ends : rest.head?.all endsLine = true) :
    Cut (node.render ++ rest) ⟨.lineComment, node.render⟩ rest := by
  rw [render_of_line style]
  exact .intro (.lineComment (endsLine_of_mem_lineBody canonical style) ends)

/-- The rendering of a comment is read as that comment, at any indentation. Behind a line comment
its line has to end. -/
theorem cut_render (canonical : node.Canonical) (count : Nat)
    (ends : node.style = .line → rest.head?.all endsLine = true) :
    ∃ token draft, Cut (shift count node.render ++ rest) token rest ∧
      token.kind = node.style.kind ∧ commentDraft? token = some draft ∧ draft.build = .ok node := by
  cases style : node.style with
  | line =>
      have plain : '\n' ∉ node.render := by
        rw [render_of_line style]
        intro mem
        rw [List.mem_cons, List.mem_cons] at mem
        rcases mem with mem | mem | mem
        · cases mem
        · cases mem
        · cases endsLine_of_mem_lineBody canonical style _ mem
      rw [shift_of_notMem plain]
      refine ⟨_, _, cut_line canonical style (ends style), rfl, rfl, ?_⟩
      have body := build_of_line canonical style
      have lead : afterLead? "//".toList node.render = some (lineBody node.lines) := by
        rw [render_of_line style]
        exact afterLead?_append ['/', '/'] _
      rw [lead]
      exact body
  | block =>
      have off : node.style ≠ .line := by simp [style]
      have encloses := encloses_render canonical off count
      have built := build_of_encloses canonical off encloses
      rw [style] at encloses built
      exact ⟨_, _, encloses.cut_block, rfl, rfl, built⟩
  | doc =>
      have off : node.style ≠ .line := by simp [style]
      have encloses := encloses_render canonical off count
      have built := build_of_encloses canonical off encloses
      rw [style] at encloses built
      exact ⟨_, _, encloses.cut_doc, rfl, rfl, built⟩

end Comment

theorem plain_of_mem_trimmedLines {text line : Text} (mem : line ∈ trimmedLines text) :
    '\n' ∉ line ∧ EndsInked line ∧ line <:+: text := by
  obtain ⟨part, listed, rfl⟩ := List.mem_map.1 mem
  obtain ⟨ends, back, -, whole⟩ := trimEnd_spec part
  have front : trimEnd part <:+: part := ⟨[], back, by rw [List.nil_append, ← whole]⟩
  refine ⟨fun feed => notMem_of_mem_split listed (front.mem feed), ends, front.trans ?_⟩
  exact infix_of_mem_split listed

theorem isBlank_trim (text : Text) : Text.isBlank (trim text) = text.isBlank := by
  rw [Bool.eq_iff_iff, ← trim_eq_nil_iff, ← trim_eq_nil_iff, trim_trim]

theorem trim_within (text : Text) : trim text <:+: text := by
  obtain ⟨-, -, front, back, -, -, whole⟩ := trim_spec text
  exact ⟨front, back, whole.symm⟩

/-- A part of a text that does not close a comment does not close one either. -/
theorem holdsCloser_of_within {part text : Text} (h : part <:+: text)
    (inside : holdsCloser text = false) : holdsCloser part = false := by
  obtain ⟨front, back, rfl⟩ := h
  exact (holdsCloser_of_append (holdsCloser_of_append inside).1).2

namespace CommentDraft

theorem foldl_addText (texts : List Text) (draft : CommentDraft) :
    texts.foldl addText draft =
      { draft with lines := draft.lines ++ texts.flatMap trimmedLines } := by
  induction texts generalizing draft with
  | nil => simp
  | cons text others ih =>
      rw [List.foldl_cons, ih]
      simp [addText]

/-- The lines of a comment are either kept or trimmed, and trimming a line leaves it blank or not. -/
theorem exists_lines (draft : CommentDraft) :
    ∃ f : Text → Text, draft.node.lines = draft.content.map f ∧
      (∀ line, EndsInked line → EndsInked (f line)) ∧ (∀ line, f line <:+: line) ∧
      (∀ line, Text.isBlank (f line) = Text.isBlank line) ∧
      ∀ line, draft.content = [line] → StartsInked (f line) := by
  have either : draft.node.lines = draft.content.map trim ∨
      draft.node.lines = draft.content ∧ ∀ line, draft.content ≠ [line] := by
    cases style : draft.style with
    | line => exact .inl (by rw [node, style])
    | block | doc =>
        rcases content : draft.content with _ | ⟨line, _ | ⟨second, others⟩⟩
        · exact .inr ⟨by rw [node, style, content], by simp⟩
        · exact .inl (by rw [node, style, content]; rfl)
        · exact .inr ⟨by rw [node, style, content], by simp⟩
  rcases either with lines | ⟨lines, many⟩
  · exact ⟨trim, lines, fun line _ => (trim_spec line).2.1, trim_within, isBlank_trim,
      fun line _ => (trim_spec line).1⟩
  · exact ⟨id, by rw [lines, List.map_id], fun _ => id, fun _ => List.infix_rfl, fun _ => rfl,
      fun line only => absurd only (many line)⟩

/-- No comment begins or ends with a blank line. -/
theorem off_lines (draft : CommentDraft) :
    StartsOff Text.isBlank draft.node.lines ∧ EndsOff Text.isBlank draft.node.lines := by
  obtain ⟨starts, ends, -⟩ := strip_spec Text.isBlank draft.lines
  have starts : StartsOff Text.isBlank draft.content := starts
  have ends : EndsOff Text.isBlank draft.content := ends
  obtain ⟨f, lines, -, -, same, -⟩ := draft.exists_lines
  rw [lines]
  constructor
  · intro line first
    rw [List.head?_map, Option.map_eq_some_iff] at first
    obtain ⟨line, first, rfl⟩ := first
    rw [same, starts line first]
  · intro line last
    rw [List.getLast?_map, Option.map_eq_some_iff] at last
    obtain ⟨line, last, rfl⟩ := last
    rw [same, ends line last]

/-- No line of a comment that has to be closed closes it. -/
theorem holdsCloser_of_mem_lines {draft : CommentDraft} (clean : draft.defects = [])
    (style : draft.style ≠ .line) {line : Text} (mem : line ∈ draft.node.lines) :
    holdsCloser line = false := by
  obtain ⟨f, lines, -, part, -, -⟩ := draft.exists_lines
  rw [lines] at mem
  obtain ⟨line, listed, rfl⟩ := List.mem_map.1 mem
  refine holdsCloser_of_within (part line) ?_
  rw [defects] at clean
  cases kind : draft.style with
  | line => exact absurd kind style
  | block | doc =>
      rw [kind] at clean
      have own := List.flatMap_eq_nil_iff.1 clean line listed
      simpa using own

/-- Each line of a comment stands somewhere in a line of its draft. -/
theorem infix_of_mem_lines {draft : CommentDraft} {line : Text} (mem : line ∈ draft.node.lines) :
    ∃ whole ∈ draft.lines, line <:+: whole := by
  obtain ⟨f, lines, -, part, -, -⟩ := draft.exists_lines
  rw [lines] at mem
  obtain ⟨whole, listed, rfl⟩ := List.mem_map.1 mem
  exact ⟨whole, mem_of_mem_strip listed, part whole⟩

/-- A draft of comment lines makes a canonical comment. -/
theorem canonical_of_build {draft : CommentDraft} {node : Comment}
    (plain : ∀ line ∈ draft.lines, '\n' ∉ line ∧ EndsInked line)
    (bare : node.style = .line → ∀ line ∈ node.lines, '\r' ∉ line)
    (h : draft.build = .ok node) : node.Canonical := by
  obtain ⟨clean, rfl⟩ := settle_eq_ok_iff.1 h
  have kept : ∀ line ∈ draft.content, line ∈ draft.lines := fun line mem => mem_of_mem_strip mem
  obtain ⟨f, lines, ends', part, -, single⟩ := draft.exists_lines
  constructor
  · intro line mem
    rw [lines] at mem
    obtain ⟨line, listed, rfl⟩ := List.mem_map.1 mem
    have own := plain line (kept line listed)
    exact ⟨fun feed => own.1 ((part line).mem feed), ends' line own.2⟩
  · exact draft.off_lines.1
  · exact draft.off_lines.2
  · exact fun style line => holdsCloser_of_mem_lines clean style
  · intro line only
    rw [lines] at only
    obtain ⟨line', others, content, rfl, rest⟩ := List.map_eq_cons_iff.1 only
    rw [List.map_eq_nil_iff] at rest
    exact single line' (by rw [content, rest])
  · intro style
    have style' : draft.style = .line := style
    rw [defects, style'] at clean
    refine ⟨?_, bare style⟩
    rw [lines, List.length_map]
    simpa using clean
  · rfl

end CommentDraft

/-- The lines of a comment are lines, and can be told from the text that they make. -/
structure Comment.Lined (node : Comment) : Prop where
  plain : ∀ line ∈ node.lines, '\n' ∉ line
  some : node.lines ≠ [[]]

/-- A comment is made of lines if its draft is. -/
theorem CommentDraft.lined_of_build {draft : CommentDraft} {node : Comment}
    (plain : ∀ line ∈ draft.lines, '\n' ∉ line) (h : draft.build = .ok node) : node.Lined := by
  obtain ⟨-, rfl⟩ := settle_eq_ok_iff.1 h
  constructor
  · intro line mem feed
    obtain ⟨whole, listed, part⟩ := infix_of_mem_lines mem
    exact plain whole listed (part.mem feed)
  · intro empty
    have inked := draft.off_lines.1 [] (by rw [empty]; rfl)
    cases inked

/-- The draft of a comment token is made of lines. -/
theorem CommentDraft.plain_of_draws {token : Token} {draft : CommentDraft}
    (draws : commentDraft? token = some draft) : ∀ line ∈ draft.lines, '\n' ∉ line := by
  have added : ∀ (style : CommentStyle) (body : Text),
      some (CommentDraft.addText { style } body) = some draft →
      ∀ line ∈ draft.lines, '\n' ∉ line := by
    intro style body same line mem
    rw [Option.some.injEq] at same
    subst same
    have listed : line ∈ trimmedLines body := by simpa [CommentDraft.addText] using mem
    exact (plain_of_mem_trimmedLines listed).1
  rw [commentDraft?] at draws
  split at draws
  · exact added _ _ draws
  · exact added _ _ draws
  · exact added _ _ draws
  · cases draws

/-- A line comment stays on its line. -/
theorem Cut.endsLine_of_lineComment {text rest : Text} {token : Token} (h : Cut text token rest)
    (kind : token.kind = .lineComment) : ∀ c ∈ token.text, endsLine c = false := by
  obtain ⟨first, body, spelling, -, spelled⟩ := h.exists_spelled
  obtain ⟨comment, slashes, stays, -⟩ := spelled.exists_of_lineComment kind
  rw [spelling, slashes]
  exact List.forall_mem_cons.2 ⟨rfl, List.forall_mem_cons.2 ⟨rfl, stays⟩⟩

/-- A doc comment is a text between its delimiters that does not hold the closing one. -/
theorem Cut.exists_body_of_docComment {text rest : Text} {token : Token} (h : Cut text token rest)
    (kind : token.kind = .docComment) :
    ∃ body, token.text = "/**".toList ++ body ++ "*/".toList ∧ holdsCloser body = false := by
  obtain ⟨first, rest, spelling, -, spelled⟩ := h.exists_spelled
  obtain ⟨body, whole, closed, same⟩ := spelled.exists_of_enclosed (.inr kind)
  have doc : body.head? = some '*' ∧ body[1]? ≠ some '/' := by
    by_contra other
    rw [if_neg (by simpa using other), kind] at same
    cases same
  cases closed with
  | @char _ c tail goesOn closed =>
      obtain rfl : c = '*' := by simpa using doc.1
      obtain ⟨front, ends, inside⟩ := closed.exists_closer
      cases front with
      | nil =>
          have tail : tail = ['/'] := by simpa using ends
          rw [tail] at doc
          simp at doc
      | cons d front =>
          rw [List.cons_append, List.cons.injEq] at ends
          refine ⟨front, by rw [spelling, whole, ends.2]; rfl, ?_⟩
          rw [← List.singleton_append] at inside
          exact (holdsCloser_of_append inside).2

/-- A comment that is read off a token of a text is canonical. -/
theorem Comment.canonical_of_cut {text rest : Text} {token : Token} {draft : CommentDraft}
    {node : Comment} (cut : Cut text token rest) (draws : commentDraft? token = some draft)
    (built : draft.build = .ok node) : node.Canonical ∧ token.kind = node.style.kind := by
  have style : node.style = draft.style := by
    obtain ⟨-, rfl⟩ := settle_eq_ok_iff.1 built
    rfl
  have added : ∀ (style : CommentStyle) (body : Text),
      draft = CommentDraft.addText { style } body →
      (style = .line → '\r' ∉ body) → node.Canonical := by
    rintro style body rfl carriage
    refine CommentDraft.canonical_of_build ?_ ?_ built
    · intro line mem
      have listed : line ∈ trimmedLines body := by simpa [CommentDraft.addText] using mem
      have own := plain_of_mem_trimmedLines listed
      exact ⟨own.1, own.2.1⟩
    · intro is line mem holds
      obtain ⟨-, rfl⟩ := settle_eq_ok_iff.1 built
      obtain ⟨whole, mem, part⟩ := CommentDraft.infix_of_mem_lines mem
      have listed : whole ∈ trimmedLines body := by simpa [CommentDraft.addText] using mem
      have own := plain_of_mem_trimmedLines listed
      exact carriage is (own.2.2.mem (part.mem holds))
  rw [commentDraft?] at draws
  split at draws
  · next kind =>
      rw [Option.some.injEq] at draws
      refine ⟨added _ _ draws.symm ?_, by rw [kind, style, ← draws]; rfl⟩
      rintro - carriage
      have stays := cut.endsLine_of_lineComment kind
      have kept : '\r' ∈ token.text := by
        cases lead : afterLead? "//".toList token.text with
        | none => rwa [lead] at carriage
        | some body =>
            rw [lead] at carriage
            rw [afterLead?_eq_some lead]
            exact List.mem_append_right _ carriage
      cases stays _ kept
  · next kind =>
      rw [Option.some.injEq] at draws
      exact ⟨added _ _ draws.symm nofun, by rw [kind, style, ← draws]; rfl⟩
  · next kind =>
      rw [Option.some.injEq] at draws
      exact ⟨added _ _ draws.symm nofun, by rw [kind, style, ← draws]; rfl⟩
  · cases draws

end JavaUnit
