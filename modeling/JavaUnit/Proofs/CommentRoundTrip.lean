/-
Module: JavaUnit.Proofs.CommentRoundTrip
Purpose: Comments and Javadoc that stand alone, there and back. What is read is read again from its
  rendering, however deep that is indented. What is built is read again under one condition: no
  text of a block tag closes the comment, and no line comment holds a carriage return. Drafts are
  not checked for these two, so that there are nodes whose rendering is not read as that node.
Main exports: Text.indent_iterate, parseText_indent_iterate, JavadocCall,
  JavadocDraft.reads_back_iff, CommentDraft.reads_back_iff, built_reads_back_iff
-/
import JavaUnit.Proofs.FileOrder
import JavaUnit.Proofs.JavadocText
import Mathlib.Logic.Function.Iterate

namespace JavaUnit

open Text

/-! ### Indenting again and again -/

namespace Text

variable {text : Text} {c : Char} {count : Nat}

/-- A text that indentation moves as a whole. It begins and ends with a line that is not empty, and
no line of it ends in a carriage return, which indentation would drop. -/
structure Movable (text : Text) : Prop where
  starts : text.head?.any (· ≠ '\n') = true
  ends : text.getLast? ≠ some '\n'
  noReturn : NoReturn text

theorem NoReturn.tail (h : NoReturn (c :: text)) : NoReturn text := by
  intro front back whole
  apply h (c :: front) back
  simp [whole]

theorem noReturn_cons_of_head (h : NoReturn text)
    (next : c = '\r' → text.head?.any (· ≠ '\n') = true) : NoReturn (c :: text) := by
  intro front back whole
  cases front with
  | nil =>
      cases whole
      exact next rfl
  | cons d front =>
      simp only [List.cons_append, List.cons.injEq] at whole
      exact h front back whole.2

theorem noReturn_blanks (count : Nat) (h : NoReturn text) :
    NoReturn (List.replicate count ' ' ++ text) := by
  apply noReturn_append _ h
  apply noReturn_of_notMem
  simp

theorem noReturn_shift (count : Nat) (h : NoReturn text) : NoReturn (shift count text) := by
  induction text with
  | nil => exact h
  | cons c rest ih =>
      have later := ih h.tail
      have next : c = '\r' → (shift count rest).head?.any (· ≠ '\n') = true := by
        intro same
        cases same
        simpa [head?_shift] using h [] rest rfl
      simp only [shift]
      split
      · next both =>
          apply noReturn_cons (noReturn_blanks count later)
          simp [both.1]
      · exact noReturn_cons_of_head later next

/-- Indentation does not touch the last character. -/
theorem getLast?_shift (count : Nat) (text : Text) :
    (shift count text).getLast? = text.getLast? := by
  induction text with
  | nil => rfl
  | cons c rest ih =>
      simp only [shift]
      split
      · next both =>
          cases rest with
          | nil => simp at both
          | cons d more => simp [List.getLast?_cons, List.getLast?_append, ih]
      · simp [List.getLast?_cons, ih]

theorem Movable.shift_blanks (h : text.Movable) (count : Nat) :
    Movable (List.replicate count ' ' ++ shift count text) := by
  constructor
  · cases count with
    | zero => simpa [head?_shift] using h.starts
    | succ => simp [List.replicate_succ]
  · simp only [List.getLast?_append, getLast?_shift]
    cases last : text.getLast? with
    | none =>
        cases List.getLast?_eq_none_iff.1 last
        cases h.starts
    | some => simpa [last] using h.ends
  · exact noReturn_blanks count (noReturn_shift count h.noReturn)

theorem Movable.indent_eq (h : text.Movable) : indent text = tab ++ shift 4 text := by
  cases text with
  | nil => cases h.starts
  | cons c rest =>
      apply Text.indent_eq _ h.ends h.noReturn
      simpa using h.starts

/-- Indenting a text some number of times is indenting it that much deeper. -/
theorem indent_iterate (h : text.Movable) (depth : Nat) :
    (indent^[depth]) text = List.replicate (4 * depth) ' ' ++ shift (4 * depth) text := by
  induction depth with
  | zero => simp [shift_zero]
  | succ depth ih =>
      have plain : '\n' ∉ List.replicate (4 * depth) ' ' := by simp
      have blanks : tab ++ List.replicate (4 * depth) ' ' =
          List.replicate (4 * (depth + 1)) ' ' := by
        simp only [tab, Nat.mul_add, Nat.add_comm (4 * depth), List.replicate_add]
        rfl
      calc (indent^[depth + 1]) text
          = indent (List.replicate (4 * depth) ' ' ++ shift (4 * depth) text) := by
            simp only [Function.iterate_succ_apply', ih]
        _ = tab ++ shift 4 (List.replicate (4 * depth) ' ' ++ shift (4 * depth) text) :=
            (h.shift_blanks (4 * depth)).indent_eq
        _ = (tab ++ List.replicate (4 * depth) ' ') ++ shift 4 (shift (4 * depth) text) := by
            simp only [shift_append_of_notMem plain, List.append_assoc]
        _ = _ := by
            simp only [blanks, shift_shift, Nat.mul_add]

end Text

/-! ### Renderings move as a whole -/

theorem movable_condensed {opening line : Text} (slash : opening.head? = some '/')
    (plain' : '\n' ∉ opening) (plain : '\n' ∉ line) : (condensed opening line).Movable := by
  have closer : (condensed opening line).getLast? = some '/' := by
    simp [condensed, List.getLast?_cons, List.getLast?_append]
  have single : '\n' ∉ condensed opening line := by simp [condensed, plain, plain']
  constructor
  · simp [condensed, List.head?_append, slash]
  · simp [closer]
  · apply noReturn_of_line single
    intro c last
    cases closer.symm.trans last
    decide

theorem endsInked_starText {line : Text} (ends : EndsInked line) : EndsInked (starText 0 line) := by
  intro c last
  cases line with
  | nil =>
      cases last
      decide
  | cons d rest =>
      apply ends c
      simpa [starText, List.getLast?_cons] using last

/-- A comment on several lines is the text of its lines. -/
theorem spread_eq_unlines (opening : Text) (lines : List Text) :
    spread opening (lines.flatMap starLine) =
      unlines (opening :: (lines.map (starText 0) ++ [" */".toList])) := by
  have inner : ∀ lines : List Text,
      lines.flatMap starLine ++ " */".toList =
        unlines (lines.map (starText 0) ++ [" */".toList]) := by
    intro lines
    induction lines with
    | nil => simp
    | cons line others ih =>
        have some : others.map (starText 0) ++ [" */".toList] ≠ [] := by simp
        simp only [List.flatMap_cons, List.map_cons, List.cons_append, unlines_cons some, ← ih,
          starLine_eq, List.append_assoc, List.nil_append]
  have some : lines.map (starText 0) ++ [" */".toList] ≠ [] := by simp
  simp only [spread, unlines_cons some, List.append_assoc, ← inner, List.cons_append,
    List.nil_append]

theorem movable_spread {opening : Text} {lines : List Text} (slash : opening.head? = some '/')
    (plain' : '\n' ∉ opening ∧ EndsInked opening)
    (plain : ∀ line ∈ lines, '\n' ∉ line ∧ EndsInked line) :
    (spread opening (lines.flatMap starLine)).Movable := by
  constructor
  · simp [spread, List.head?_append, slash]
  · simp [spread, List.getLast?_cons, List.getLast?_append]
  · simp only [spread_eq_unlines]
    apply noReturn_unlines
    intro line mem
    simp only [List.mem_cons, List.mem_append, List.mem_map, List.not_mem_nil, or_false] at mem
    rcases mem with rfl | ⟨line, listed, rfl⟩ | rfl
    · exact plain'
    · exact ⟨notMem_starText (plain line listed).1, endsInked_starText (plain line listed).2⟩
    · have slash : EndsInked (" *".toList ++ ['/']) := endsOff_concat.2 (by decide)
      exact ⟨by decide, slash⟩

/-- What opens a comment begins with a slash and ends in a star. -/
theorem CommentStyle.opening_spec (style : CommentStyle) :
    style.opening.head? = some '/' ∧ '\n' ∉ style.opening ∧ EndsInked style.opening := by
  have ends : ∀ front : Text, EndsInked (front ++ ['*']) :=
    fun _ => endsOff_concat.2 (by decide)
  cases style with
  | line => exact ⟨rfl, by decide, ends ['/']⟩
  | block => exact ⟨rfl, by decide, ends ['/']⟩
  | doc => exact ⟨rfl, by decide, ends ['/', '*']⟩

theorem Comment.movable_render {node : Comment} (canonical : node.Canonical) :
    node.render.Movable := by
  obtain ⟨slash, plain', ends'⟩ := node.style.opening_spec
  have plain := canonical.plain
  by_cases style : node.style = .line
  · -- a line comment holds neither of the two characters that end a line
    have stays := endsLine_of_mem_lineBody canonical style
    have feed : '\n' ∉ lineBody node.lines := fun mem => by cases stays _ mem
    have carriage : '\r' ∉ lineBody node.lines := fun mem => by cases stays _ mem
    have whole := render_of_line style
    constructor
    · simp [whole]
    · intro last
      have mem := List.mem_of_getLast? last
      simp [whole, feed] at mem
    · apply noReturn_of_notMem
      simp [whole, carriage]
  · have spreads := movable_spread slash ⟨plain', ends'⟩ plain
    obtain ⟨style', lines, editable⟩ := node
    match lines with
    | [] =>
        have bare : ∀ text ∈ ["/* */".toList, "/** */".toList], Movable text := by
          intro text mem
          simp only [List.mem_cons, List.not_mem_nil, or_false] at mem
          rcases mem with rfl | rfl
          · exact ⟨by decide, by decide, noReturn_of_notMem (by decide)⟩
          · exact ⟨by decide, by decide, noReturn_of_notMem (by decide)⟩
        cases style' with
        | line => exact absurd rfl style
        | block => exact bare _ (by simp [render, CommentStyle.opening])
        | doc => exact bare _ (by simp [render, CommentStyle.opening])
    | [line] =>
        have whole : render ⟨style', [line], editable⟩ =
            if fitsCondensed line then condensed style'.opening line
            else spread style'.opening ([line].flatMap starLine) := by
          cases style' with
          | line => exact absurd rfl style
          | block => simp [render]
          | doc => simp [render]
        rw [whole]
        split
        · exact movable_condensed slash plain' (plain line List.mem_cons_self).1
        · exact spreads
    | first :: second :: others =>
        cases style' with
        | line => exact absurd rfl style
        | block => exact spreads
        | doc => exact spreads

theorem Javadoc.movable_render {node : Javadoc} (canonical : node.Canonical) :
    node.render.Movable := by
  obtain ⟨slash, plain', ends'⟩ := CommentStyle.doc.opening_spec
  have plain : ∀ line ∈ node.lines, '\n' ∉ line ∧ EndsInked line :=
    fun line mem => (plain_of_mem_lines canonical mem).1
  have listed : ∀ line ∈ node.description ++ node.tagLines, line ∈ node.lines := by
    intro line mem
    simp only [lines, List.mem_append] at mem ⊢
    tauto
  rw [render]
  split
  · split
    · exact ⟨by decide, by decide, noReturn_of_notMem (by decide)⟩
    · next line others same =>
        apply movable_condensed slash plain'
        exact (plain line (listed line (same ▸ List.mem_cons_self))).1
  · have whole : node.description.flatMap starLine
        ++ (if node.description ≠ [] ∧ node.tagLines ≠ [] then " *\n".toList else [])
        ++ node.tagLines.flatMap starLine = node.lines.flatMap starLine := by
      rw [lines, List.flatMap_append, List.flatMap_append]
      split <;> rfl
    simp only [whole]
    exact movable_spread slash ⟨plain', ends'⟩ plain

/-! ### A single token behind white space -/

variable {name source blanks text : Text} {token : Token} {depth : Nat}

/-- A text that is a single token behind white space. -/
theorem lex_of_cut (blank : blanks.isBlank = true) (cut : Cut text token [])
    (ink : token.isWhitespace = false) :
    ∃ tokens, lex (blanks ++ text) = .ok tokens ∧
      tokens.dropWhile Token.isWhitespace = [token, Token.endOfInput] := by
  have front := cuts_blanks blank (head_of_cut cut ink)
  refine ⟨blankTokens blanks ++ [token] ++ [Token.endOfInput], ?_, ?_⟩
  · exact lex_eq_ok_iff.2 ((front.append (.cons cut .nil)).lexed .nil)
  · have white : ∀ token ∈ blankTokens blanks, token.isWhitespace = true :=
      fun _ mem => isWhitespace_of_mem_blankTokens mem
    simp [List.dropWhile_append_of_pos white, ink]

/-- The first token behind white space is cut off some text. -/
theorem exists_cut_of_dropWhile {tokens rest : List Token} (lexed : lex source = .ok tokens)
    (behind : tokens.dropWhile Token.isWhitespace = token :: rest)
    (inside : token.isEnd = false) : ∃ text rest', Cut text token rest' := by
  have mem : token ∈ tokens :=
    (List.dropWhile_suffix _).subset (behind ▸ List.mem_cons_self)
  exact (lex_eq_ok_iff.1 lexed).exists_cut_of_mem mem inside

theorem parseText_comment_of_cut {draft : CommentDraft} {node : Comment}
    (blank : blanks.isBlank = true) (cut : Cut text token [])
    (draws : commentDraft? token = some draft) (built : draft.build = .ok node) (name : Text) :
    Entry.comment.parseText name (blanks ++ text) = .ok node := by
  have ink := Reading.isWhitespace_eq_false_of_isComment (Reading.isComment_of_commentDraft? draws)
  obtain ⟨tokens, lexed, behind⟩ := lex_of_cut blank cut ink
  apply Entry.parseText_eq_ok_iff.2 ⟨tokens, lexed, Entry.readAll_eq_ok_iff.2 _⟩
  exact ⟨_, [], Reading.reads_comment.2 ⟨rfl, token, draft, behind, draws, built⟩, rfl⟩

theorem parseText_javadoc_of_cut {node : Javadoc} (blank : blanks.isBlank = true)
    (cut : Cut text token []) (kind : token.kind = .docComment)
    (clean : (JavadocDraft.ofBody (between "/**".toList token.text)).2 = [])
    (built : (JavadocDraft.ofBody (between "/**".toList token.text)).1.build = .ok node)
    (name : Text) : Entry.javadoc.parseText name (blanks ++ text) = .ok node := by
  have ink : token.isWhitespace = false := by simp [Token.isWhitespace, kind]
  obtain ⟨tokens, lexed, behind⟩ := lex_of_cut blank cut ink
  apply Entry.parseText_eq_ok_iff.2 ⟨tokens, lexed, Entry.readAll_eq_ok_iff.2 _⟩
  exact ⟨_, [], Reading.reads_javadoc.2 ⟨rfl, token, behind, kind, clean, built⟩, rfl⟩

/-- Every comment that is read is canonical. -/
theorem Comment.canonical_of_parseText {node : Comment}
    (parsed : Entry.comment.parseText name source = .ok node) : node.Canonical := by
  obtain ⟨tokens, rest, skipped, lexed, reads, -⟩ := exists_reads_of_parseText parsed
  obtain ⟨-, token, draft, behind, draws, built⟩ := Reading.reads_comment.1 reads
  have inside := Reading.isEnd_eq_false_of_isComment (Reading.isComment_of_commentDraft? draws)
  obtain ⟨text, rest', cut⟩ := exists_cut_of_dropWhile lexed behind inside
  exact (canonical_of_cut cut draws built).1

/-- So is every Javadoc. -/
theorem Javadoc.canonical_of_parseText {node : Javadoc}
    (parsed : Entry.javadoc.parseText name source = .ok node) : node.Canonical := by
  obtain ⟨tokens, rest, skipped, lexed, reads, -⟩ := exists_reads_of_parseText parsed
  obtain ⟨-, token, behind, kind, -, built⟩ := Reading.reads_javadoc.1 reads
  have inside : token.isEnd = false := by simp [Token.isEnd, kind]
  obtain ⟨text, rest', cut⟩ := exists_cut_of_dropWhile lexed behind inside
  exact canonical_of_cut cut kind built

/-! ### What is read, at any depth -/

theorem Comment.parseText_indented {node : Comment} (canonical : node.Canonical)
    (name : Text) (depth : Nat) :
    Entry.comment.parseText name ((indent^[depth]) node.render) = .ok node := by
  have ends : node.style = .line → ([] : Text).head?.all endsLine = true := fun _ => rfl
  obtain ⟨token, draft, cut, -, draws, built⟩ := cut_render canonical (4 * depth) ends
  rw [List.append_nil] at cut
  rw [indent_iterate (movable_render canonical)]
  exact parseText_comment_of_cut (isBlank_replicate _) cut draws built name

theorem Javadoc.parseText_indented {node : Javadoc} (canonical : node.Canonical)
    (name : Text) (depth : Nat) :
    Entry.javadoc.parseText name ((indent^[depth]) node.render) = .ok node := by
  obtain ⟨token, cut, kind, clean, built⟩ := cut_render canonical (4 * depth) []
  rw [List.append_nil] at cut
  rw [indent_iterate (movable_render canonical)]
  exact parseText_javadoc_of_cut (isBlank_replicate _) cut kind clean built name

/-- What is read as Javadoc, or as a comment, is read again from its rendering at any depth: the
same node, with the same description and tags, or with the same style and lines. -/
theorem parseText_indent_iterate (name source : Text) (depth : Nat) :
    (∀ node, Entry.javadoc.parseText name source = .ok node →
      Entry.javadoc.parseText name ((indent^[depth]) node.render) = .ok node) ∧
    ∀ node, Entry.comment.parseText name source = .ok node →
      Entry.comment.parseText name ((indent^[depth]) node.render) = .ok node := by
  constructor
  · intro node parsed
    exact Javadoc.parseText_indented (Javadoc.canonical_of_parseText parsed) name depth
  · intro node parsed
    exact Comment.parseText_indented (Comment.canonical_of_parseText parsed) name depth

/-- A comment with stars, blanks and an at sign at the ends of its lines, three levels deep. -/
theorem parseText_indent_iterate_decorated :
    ∃ javadoc comment,
      let source := "/** \n *** *  a \t\n\n @param x\n  of it\n @see @b *\n */".toList
      Entry.javadoc.parseText defaultName source = .ok javadoc ∧
      Entry.comment.parseText defaultName source = .ok comment ∧
      Entry.javadoc.parseText defaultName ((indent^[3]) javadoc.render) = .ok javadoc ∧
      Entry.comment.parseText defaultName ((indent^[3]) comment.render) = .ok comment := by
  let source := "/** \n *** *  a \t\n\n @param x\n  of it\n @see @b *\n */".toList
  have parsed : ((Entry.javadoc.parseText defaultName source).toOption.map
      fun _ => ()) = some () := by decide +kernel
  obtain ⟨javadoc, is, -⟩ := Option.map_eq_some_iff.1 parsed
  have parsed : ((Entry.comment.parseText defaultName source).toOption.map
      fun _ => ()) = some () := by decide +kernel
  obtain ⟨comment, is', -⟩ := Option.map_eq_some_iff.1 parsed
  have again := parseText_indent_iterate defaultName source 3
  exact ⟨javadoc, comment, eq_ok_of_toOption is, eq_ok_of_toOption is',
    again.1 javadoc (eq_ok_of_toOption is), again.2 comment (eq_ok_of_toOption is')⟩

/-! ### What is built -/

/-- A draft of Javadoc with texts that are in their place: no line of the description ends in white
space, and the texts of the block tags are trimmed. -/
structure JavadocDraft.Tidy (draft : JavadocDraft) : Prop where
  description : ∀ line ∈ draft.description, '\n' ∉ line ∧ EndsInked line
  texts : ∀ text ∈ draft.node.texts, StartsInked text ∧ EndsInked text

/-- The calls that make a draft of Javadoc, one after another. -/
inductive JavadocCall where
  | description (text : Text)
  | param (name text : Text)
  | returns (text : Text)
  | author (text : Text)
  | version (text : Text)
  | since (text : Text)
  | tag (tag text : Text)

/-- A draft with one more call. -/
def JavadocDraft.call (draft : JavadocDraft) : JavadocCall → JavadocDraft
  | .description text => draft.addDescription text
  | .param name text => draft.addParam name text
  | .returns text => draft.withReturns text
  | .author text => draft.withAuthor text
  | .version text => draft.withVersion text
  | .since text => draft.withSince text
  | .tag tag text => draft.addTag tag text

namespace JavadocDraft

variable {draft : JavadocDraft} {node : Javadoc}

theorem tidy_empty : Tidy {} := ⟨nofun, nofun⟩

theorem tidy_call (h : draft.Tidy) (call : JavadocCall) : (draft.call call).Tidy := by
  obtain ⟨description, texts⟩ := h
  have trimmed : ∀ text : Text, StartsInked text.trim ∧ EndsInked text.trim :=
    fun text => ⟨(trim_spec text).1, (trim_spec text).2.1⟩
  have own : ∀ line ∈ (draft.call call).description, '\n' ∉ line ∧ EndsInked line := by
    cases call with
    | description text =>
        intro line mem
        simp only [JavadocDraft.call, addDescription, List.mem_append] at mem
        rcases mem with mem | mem
        · exact description line mem
        · have own := plain_of_mem_trimmedLines mem
          exact ⟨own.1, own.2.1⟩
    | _ => exact description
  refine ⟨own, fun text mem => ?_⟩
  simp only [Javadoc.texts, JavadocDraft.node] at texts
  cases call with
  | description => exact texts text mem
  | _ =>
      simp only [JavadocDraft.call, Javadoc.texts, JavadocDraft.node, addParam, withReturns,
        withAuthor, withVersion, withSince, addTag] at mem
      simp only [List.mem_append, List.mem_map, Option.mem_toList, List.map_append] at mem texts
      grind

theorem tidy_calls (calls : List JavadocCall) : (calls.foldl JavadocDraft.call {}).Tidy := by
  have general : ∀ draft : JavadocDraft, draft.Tidy →
      (calls.foldl JavadocDraft.call draft).Tidy := by
    induction calls with
    | nil => exact fun _ => id
    | cons call others ih => exact fun draft h => ih _ (tidy_call h call)
  exact general {} tidy_empty

/-- A draft makes Javadoc that is a single token, and is read again, exactly if no text of a block
tag holds what closes a comment. -/
theorem reads_back_iff (tidy : draft.Tidy) (built : draft.build = .ok node) (name : Text) :
    ((∃ token, token.kind = .docComment ∧ lex node.render = .ok [token, Token.endOfInput]) ∧
      Entry.javadoc.parseText name node.render = .ok node) ↔
      ∀ text ∈ node.texts, holdsCloser text = false := by
  constructor
  · rintro ⟨-, parsed⟩
    intro text mem
    exact ((Javadoc.canonical_of_parseText parsed).texts text mem).inside
  · intro open_
    obtain ⟨-, rfl⟩ := settle_eq_ok_iff.1 built
    have canonical := canonical_of_build tidy.description
      (fun text mem => ⟨(tidy.texts text mem).1, (tidy.texts text mem).2, open_ text mem⟩) built
    obtain ⟨token, cut, kind, -, -⟩ := Javadoc.cut_render canonical 0 []
    rw [shift_zero, List.append_nil] at cut
    refine ⟨⟨token, kind, ?_⟩, Javadoc.parseText_indented canonical name 0⟩
    exact lex_eq_ok_iff.2 (@Cuts.lexed _ _ [token] _ (.cons cut .nil) .nil)

/-- So it is for a draft that is made by calls, whatever they are. -/
theorem reads_back_calls_iff {calls : List JavadocCall}
    (built : (calls.foldl JavadocDraft.call {}).build = .ok node) (name : Text) :
    ((∃ token, token.kind = .docComment ∧ lex node.render = .ok [token, Token.endOfInput]) ∧
      Entry.javadoc.parseText name node.render = .ok node) ↔
      ∀ text ∈ node.texts, holdsCloser text = false :=
  reads_back_iff (tidy_calls calls) built name

/-- An author who closes the comment is accepted, and cuts the Javadoc short. -/
example : ∃ node, (JavadocDraft.call {} (.author "a */ b".toList)).build = .ok node ∧
    node.render = "/** @author a */ b */".toList ∧
    (Entry.javadoc.parseText defaultName node.render).toOption = none :=
  ⟨_, rfl, by decide +kernel, by decide +kernel⟩

end JavadocDraft

namespace CommentDraft

/-- A comment that is built from texts is a single token, and is read again, exactly if it can be
kept on its line if it has to: a line comment must not hold a carriage return. -/
theorem reads_back_iff {style : CommentStyle} {texts : List Text} {node : Comment}
    (built : (texts.foldl addText { style }).build = .ok node) (name : Text) :
    ((∃ token, token.kind = style.kind ∧ lex node.render = .ok [token, Token.endOfInput]) ∧
      Entry.comment.parseText name node.render = .ok node) ↔
      (style = .line → ∀ line ∈ node.lines, '\r' ∉ line) := by
  have same : node.style = style := by
    obtain ⟨-, rfl⟩ := settle_eq_ok_iff.1 built
    simp [CommentDraft.node, foldl_addText]
  subst same
  constructor
  · rintro ⟨-, parsed⟩
    intro short
    exact ((Comment.canonical_of_parseText parsed).short short).2
  · intro bare
    have plain : ∀ line ∈ (texts.foldl addText { style := node.style }).lines,
        '\n' ∉ line ∧ EndsInked line := by
      intro line mem
      simp only [foldl_addText, List.nil_append, List.mem_flatMap] at mem
      obtain ⟨text, -, listed⟩ := mem
      have own := plain_of_mem_trimmedLines listed
      exact ⟨own.1, own.2.1⟩
    have canonical := canonical_of_build plain bare built
    have ends : node.style = .line → ([] : Text).head?.all endsLine = true := fun _ => rfl
    obtain ⟨token, draft, cut, kind, -, -⟩ := Comment.cut_render canonical 0 ends
    rw [shift_zero, List.append_nil] at cut
    refine ⟨⟨token, kind, ?_⟩, Comment.parseText_indented canonical name 0⟩
    exact lex_eq_ok_iff.2 (@Cuts.lexed _ _ [token] _ (.cons cut .nil) .nil)

/-- A line comment with a carriage return is accepted, and ends there. -/
example : ∃ node, (addText {} "a\rb".toList).build = .ok node ∧
    node.render = "// a\rb".toList ∧
    (Entry.comment.parseText defaultName node.render).toOption = none :=
  ⟨_, rfl, by decide +kernel, by decide +kernel⟩

end CommentDraft

/-- Whatever the calls on a draft of a Javadoc or of a comment are, what it is built as is a single
token and is read again, exactly if no text of the Javadoc closes it and no line of a line comment
ends early. -/
theorem built_reads_back_iff (name : Text) :
    (∀ (calls : List JavadocCall) (node : Javadoc),
      (calls.foldl JavadocDraft.call {}).build = .ok node →
      (((∃ token, token.kind = .docComment ∧ lex node.render = .ok [token, Token.endOfInput]) ∧
        Entry.javadoc.parseText name node.render = .ok node) ↔
        ∀ text ∈ node.texts, holdsCloser text = false)) ∧
    ∀ (style : CommentStyle) (texts : List Text) (node : Comment),
      (texts.foldl CommentDraft.addText { style }).build = .ok node →
      (((∃ token, token.kind = style.kind ∧ lex node.render = .ok [token, Token.endOfInput]) ∧
        Entry.comment.parseText name node.render = .ok node) ↔
        (style = .line → ∀ line ∈ node.lines, '\r' ∉ line)) :=
  ⟨fun _ _ built => JavadocDraft.reads_back_calls_iff built name,
    fun _ _ _ built => CommentDraft.reads_back_iff built name⟩

end JavaUnit
