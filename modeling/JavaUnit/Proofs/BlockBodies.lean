/-
Module: JavaUnit.Proofs.BlockBodies
Purpose: Static blocks, there and back. The lines that are kept of a block are canonical, and they
  come back from its rendering however deep that is indented, even where a line stands inside a
  comment or a text block: indentation moves no closing brace into or out of a token.
Main exports: Reading.reads_block, Reading.takes_block, StaticBlock.exists_shift_render,
  staticBlock_fixed
-/
import JavaUnit.Proofs.CommentRoundTrip
import JavaUnit.Proofs.FileText
import JavaUnit.Proofs.RawText
import JavaUnit.Proofs.Statements

namespace JavaUnit

open Text

/-! ### Lines of a block -/

namespace Text

variable {count : Nat} {lines : List Text}

theorem Settled.movable (settled : Settled lines) (present : lines ≠ []) :
    (unlines lines).Movable := by
  refine ⟨?_, ?_, noReturn_unlines settled.plain⟩
  · obtain ⟨first, others, rfl⟩ := List.exists_cons_of_ne_nil present
    have some : first ≠ [] := by simpa using startsOff_cons.1 settled.starts
    obtain ⟨c, rest, rfl⟩ := List.exists_cons_of_ne_nil some
    have plain := (settled.plain _ List.mem_cons_self).1
    have head : (unlines ((c :: rest) :: others)).head? = Option.some c := by
      by_cases more : others = []
      · rw [more, unlines_singleton]
        rfl
      · rw [unlines_cons more]
        rfl
    rw [List.mem_cons, not_or] at plain
    simpa [head] using Ne.symm plain.1
  · obtain ⟨front, last, rfl⟩ : ∃ front last, lines = front ++ [last] :=
      ⟨_, _, (List.dropLast_append_getLast present).symm⟩
    have some : last ≠ [] := by simpa using endsOff_concat.1 settled.ends
    have plain := (settled.plain last (List.mem_append_right _ (List.mem_singleton_self _))).1
    have ends : (unlines (front ++ [last])).getLast? = last.getLast? := by
      by_cases single : front = []
      · rw [single, List.nil_append, unlines_singleton]
      · rw [unlines_append single (List.cons_ne_nil _ _), unlines_singleton, List.getLast?_append,
          List.getLast?_eq_some_getLast some]
        rfl
    rw [ends]
    exact fun feed => plain (List.mem_of_getLast? feed)

/-- Canonical lines are indented one by one. -/
theorem Settled.indent_unlines (settled : Settled lines) (present : lines ≠ []) :
    indent (unlines lines) = unlines (lines.map (pad 4)) := by
  rw [(settled.movable present).indent_eq]
  obtain ⟨first, others, rfl⟩ := List.exists_cons_of_ne_nil present
  have some : first ≠ [] := by simpa using startsOff_cons.1 settled.starts
  have plain := fun line mem => (settled.plain line mem).1
  rw [shift_unlines (plain first List.mem_cons_self) fun line mem =>
    plain line (List.mem_cons_of_mem _ mem), List.map_cons]
  have padded : pad 4 first = tab ++ first := by
    rw [pad, if_neg some]
    rfl
  by_cases more : others = []
  · rw [more, List.map_nil, unlines_singleton, unlines_singleton, padded]
  · have more' : others.map (pad 4) ≠ [] := by simpa using more
    rw [unlines_cons more', unlines_cons more', padded, List.append_assoc]

/-- The lines between an opening and a closing one are those of a frame. -/
theorem unlines_around (opening last closer : Text) :
    unlines (opening :: (lines.map (pad count) ++ [last ++ closer])) =
      opening ++ frame count last lines ++ closer := by
  rw [frame, unlines_cons (by simp), unlines_cons (by simp), List.nil_append]
  by_cases present : lines = []
  · subst present
    simp
  · have more : lines.map (pad count) ≠ [] := by simpa using present
    rw [unlines_append more (List.cons_ne_nil _ _), unlines_append more (List.cons_ne_nil _ _),
      unlines_singleton, unlines_singleton]
    simp

end Text

namespace StaticBlock

variable {count : Nat} {lines : List Text} {editable : Bool}

theorem render_nil : render ⟨[], editable⟩ = "static \x7b \x7d".toList := rfl

/-- A block with lines is rendered with an opening line, the lines, and a closing one. -/
theorem render_eq_unlines (settled : Settled lines) (present : lines ≠ []) :
    render ⟨lines, editable⟩ =
      unlines ("static \x7b".toList :: (lines.map (pad 4) ++ ["\x7d".toList])) := by
  have whole := @unlines_around 4 lines "static \x7b".toList [] "\x7d".toList
  rw [List.nil_append] at whole
  rw [whole, render, renderBlock, if_neg present, settled.indent_unlines present, frame,
    unlines_cons (by simp), unlines_append (by simpa using present) (List.cons_ne_nil _ _)]
  simp

theorem movable_render (settled : Settled lines) : Movable (render ⟨lines, editable⟩) := by
  by_cases present : lines = []
  · subst present
    rw [render_nil]
    exact ⟨by decide, by decide, noReturn_of_notMem (by decide)⟩
  · have brace : ∀ front : Text, EndsInked (front ++ ['\x7b']) ∧ EndsInked (front ++ ['\x7d']) :=
      fun _ => ⟨endsOff_concat.2 (by decide), endsOff_concat.2 (by decide)⟩
    refine ⟨by simp [render], ?_, ?_⟩
    · simp [render, renderBlock, present, List.getLast?_cons, List.getLast?_append]
    · rw [render_eq_unlines settled present]
      refine noReturn_unlines fun line mem => ?_
      simp only [List.mem_cons, List.mem_append, List.mem_map, List.not_mem_nil, or_false] at mem
      rcases mem with rfl | ⟨line, listed, rfl⟩ | rfl
      · exact ⟨by decide, (brace "static ".toList).1⟩
      · have plain := settled.plain line listed
        exact ⟨notMem_pad plain.1, endsInked_pad plain.2⟩
      · exact ⟨by decide, (brace []).2⟩

/-- However deep a block is indented, its lines stand between the same two braces. -/
theorem exists_shift_render (settled : Settled lines)
    (enclosed : Enclosed Reading.insideBlock '\x7d' lines) (count : Nat) :
    ∃ inside tokens, shift count (render ⟨lines, editable⟩) =
        "static".toList ++ (' ' :: '\x7b' :: (inside ++ ['\x7d'])) ∧
      Cuts (inside ++ ['\x7d']) tokens ['\x7d'] ∧ textOf tokens = inside ∧
      through Reading.insideBlock 0 tokens = some 0 ∧ Text.block inside = lines := by
  by_cases present : lines = []
  · subst present
    refine ⟨[' '], [⟨.whitespace, [' ']⟩], ?_, ?_, rfl, rfl, by decide +kernel⟩
    · rw [render_nil, shift_of_notMem (by decide)]
      rfl
    · have blank : ∀ c ∈ [' '], isBlank c = true := List.forall_mem_singleton.2 rfl
      exact .cons (cut_whitespace (List.cons_ne_nil _ _) blank rfl) .nil
  · have blank := isBlank_replicate count
    obtain ⟨tokens, cuts, whole, pass⟩ :=
      enclosed.cuts_frame byKind_insideBlock (by decide) (by decide) (4 + count) blank []
    have inside : '\n' ∉ List.replicate count ' ' := fun mem =>
      absurd (List.eq_of_mem_replicate mem) (by decide)
    refine ⟨_, tokens, ?_, cuts, whole, pass, block_frame settled _ blank inside⟩
    have plain : ∀ line ∈ lines.map (pad 4) ++ ["\x7d".toList], '\n' ∉ line := by
      intro line mem
      simp only [List.mem_append, List.mem_map, List.mem_singleton] at mem
      rcases mem with ⟨line, listed, rfl⟩ | rfl
      · exact notMem_pad (settled.plain line listed).1
      · decide
    have pointwise : pad count ∘ pad 4 = pad (4 + count) := funext (pad_pad 4 count)
    rw [render_eq_unlines settled present, shift_unlines (by decide) plain, List.map_append,
      List.map_map, pointwise]
    have closing : pad count "\x7d".toList = List.replicate count ' ' ++ "\x7d".toList := rfl
    rw [List.map_singleton, closing, unlines_around]
    simp

end StaticBlock

/-! ### Moving forward in a text -/

theorem advances_dropWhile {p : Token → Bool} (inside : ∀ token, p token = true → token.isEnd = false)
    (tokens : List Token) : Advances tokens (tokens.dropWhile p) :=
  ⟨tokens.takeWhile p, List.takeWhile_append_dropWhile.symm,
    fun token mem => inside token (List.all_eq_true.1 List.all_takeWhile token mem)⟩

theorem advances_significantFrom_zero (tokens : List Token) :
    Advances tokens (significantFrom 0 tokens) := by
  rw [significantFrom_zero_eq]
  exact advances_dropWhile (fun _ => Token.isEnd_eq_false_of_isTrivia) tokens

theorem advances_skipWhitespace (tokens : List Token) :
    Advances tokens (tokens.dropWhile Token.isWhitespace) :=
  advances_dropWhile
    (fun _ blank => Token.isEnd_eq_false_of_isTrivia (Token.isTrivia_iff.2 (.inl blank))) tokens

theorem Passes.advances {tokens rest skipped : List Token} {token : Token}
    (h : Passes tokens token rest skipped) : Advances tokens rest := by
  have moved := advances_significantFrom_zero tokens
  rw [h.significantFrom_zero] at moved
  exact moved.trans (.cons h.isEnd_eq_false (.refl rest))

/-- The tokens left of a text are those of the text that is left. -/
theorem Lexed.exists_of_advances {text : Text} {tokens rest : List Token} (h : Lexed text tokens)
    (moved : Advances tokens rest) : ∃ left, Lexed left rest := by
  obtain ⟨passed, rfl, inside⟩ := moved
  obtain ⟨left, -, lexed⟩ := h.exists_cuts inside
  exact ⟨left, lexed⟩

/-- What a reading takes from a text is what an entry makes of it, with white space in front. -/
theorem Entry.parseText_of_takes {entry : Entry α} {kind : NodeKind} {next : Scope → Reading α}
    {blanks text : Text} {node : α} (begins : entry.reading = Reading.scopeHere kind >>= next)
    (blank : blanks.isBlank = true) (start : text.head?.all (!isBlank ·) = true)
    (takes : entry.reading.Takes text node []) (name : Text) :
    entry.parseText name (blanks ++ text) = .ok node := by
  obtain ⟨tokens, cuts, reads⟩ := takes
  refine Entry.parseText_eq_ok_iff.2 ⟨blankTokens blanks ++ tokens ++ [Token.endOfInput],
    lex_eq_ok_iff.2 (((cuts_blanks blank start).append cuts).lexed .nil),
    Entry.readAll_eq_ok_iff.2 ⟨[Token.endOfInput], [], ?_, rfl⟩⟩
  have own := reads _ .nil
  have white : ∀ token ∈ blankTokens blanks, token.isWhitespace = true :=
    fun _ mem => isWhitespace_of_mem_blankTokens mem
  rw [begins, Reading.reads_scopeHere_bind] at own ⊢
  rwa [List.append_assoc, List.dropWhile_append_of_pos white]

/-! ### Reading a block -/

theorem Cut.eq_of_closeBrace {text rest : Text} {token : Token} (h : Cut text token rest)
    (kind : token.kind = .closeBrace) : text = '\x7d' :: rest := by
  obtain ⟨c, spelling, known⟩ := h.mark_of_closes (Token.closes_iff.2 (.inr (.inl kind)))
  rw [kind] at known
  have same : c = '\x7d' := by simpa [punctuation] using known
  rw [h.text_eq, spelling, same]
  rfl

namespace Reading

variable {scope : Scope} {tokens rest skipped : List Token} {brace : Token} {raw : Text}

/-- Inside a block only its closing brace stops a scan. -/
theorem closes_of_insideBlock {depth : Nat} {token : Token} (stop : insideBlock depth token = none) :
    token.kind = .closeBrace ∧ depth = 0 := by
  rw [insideBlock] at stop
  split_ifs at stop with opens closes zero
  exact ⟨closes, zero⟩

/-- The text of a block is that of the tokens up to the brace that closes it. -/
theorem reads_block (inside : brace.isEnd = false)
    (h : (block scope).Reads (brace :: tokens) raw rest skipped) :
    ∃ inner closing, tokens = inner ++ closing :: rest ∧ closing.kind = .closeBrace ∧
      raw = textOf inner ∧ through insideBlock 0 inner = some 0 ∧
      (∀ token ∈ inner, token.isEnd = false) ∧ skipped = [] := by
  rw [block, reads_advance_bind, if_neg (by simpa [currentToken] using inside), List.tail_cons,
    reads_scan_bind, reads_current_bind, reads_ite] at h
  simp only [not_reads_fail, and_false, false_or, reads_advance_bind, reads_pure] at h
  obtain ⟨open_, rfl, rfl, rfl⟩ := h
  obtain ⟨last, pass, inner, stop⟩ := through_of_scanTokens insideBlock 0 tokens
  have whole := scanTokens_append insideBlock 0 tokens
  generalize (scanTokens insideBlock 0 tokens).1 = inside at *
  generalize (scanTokens insideBlock 0 tokens).2 = behind at *
  cases behind with
  | nil => exact absurd rfl open_
  | cons closing behind =>
      have here : currentToken (closing :: behind) = closing := rfl
      rw [here] at open_ ⊢
      obtain ⟨kind, rfl⟩ := closes_of_insideBlock (stop closing rfl (by simpa using open_))
      refine ⟨inside, closing, ?_, kind, rfl, pass, inner, rfl⟩
      rw [if_neg open_, List.tail_cons, whole]

/-- A block is read from any text between braces whose tokens it lets pass. -/
theorem takes_block {inside rest : Text} {inner : List Token}
    (cuts : Cuts (inside ++ '\x7d' :: rest) inner ('\x7d' :: rest)) (whole : textOf inner = inside)
    (pass : through insideBlock 0 inner = some 0) :
    (block scope).Takes ('\x7b' :: (inside ++ '\x7d' :: rest)) inside rest := by
  have opening : Cut ('\x7b' :: (inside ++ '\x7d' :: rest)) _ _ :=
    cut_mark '\x7b' .openBrace (by decide)
  have closing : Cut ('\x7d' :: rest) _ _ := cut_mark '\x7d' .closeBrace (by decide)
  refine (takes_advance opening).bind ?_
  have scans : (scan insideBlock 0).Takes (inside ++ '\x7d' :: rest) inner ('\x7d' :: rest) := by
    refine ⟨inner, cuts, fun later lexed => ?_⟩
    obtain ⟨behind, rfl, -⟩ := closing.lexed_iff.1 lexed
    have stops : scanTokens insideBlock 0 (inner ++ ⟨.closeBrace, ['\x7d']⟩ :: behind) = _ :=
      scanTokens_of_through pass (fun token mem => cuts.isEnd_eq_false mem) rfl
    rw [reads_scan, stops]
    exact ⟨rfl, rfl, rfl⟩
  refine scans.bind (Takes.current (begins_of_cut closing) ?_)
  rw [if_neg (by decide), ← whole]
  exact (takes_advance closing).bind takes_pure

end Reading

/-! ### Static blocks -/

/-- The lines of a static block are the canonical lines of what is between its braces. -/
theorem StaticBlockDraft.node_of_block (raw : Text) :
    ((Text.block raw).foldl addLine {}).node = ⟨Text.block raw, true⟩ := by
  have kept : ∀ (lines : List Text) (draft : StaticBlockDraft), (∀ line ∈ lines, '\n' ∉ line) →
      (lines.foldl addLine draft).lines = draft.lines ++ lines := by
    intro lines
    induction lines with
    | nil => simp
    | cons line others ih =>
        intro draft plain
        rw [List.foldl_cons, ih _ fun line mem => plain line (List.mem_cons_of_mem _ mem), addLine,
          split_of_notMem (plain line List.mem_cons_self)]
        simp
  have settled := settled_block raw
  rw [node, kept _ _ fun line mem => (settled.plain line mem).1, List.nil_append,
    blockLines_of_settled settled]

namespace StaticBlock

variable {name source : Text} {node : StaticBlock}

/-- What is read as a static block holds the canonical lines of a text between braces. -/
theorem exists_block_of_parseText (parsed : Entry.staticBlock.parseText name source = .ok node) :
    ∃ raw, node = ⟨Text.block raw, true⟩ ∧
      Enclosed Reading.insideBlock '\x7d' (Text.block raw) := by
  obtain ⟨tokens, rest, skipped, lexed, reads, -⟩ := exists_reads_of_parseText parsed
  have reads : Reading.staticBlock.Reads tokens node rest skipped := reads
  rw [Reading.staticBlock, Reading.reads_scopeHere_bind, Reading.reads_finish] at reads
  obtain ⟨-, attempt, parts, -, built⟩ := reads
  rw [Reading.reads_expect_bind (.keyword .static) (by decide)] at parts
  obtain ⟨word, mid, passed, later, -, passes, parts, -⟩ := parts
  rw [Reading.reads_skipTrivia_bind] at parts
  obtain ⟨later, parts, -⟩ := parts
  rw [Reading.reads_current_bind, Reading.reads_ite] at parts
  simp only [Reading.not_reads_unexpected, and_false, or_false] at parts
  obtain ⟨opens, parts⟩ := parts
  obtain ⟨raw, last, first, second, block, ends, -⟩ := Reading.reads_bind.1 parts
  obtain ⟨rfl, -, -⟩ := Reading.reads_pure.1 ends
  -- The text from the opening brace on is cut into the tokens that the block is read from.
  obtain ⟨brace, inner, here⟩ : ∃ brace inner, significantFrom 0 mid = brace :: inner := by
    cases behind : significantFrom 0 mid with
    | nil =>
        rw [behind] at opens
        exact absurd opens (by decide)
    | cons brace inner => exact ⟨brace, inner, rfl⟩
  rw [here] at block opens
  have inside : brace.isEnd = false := by
    have kind : brace.kind = .openBrace := opens
    simp [Token.isEnd, kind]
  obtain ⟨inner, closing, rfl, closes, rfl, pass, each, -⟩ := Reading.reads_block inside block
  have moved : Advances tokens (inner ++ closing :: last) := by
    have front := (advances_skipWhitespace tokens).trans passes.advances
    have back := advances_significantFrom_zero mid
    rw [here] at back
    exact front.trans (back.trans (.cons inside (.refl _)))
  obtain ⟨text, lexed'⟩ := (lex_eq_ok_iff.1 lexed).exists_of_advances moved
  obtain ⟨behind, cuts, lexed'⟩ := lexed'.exists_cuts each
  obtain ⟨post, cut, -⟩ := lexed'.exists_cut (by simp [Token.isEnd, closes])
  obtain rfl := cut.eq_of_closeBrace closes
  obtain rfl := cuts.text_eq
  refine ⟨textOf inner, ?_, Enclosed.block byKind_insideBlock (by decide) (by decide) cuts rfl pass⟩
  have settles : StaticBlockDraft.build _ = .ok node := built
  rw [← StaticBlockDraft.node_of_block, (settle_eq_ok_iff.1 settles).2]

/-- A static block whose lines are canonical is read from its rendering, however deep that is
indented. -/
theorem parseText_indented {lines : List Text} (settled : Settled lines)
    (enclosed : Enclosed Reading.insideBlock '\x7d' lines) (name : Text) (depth : Nat) :
    Entry.staticBlock.parseText name ((indent^[depth]) (render ⟨lines, true⟩)) =
      .ok ⟨lines, true⟩ := by
  obtain ⟨inside, tokens, whole, cuts, texts, pass, same⟩ :=
    @exists_shift_render lines true settled enclosed (4 * depth)
  rw [indent_iterate (movable_render settled), whole]
  have word := cut_keyword .static (stops_cons (show ' ' ∈ boundaryChars by decide)
    ('\x7b' :: (inside ++ ['\x7d'])))
  refine Entry.parseText_of_takes rfl (isBlank_replicate _) (head_of_cut word rfl) ?_ name
  refine Reading.Takes.scopeHere (head_of_cut word rfl) fun scope => ?_
  refine Reading.Takes.finish
    { built := ((Text.block inside).foldl StaticBlockDraft.addLine {}).build } ?_ rfl ?_
  · have opening : Cut ('\x7b' :: (inside ++ ['\x7d'])) _ _ :=
      cut_mark '\x7b' .openBrace (by decide)
    refine (Reading.takes_expect (.of_cut word rfl)).bind ?_
    refine (@Reading.takes_skipTrivia _ _ _ [' '] rfl opening rfl).bind ?_
    refine Reading.Takes.current (begins_of_cut opening) ?_
    rw [if_pos rfl]
    exact (Reading.takes_block cuts texts pass).bind Reading.takes_pure
  · show StaticBlockDraft.build _ = _
    rw [StaticBlockDraft.build, StaticBlockDraft.node_of_block, same]
    rfl

end StaticBlock

/-- The lines of a static block that is read are fixed points of rendering at any depth. They hold
no line break, none of them ends in white space, those at either end are not empty, and one of those
that are not empty has no white space in front. -/
theorem staticBlock_fixed {name source : Text} {node : StaticBlock}
    (parsed : Entry.staticBlock.parseText name source = .ok node) :
    (∀ depth, ∃ again,
      Entry.staticBlock.parseText name ((indent^[depth]) node.render) = .ok again ∧
        again.lines = node.lines) ∧
    (∀ line ∈ node.lines, '\n' ∉ line ∧ line.getLast?.all (!isBlank ·) = true) ∧
    (node.lines ≠ [] → node.lines.head? ≠ some [] ∧ node.lines.getLast? ≠ some [] ∧
      ∃ line ∈ node.lines, line ≠ [] ∧ line.head?.all (!isBlank ·) = true) := by
  obtain ⟨raw, rfl, enclosed⟩ := StaticBlock.exists_block_of_parseText parsed
  have settled := settled_block raw
  refine ⟨fun depth => ?_, fun line mem => ?_, fun present => ?_⟩
  · exact ⟨_, StaticBlock.parseText_indented settled enclosed name depth, rfl⟩
  · obtain ⟨plain, ends⟩ := settled.plain line mem
    refine ⟨plain, ?_⟩
    cases last : line.getLast? with
    | none => rfl
    | some c => simp [ends c last]
  · refine ⟨fun empty => ?_, fun empty => ?_, ?_⟩
    · simpa using settled.starts [] empty
    · simpa using settled.ends [] empty
    · obtain ⟨line, mem, some, margin⟩ := settled.margin.resolve_left present
      refine ⟨line, mem, some, ?_⟩
      obtain ⟨c, rest, rfl⟩ := List.exists_cons_of_ne_nil some
      cases blank : JavaUnit.isBlank c with
      | false => simp [blank]
      | true => simp [indentation, blank] at margin

/-- A block that shares a line with its opening brace, and holds closing braces in a comment and in
a text block that go on over several lines, three levels deep. -/
theorem staticBlock_fixed_crowded :
    ∃ node,
      let source := "static \x7ba();  \n\t  /* \x7d\n  */ \x7b\n\r\n f(\"\"\"\n  \x7d\n \"\"\");\x7d\n \n\x7d"
      Entry.staticBlock.parseText defaultName source.toList = .ok node ∧ node.lines.length = 7 ∧
        ∃ again, Entry.staticBlock.parseText defaultName ((indent^[3]) node.render) = .ok again ∧
          again.lines = node.lines := by
  let source := "static \x7ba();  \n\t  /* \x7d\n  */ \x7b\n\r\n f(\"\"\"\n  \x7d\n \"\"\");\x7d\n \n\x7d"
  have parsed : ((Entry.staticBlock.parseText defaultName source.toList).toOption.map
      (·.lines.length)) = some 7 := by decide +kernel
  obtain ⟨node, is, seven⟩ := Option.map_eq_some_iff.1 parsed
  exact ⟨node, eq_ok_of_toOption is, seven, (staticBlock_fixed (eq_ok_of_toOption is)).1 3⟩

end JavaUnit
