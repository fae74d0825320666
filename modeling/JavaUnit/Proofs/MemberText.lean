/-
Module: JavaUnit.Proofs.MemberText
Purpose: The text of members in a class. A class renders each member with one more level of
  indentation and puts blank lines between them. Where the indented text of each member reads as a
  member that renders alike, the body of the class reads as those members: the blank lines keep
  every comment from the member behind it, and nothing else looks past the end of a member.
Main exports: Member.Nests, exists_nests, Member.Nests.exists_around, exists_members
-/
import JavaUnit.Proofs.BlockBodies
import JavaUnit.Proofs.MemberItems

namespace JavaUnit

/-! ### Comments in front -/

/-- A comment that is not doc-style opens the text. -/
def OpensComment (text : Text) : Prop :=
  ∃ more, text = '/' :: '/' :: more ∨ text = '/' :: '*' :: more ∧ more.head? ≠ some '*'

namespace OpensComment

variable {text rest : Text}

theorem plain_of_cut (h : OpensComment text) {token : Token} (cut : Cut text token rest) :
    token.isPlainComment = true := by
  obtain ⟨more, rfl | ⟨rfl, other⟩⟩ := h
  · obtain ⟨rfl, -⟩ := cut.unique (.lineComment more)
    rfl
  · obtain ⟨first, body, -, whole, spelled⟩ := cut.exists_spelled
    obtain ⟨rfl, behind⟩ := List.cons.inj whole
    have scanned := scan_of_scanned spelled.scanned
    rw [← behind] at scanned
    obtain ⟨-, kind⟩ := Extent.scan_eq_token.1 (show Extent.scan _ _ _ = _ from scanned)
    have noDoc : more[0]? ≠ some '*' := by rwa [← List.head?_eq_getElem?]
    simp only [List.getElem?_cons_succ, noDoc, decide_false, Bool.false_and] at kind
    simp [Token.isPlainComment, kind]

theorem startsInked (h : OpensComment text) : Text.StartsInked text := by
  obtain ⟨more, rfl | ⟨rfl, -⟩⟩ := h <;> exact startsOff_cons.2 (by decide)

theorem of_render {node : Comment} (plain : node.isDoc = false) :
    OpensComment (node.render ++ '\n' :: rest) := by
  have block : ∀ {c : Char} {more : Text}, c ≠ '*' → OpensComment ('/' :: '*' :: c :: more) :=
    fun other => ⟨_, .inr ⟨rfl, by simpa using other⟩⟩
  obtain ⟨style, lines, editable⟩ := node
  cases style with
  | doc => cases plain
  | line => cases lines <;> exact ⟨_, .inl rfl⟩
  | block =>
      match lines with
      | [] => exact block (by decide)
      | [line] =>
          show OpensComment ((if fitsCondensed line = true then condensed "/*".toList line
            else spread "/*".toList (starLine line)) ++ '\n' :: rest)
          split
          · exact block (c := ' ') (by decide)
          · exact block (c := '\n') (by decide)
      | _ :: _ :: _ => exact block (by decide)

/-- A text that opens a comment still does so if it breaks off behind the delimiter. -/
theorem breakOff {line tail : Text} (h : OpensComment text) (front : line <+: text)
    (long : 2 ≤ line.length) (breaks : tail.head?.all (· = '\n') = true) :
    OpensComment (line ++ tail) := by
  obtain ⟨cut, whole⟩ := front
  match line, long with
  | first :: second :: line, _ =>
      obtain ⟨more, rfl | ⟨rfl, other⟩⟩ := h
      · obtain ⟨rfl, rfl, -⟩ : first = '/' ∧ second = '/' ∧ _ := by simpa using whole
        exact ⟨_, .inl rfl⟩
      · obtain ⟨rfl, rfl, rfl⟩ : first = '/' ∧ second = '*' ∧ line ++ cut = more := by
          simpa using whole
        refine ⟨line ++ tail, .inr ⟨rfl, ?_⟩⟩
        cases line with
        | nil =>
            intro star
            rw [List.nil_append] at star
            simp [star] at breaks
        | cons => exact other

end OpensComment

namespace Text

variable {text : Text}

theorem exists_split_append {mark : Char} {front : Text} (absent : mark ∉ front) (more : Text) :
    ∃ first others, split mark (front ++ more) = (front ++ first) :: others := by
  induction front with
  | nil => exact List.exists_cons_of_ne_nil (split_ne_nil mark more)
  | cons c front ih =>
      obtain ⟨first, others, same⟩ := ih (List.not_mem_of_not_mem_cons absent)
      have other : c ≠ mark := fun same => absent (same ▸ List.mem_cons_self)
      refine ⟨first, others, ?_⟩
      rw [List.cons_append, split, if_neg other, same]
      rfl

/-- A carriage return is all that a line loses. -/
theorem prefix_stripReturn {front first : Text} (absent : '\r' ∉ front) :
    front <+: stripReturn (front ++ first) ∧ stripReturn (front ++ first) <+: front ++ first := by
  rw [stripReturn]
  cases stripped : beforeTail? ['\r'] (front ++ first) with
  | none => exact ⟨List.prefix_append _ _, List.prefix_refl _⟩
  | some line =>
      have whole := beforeTail?_eq_some stripped
      refine ⟨?_, whole ▸ List.prefix_append _ _⟩
      rcases List.append_eq_append_iff.1 whole with ⟨more, rfl, -⟩ | ⟨more, rfl, same⟩
      · exact List.prefix_append _ _
      · cases more with
        | nil => exact ⟨[], by simp⟩
        | cons c more =>
            obtain rfl : '\r' = c := (List.cons.inj same).1
            simp at absent

/-- The first line of a text begins with what the text begins with, up to the end of the line. -/
theorem exists_first_line {front more : Text} (present : front ≠ []) (line : '\n' ∉ front)
    (noReturn : '\r' ∉ front) :
    ∃ line later, (front ++ more).lines = line :: later ∧ front <+: line ∧
      line <+: front ++ more := by
  obtain ⟨first, others, split⟩ := exists_split_append line more
  have whole : front ++ first <+: front ++ more := by
    have joined := join_split '\n' (front ++ more)
    rw [split] at joined
    cases others with
    | nil => exact joined ▸ by simp
    | cons next others =>
        rw [← joined, join, List.intercalate_cons_cons, List.append_assoc]
        exact List.prefix_append _ _
  have some : front ++ first ≠ [] := by simp [present]
  rw [lines, split]
  cases others with
  | nil => exact ⟨_, [], by simp [some], List.prefix_append _ _, whole⟩
  | cons next others =>
      obtain ⟨starts, within⟩ := @prefix_stripReturn front first noReturn
      exact ⟨_, _, rfl, starts, within.trans whole⟩

theorem exists_indent_line {line : Text} {later : List Text} (lines : text.lines = line :: later)
    (present : line ≠ []) :
    ∃ tail : Text, text.indent = tab ++ (line ++ tail) ∧ tail.head?.all (· = '\n') = true := by
  rw [indent, lines, List.map_cons, if_neg present]
  cases later with
  | nil => exact ⟨[], by simp, rfl⟩
  | cons next later =>
      rw [unlines_cons (by simp)]
      exact ⟨_, List.append_assoc _ _ _, rfl⟩

end Text

/-- Indentation goes in front of the comment. -/
theorem OpensComment.exists_indent {text : Text} (h : OpensComment text) :
    ∃ more, text.indent = Text.tab ++ more ∧ OpensComment more := by
  obtain ⟨front, more, rfl, long, line, noReturn⟩ : ∃ front more, text = front ++ more ∧
      front.length = 2 ∧ '\n' ∉ front ∧ '\r' ∉ front := by
    obtain ⟨more, rfl | ⟨rfl, -⟩⟩ := h
    · exact ⟨"//".toList, more, rfl, by decide⟩
    · exact ⟨"/*".toList, more, rfl, by decide⟩
  have present : front ≠ [] := by
    rintro rfl
    cases long
  obtain ⟨first, later, lines, starts, within⟩ := Text.exists_first_line present line noReturn
  have longer := long ▸ starts.length_le
  obtain ⟨tail, indented, breaks⟩ := Text.exists_indent_line lines (by
    rintro rfl
    cases longer)
  exact ⟨_, indented, h.breakOff within longer breaks⟩

/-! ### Members that read back -/

/-- The text of a member, one level deeper, reads as a member that renders alike. -/
structure Member.Nests (name : Text) (node again : Member) : Prop where
  parsed : Entry.member.parseText name node.render.indent = .ok again
  same : again.render = node.render

/-- Whether members nest is decided by reading each of them. -/
theorem exists_nests {name : Text} {members : List Member}
    (each : ∀ node ∈ members, (Entry.member.parseText name node.render.indent).toOption.map
      Member.render = some node.render) :
    ∃ agains, List.Forall₂ (Member.Nests name) members agains := by
  induction members with
  | nil => exact ⟨[], .nil⟩
  | cons node others ih =>
      obtain ⟨own, each⟩ := List.forall_mem_cons.1 each
      obtain ⟨again, parsed, same⟩ := Option.map_eq_some_iff.1 own
      obtain ⟨agains, others⟩ := ih each
      exact ⟨again :: agains, .cons ⟨eq_ok_of_toOption parsed, same⟩ others⟩

/-- What is read with a comment in front of it renders the comment first. -/
theorem Alone.exists_render {core : List Token} {node : Member} (h : Alone core node)
    {comment : Comment} (own : node.sectionComment? = some comment) :
    ∃ rest, node.render = comment.render ++ '\n' :: rest := by
  cases h with
  | comment => cases own
  | code code closed ink inside reads =>
      cases reads [] with
      | staticBlock => cases own
      | comment => cases own
      | @declared declared _ _ noBlock noComment reads =>
          have lead : ∀ lead : Lead, lead.sectionComment = some comment →
              ∃ rest, lead.render = comment.render ++ '\n' :: rest := by
            intro lead own
            rw [Lead.render, own]
            simp
          cases declared with
          | field node =>
              obtain ⟨rest, rendered⟩ := lead node.toLead own
              simp only [Declaration.toMember, Member.render, Field.render, rendered,
                List.append_assoc, List.cons_append]
              exact ⟨_, rfl⟩
          | method node =>
              obtain ⟨rest, rendered⟩ := lead node.toLead own
              simp only [Declaration.toMember, Member.render, Method.render, rendered,
                List.append_assoc, List.cons_append]
              exact ⟨_, rfl⟩
          | classDecl node =>
              obtain ⟨before, mid, _, _, -, declares, -⟩ := Reading.reads_bind.1 reads
              have bare := (Reading.bare_of_declaration declares).1
              obtain ⟨rest, rendered⟩ := lead node.toLead own
              have none : node.renderFileHead = [] := by
                simp [ClassHead.renderFileHead, bare.headerComments, bare.package, bare.imports]
              simp only [Declaration.toMember, Member.ofClass, Member.render, ClassHead.render,
                ClassHead.renderDeclaration, none, rendered, List.nil_append, List.append_assoc,
                List.cons_append]
              exact ⟨_, rfl⟩

namespace Member.Nests

variable {name : Text} {node again : Member}

/-- The indented text is that of the member's tokens with white space around it, and a comment in
front of the member is the first of them. -/
theorem exists_around (h : node.Nests name again) :
    ∃ lead core trail, node.render.indent = lead ++ (textOf core ++ trail) ∧
      Text.isBlank lead = true ∧ Text.isBlank trail = true ∧ Alone core again ∧
      Cuts (textOf core ++ trail) core trail ∧
      ∀ comment, again.sectionComment? = some comment → comment.isDoc = false →
        (currentToken core).isPlainComment = true := by
  obtain ⟨lead, core, trail, whole, blank, blank', alone, cuts⟩ :=
    exists_around_of_parseText h.parsed
  refine ⟨lead, core, trail, whole, blank, blank', alone, cuts, fun comment own plain => ?_⟩
  obtain ⟨rest, rendered⟩ := alone.exists_render own
  obtain ⟨more, indented, opens⟩ := (@OpensComment.of_render rest _ plain).exists_indent
  rw [← rendered, h.same, whole] at indented
  have head := cuts.head_of_ink alone.ne_nil alone.currentToken_spec.1
  have inked : Text.StartsInked (textOf core ++ trail) := fun c first => by simpa [first] using head
  have same : textOf core ++ trail = more := by
    rw [← Text.trimStart_append blank inked, indented,
      Text.trimStart_append (by decide) opens.startsInked]
  obtain ⟨token, others, rfl⟩ := List.exists_cons_of_ne_nil alone.ne_nil
  rw [same] at cuts
  cases cuts with
  | cons cut => exact opens.plain_of_cut cut

end Member.Nests

/-! ### Members in a row -/

/-- No comment belongs to the end of a class body. -/
theorem precedesDeclaration_closing (blanks : Text) {later : List Token}
    (closes : (currentToken later).kind = .closeBrace) :
    precedesDeclaration true (blankTokens blanks ++ later) = false := by
  obtain ⟨token, others, rfl⟩ : ∃ token others, later = token :: others := by
    cases later with
    | nil => cases closes
    | cons token others => exact ⟨token, others, rfl⟩
  have kind : token.kind = .closeBrace := closes
  have none : startsDeclaration true token = false := by simp [startsDeclaration, kind]
  rw [blankTokens]
  split
  · simp [precedesDeclaration, Token.isWhitespace, kind, none]
  · simp [precedesDeclaration, Token.isWhitespace, none]

/-- Members whose indented texts read back are read from a class body that holds those texts with
blank lines between them. -/
theorem exists_members {name : Text} {nodes agains : List Member}
    (each : List.Forall₂ (Member.Nests name) nodes agains) (some : nodes ≠ []) {blanks : Text}
    (blank : blanks.isBlank = true) (post : Text) :
    ∃ tokens, Cuts (blanks ++ (Text.join "\n\n".toList (nodes.map (·.render.indent)) ++
        '\n' :: '\x7d' :: post)) tokens ('\x7d' :: post) ∧
      ∀ later, (currentToken later).kind = .closeBrace →
        (∃ items trail, (∀ token ∈ trail, token.isWhitespace = true) ∧
          Reading.BodyItems (tokens ++ later) items (trail ++ later) ∧
          ∀ state : Attachment, state.pending = {} →
            items.foldl Attachment.add state = { state with members := state.members ++ agains }) ∧
        (2 ≤ blanks.count '\n' → precedesDeclaration true (tokens ++ later) = false) := by
  -- the white space in front is what the text before leaves over, with the blank line behind it
  induction each generalizing blanks with
  | nil => exact absurd rfl some
  | @cons node again nodes agains nests others ih =>
      obtain ⟨lead, core, trail, whole, leads, trails, alone, cuts, first⟩ := nests.exists_around
      have before : Text.isBlank (blanks ++ lead) = true := by
        rw [Text.isBlank_append, blank, leads]
        rfl
      have white : ∀ {blanks : Text}, ∀ token ∈ blankTokens blanks, token.isWhitespace = true :=
        fun _ mem => isWhitespace_of_mem_blankTokens mem
      cases others with
      | nil =>
          have own := alone.cuts_blanks before (alone.cuts_append cuts
            (show ('\n' :: '\x7d' :: post).head?.all (· = '\n') = true from rfl))
          have behind : Cuts ((trail ++ ['\n']) ++ '\x7d' :: post) (blankTokens (trail ++ ['\n']))
              ('\x7d' :: post) := by
            refine cuts_blanks ?_ rfl
            rw [Text.isBlank_append, trails]
            rfl
          rw [List.append_assoc, List.singleton_append] at behind
          refine ⟨blankTokens (blanks ++ lead) ++ core ++ blankTokens (trail ++ ['\n']), ?_,
            fun later closes => ⟨?_, ?_⟩⟩
          · simpa [Text.join, whole] using own.append behind
          · obtain ⟨items, row, attached⟩ := alone.exists_items first (@white (blanks ++ lead))
              (precedesDeclaration_closing (trail ++ ['\n']) closes)
            refine ⟨items, blankTokens (trail ++ ['\n']), white, ?_, attached⟩
            simpa only [List.append_assoc] using row
          · rw [List.append_assoc, List.append_assoc]
            exact fun lines => precedesDeclaration_blanks lines lead _
      | @cons node' again' nodes agains nests' others' =>
          have blank' : Text.isBlank (trail ++ "\n\n".toList) = true := by
            rw [Text.isBlank_append, trails]
            rfl
          obtain ⟨tokens, later, row⟩ := ih (List.cons_ne_nil _ _) blank'
          rw [List.append_assoc] at later
          have own := alone.cuts_blanks before (alone.cuts_append cuts
            (show ("\n\n".toList ++ (Text.join "\n\n".toList
              ((node' :: nodes).map (·.render.indent)) ++ '\n' :: '\x7d' :: post)).head?.all
              (· = '\n') = true from rfl))
          refine ⟨blankTokens (blanks ++ lead) ++ core ++ tokens, ?_, fun behind closes => ⟨?_, ?_⟩⟩
          · simpa [Text.join, List.intercalate_cons_cons, whole] using own.append later
          · obtain ⟨⟨items', trail', white', row', attached'⟩, apart⟩ := row behind closes
            have apart := apart (by rw [List.count_append]; exact Nat.le_add_left 2 _)
            obtain ⟨items, row, attached⟩ :=
              alone.exists_items first (@white (blanks ++ lead)) apart
            refine ⟨items ++ items', trail', white', ?_, fun state idle => ?_⟩
            · simpa only [List.append_assoc] using row.append row'
            · rw [List.foldl_append, attached state idle,
                attached' { state with members := state.members ++ [again] } idle]
              simp
          · rw [List.append_assoc, List.append_assoc]
            exact fun lines => precedesDeclaration_blanks lines lead _

end JavaUnit
