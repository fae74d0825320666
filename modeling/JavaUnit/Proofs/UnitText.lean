/-
Module: JavaUnit.Proofs.UnitText
Purpose: The text of a file. Header comments, package declaration, imports, the comment in front of
  the class, the class and the comments behind it are items of the file, each read behind the line
  breaks that the item in front of it leaves. So a class is read back from its rendering, if its
  members are and its head is written as it is read.
Main exports: Reading.takes_file, ClassDecl.parseText_render, ClassDecl.reads_back,
  ClassDecl.parseText_render_of_members, reads_back_of_parseText
-/
import JavaUnit.Proofs.CommentRoundTrip
import JavaUnit.Proofs.LeadText
import JavaUnit.Proofs.Origins

namespace JavaUnit

theorem Comment.render_ne_nil (node : Comment) : node.render ≠ [] := by
  have opens : node.style.opening ≠ [] := by cases node.style <;> decide
  rw [render]
  split
  · exact List.cons_ne_nil _ _
  · exact List.cons_ne_nil _ _
  · exact List.append_ne_nil_of_left_ne_nil opens _
  · split <;> simp [condensed, spread]
  · simp [spread]

/-- What it takes for the file around a class to be read back. A comment that begins as Javadoc does
is told from it by the package declaration or the import behind it, which one such comment at most
stands in front of. -/
structure ClassDecl.Filed (node : ClassDecl) : Prop where
  headerComments : ∀ comment ∈ node.headerComments, comment.Canonical
  package : ∀ package ∈ node.package, package.Canonical
  imports : ∀ each ∈ node.imports, each.Canonical
  sectionComment : ∀ comment ∈ node.sectionComment, comment.Canonical
  trailingComments : ∀ comment ∈ node.trailingComments, comment.Canonical
  single : node.headerComments.countP Comment.isDoc ≤ 1

namespace Reading

variable {state last next : FileState} {blanks text rest after : Text} {token : Token}

/-! ### Comments in a file -/

/-- A token behind a single line break decides whether a declaration begins there. -/
theorem precedesDeclaration_of_cut (cut : Cut text token after) (ink : token.isWhitespace = false)
    {later : List Token} (lexed : Lexed ('\n' :: text) later) :
    precedesDeclaration false later = startsDeclaration false token := by
  have breaks := @cuts_blanks ['\n'] _ (by decide) (head_of_cut cut ink)
  have both : Cuts ('\n' :: text) [⟨.whitespace, ['\n']⟩, token] after :=
    breaks.append (.cons cut .nil)
  obtain ⟨others, rfl, -⟩ := both.lexed_iff.1 lexed
  simp [precedesDeclaration, Token.isWhitespace]

theorem startsDeclaration_of_isPlainComment (plain : token.isPlainComment = true) (inBody : Bool) :
    startsDeclaration inBody token = false := by
  have kinds : token.kind = .lineComment ∨ token.kind = .blockComment := by
    simpa [Token.isPlainComment] using plain
  rcases kinds with kind | kind <;> simp [startsDeclaration, kind]

theorem isPlainComment_of_style {node : Comment} (kind : token.kind = node.style.kind) :
    token.isPlainComment = !node.isDoc := by
  cases style : node.style <;>
    simp [Token.isPlainComment, Comment.isDoc, kind, style, CommentStyle.kind]

/-- The rendering of a comment is cut into one token that is read as it. -/
theorem exists_comment_cut {node : Comment} (canonical : node.Canonical) (rest : Text)
    (ends : node.style = .line → rest.head?.all endsLine = true) :
    ∃ token, Cut (node.render ++ rest) token rest ∧ token.kind = node.style.kind ∧
      token.isWhitespace = false ∧ ∀ later, comment.Reads (token :: later) node later [] := by
  obtain ⟨token, draft, cut, kind, draws, built⟩ := Comment.cut_render canonical 0 ends
  rw [Text.shift_zero] at cut
  have ink : token.isWhitespace = false := by
    cases style : node.style <;> simp [Token.isWhitespace, kind, style, CommentStyle.kind]
  exact ⟨token, cut, kind, ink, fun later => reads_comment.2
    ⟨rfl, token, draft, List.dropWhile_cons_of_neg (by simp [ink]), draws, built⟩⟩

/-- An item is read behind white space. -/
theorem takes_fileItem {tokens : List Token} {turn : Turn FileState} (blank : blanks.isBlank = true)
    (cuts : Cuts text tokens rest) (cut : Cut text token after) (ink : token.isWhitespace = false)
    (step : ∀ later, Lexed rest later → currentToken (tokens ++ later) = token →
      FileStep state (tokens ++ later) turn later) :
    (fileItem state).Takes (blanks ++ text) turn rest := by
  refine ⟨_, (cuts_blanks blank (head_of_cut cut ink)).append cuts,
    fun later lexed => reads_fileItem.2 ⟨rfl, ?_⟩⟩
  have first := begins_of_cut cut _ (cuts.lexed lexed)
  rw [List.append_assoc,
    List.dropWhile_append_of_pos fun token mem => isWhitespace_of_mem_blankTokens mem,
    dropWhile_of_current (by rw [first, ink])]
  exact step later lexed first

/-- A comment that is not doc-style is added to the file, whatever `next` that comes to. -/
theorem takes_fileComment {node : Comment} (canonical : node.Canonical) (plain : node.isDoc = false)
    (blank : blanks.isBlank = true) (ends : rest.head?.all endsLine = true)
    (adds : ∀ later, Lexed rest later →
      state.addComment (precedesDeclaration false later) node = next) :
    (fileItem state).Takes (blanks ++ (node.render ++ rest)) (.again next) rest := by
  obtain ⟨token, cut, kind, ink, reads⟩ := exists_comment_cut canonical rest fun _ => ends
  have comment : token.isPlainComment = true := by rw [isPlainComment_of_style kind, plain]; rfl
  refine takes_fileItem blank (.cons cut .nil) cut ink fun later lexed _ => ?_
  rw [← adds later lexed]
  exact @FileStep.comment state (token :: later) later node comment (reads later)

/-- A doc-style comment in front of a package declaration or an import is a header comment. -/
theorem takes_fileHeader {node : Comment} (canonical : node.Canonical) (doc : node.isDoc = true)
    (blank : blanks.isBlank = true) (announces : ∀ later, Lexed rest later → Announces later) :
    (fileItem state).Takes (blanks ++ (node.render ++ rest)) (.again (state.addHeaderComment node))
      rest := by
  have style : node.style = .doc := by simpa [Comment.isDoc] using doc
  obtain ⟨token, cut, kind, ink, reads⟩ :=
    exists_comment_cut canonical rest fun line => by simp [style] at line
  rw [style] at kind
  exact takes_fileItem blank (.cons cut .nil) cut ink fun later lexed _ =>
    .header ((headsFile_cons later).2 ⟨kind, announces later lexed⟩) (reads later)

/-! ### Behind the class -/

/-- At the end of the text a file ends. -/
theorem takes_fileEnd : (iterate fileItem state).Takes [] state [] := by
  refine .last ⟨[], .nil, fun later lexed => ?_⟩
  cases lexed
  exact reads_fileItem.2 ⟨rfl, .ends rfl⟩

/-- Comments behind the class are kept behind it. -/
theorem takes_trailing {comments : List Comment} (behind : state.outer.isSome = true)
    (canonical : ∀ node ∈ comments, node.Canonical)
    (plain : ∀ node ∈ comments, node.isDoc = false) :
    (iterate fileItem state).Takes (comments.flatMap ('\n' :: ·.render))
      { state with trailingComments := state.trailingComments ++ comments } [] := by
  induction comments generalizing state with
  | nil => simpa using @takes_fileEnd state
  | cons node others ih =>
      rw [List.forall_mem_cons] at canonical plain
      have ends : (others.flatMap ('\n' :: Comment.render ·)).head?.all endsLine = true := by
        cases others <;> rfl
      have later := @ih { state with trailingComments := state.trailingComments ++ [node] } behind
        canonical.2 plain.2
      simp only [List.append_assoc, List.singleton_append] at later
      rw [List.flatMap_cons]
      exact Takes.again (@takes_fileComment state _ ['\n'] _ _ canonical.1 plain.1 (by decide) ends
        fun later _ => if_pos behind) (mt List.append_left_eq_self.1 (List.cons_ne_nil _ _)) later

/-! ### The rest of a file -/

/-- Behind any white space, the rest of a file is read from `text`, and comes to `last`. -/
def FileGoes (state : FileState) (text : Text) (last : FileState) : Prop :=
  ∀ blanks : Text, blanks.isBlank = true →
    (iterate fileItem state).Takes (blanks ++ text) last []

namespace FileGoes

variable {front : Text}

theorem behind_break (h : FileGoes state text last) : FileGoes state ('\n' :: text) last := by
  intro blanks blank
  have both : Text.isBlank (blanks ++ ['\n']) = true := by
    rw [Text.isBlank_append, blank]
    rfl
  simpa using h _ both

/-- An item in front of a line break leaves the rest of the file. -/
theorem again (one : ∀ blanks : Text, blanks.isBlank = true →
      (fileItem state).Takes (blanks ++ (front ++ '\n' :: text)) (.again next) ('\n' :: text))
    (present : front ≠ []) (later : FileGoes next text last) :
    FileGoes state (front ++ '\n' :: text) last := by
  intro blanks blank
  refine Takes.again (one blanks blank) ?_ (later ['\n'] (by decide))
  rw [← List.append_assoc]
  exact mt List.append_left_eq_self.1 (List.append_ne_nil_of_right_ne_nil _ present)

end FileGoes

/-! ### The class -/

section

variable {file : Text} {node : ClassDecl} {agains : List Member}

/-- The class with the comment in front of it and the comments behind it. -/
theorem goes_class (waits : state.sectionComment = none) (first : state.outer = none)
    (bare : state.trailingComments = []) (outside : node.inner = false) (sound : node.Sound)
    (lawful : node.Lawful) (written : node.Written) (filed : node.Filed)
    (each : List.Forall₂ (Member.Nests file) node.members agains) :
    FileGoes state (node.sectionComment.toList.flatMap (·.render ++ ['\n']) ++
        node.declaredText (node.trailingComments.flatMap ('\n' :: ·.render)))
      { state with
        outer := some ⟨node.alone, agains⟩
        trailingComments := node.trailingComments } := by
  have plain : ∀ comment ∈ node.trailingComments, comment.isDoc = false := fun comment mem => by
    simpa using List.any_eq_false.1 sound.trailing comment mem
  have declared : ∀ {state : FileState}, state.sectionComment = node.sectionComment →
      state.outer = none → state.trailingComments = [] →
      FileGoes state (node.declaredText (node.trailingComments.flatMap ('\n' :: ·.render)))
        { state with
          sectionComment := none
          outer := some ⟨node.alone, agains⟩
          trailingComments := node.trailingComments } := by
    rintro ⟨headers, _, _, package, imports, _, defects⟩ waits rfl rfl blanks blank
    refine Takes.again (takes_outermost blank waits rfl outside sound lawful written each _) ?_
      (takes_trailing rfl filed.trailingComments plain)
    intro same
    have lengths := congrArg List.length same
    simp only [ClassDecl.declaredText, ClassHead.openingText, List.length_append,
      List.length_cons] at lengths
    omega
  obtain ⟨headers, _, _, package, imports, _, defects⟩ := state
  obtain rfl := waits
  obtain rfl := first
  obtain rfl := bare
  cases comment : node.sectionComment with
  | none => exact declared comment.symm rfl rfl
  | some node' =>
      obtain ⟨token, after, cut, ink, starts⟩ := ClassDecl.exists_cut_declaredText written.javadoc
        (node.trailingComments.flatMap ('\n' :: ·.render))
      have plain' : node'.isDoc = false := by
        have own := sound.plain
        rw [comment] at own
        simpa using own
      have text : (some node').toList.flatMap (·.render ++ ['\n']) ++
          node.declaredText (node.trailingComments.flatMap ('\n' :: ·.render)) =
            node'.render ++ '\n' ::
              node.declaredText (node.trailingComments.flatMap ('\n' :: ·.render)) := by
        simp
      rw [text]
      refine .again (fun blanks blank => takes_fileComment (filed.sectionComment node' comment)
        plain' blank rfl fun later lexed => ?_) ?_ (@declared
          ⟨headers, [], some node', package, imports, none, defects⟩ comment.symm rfl rfl)
      · rw [precedesDeclaration_of_cut cut ink lexed, starts]
        simp [FileState.addComment, FileState.releaseComment]
      · exact node'.render_ne_nil

end

/-! ### The head of a file -/

/-- A text begins with a keyword and a space behind it. -/
def StartsWithWord (word : Keyword) (text : Text) : Prop :=
  ∃ behind, text = word.text ++ ' ' :: behind

namespace StartsWithWord

variable {word : Keyword}

theorem ne_nil (h : StartsWithWord word text) : text ≠ [] := by
  obtain ⟨behind, rfl⟩ := h
  exact List.append_ne_nil_of_right_ne_nil _ (List.cons_ne_nil _ _)

theorem exists_cut (h : StartsWithWord word text) (rest : Text) :
    ∃ after, Cut (text ++ rest) ⟨.keyword word, word.text⟩ after := by
  obtain ⟨behind, rfl⟩ := h
  rw [List.append_assoc]
  exact ⟨_, cut_keyword word (stops_cons (show ' ' ∈ boundaryChars by decide) (behind ++ rest))⟩

theorem packageStatement (node : Package) : StartsWithWord .package node.render := by
  have word : "package ".toList = Keyword.text .package ++ [' '] := rfl
  refine ⟨node.name ++ [';'], ?_⟩
  show "package ".toList ++ node.name ++ [';'] = _
  rw [word]
  simp only [List.append_assoc, List.cons_append, List.nil_append]

theorem importStatement (node : Import) : StartsWithWord .import node.render := by
  have word : "import ".toList = Keyword.text .import ++ [' '] := rfl
  refine ⟨(if node.isStatic then "static ".toList else []) ++ (node.name
    ++ ((if node.isWildcard then ".*".toList else []) ++ [';'])), ?_⟩
  show "import ".toList ++ (if node.isStatic then "static ".toList else []) ++ node.name
    ++ (if node.isWildcard then ".*".toList else []) ++ [';'] = _
  rw [word]
  simp only [List.append_assoc, List.cons_append, List.nil_append]

end StartsWithWord

theorem takes_filePackage {node : Package} (canonical : node.Canonical)
    (blank : blanks.isBlank = true) (rest : Text) :
    (fileItem state).Takes (blanks ++ (node.render ++ rest)) (.again (state.addPackage node))
      rest := by
  obtain ⟨tokens, cuts, reads⟩ := @takes_packageStatement rest _ canonical
  obtain ⟨after, cut⟩ := (StartsWithWord.packageStatement node).exists_cut rest
  refine takes_fileItem blank cuts cut rfl fun later lexed first => ?_
  exact .packageStatement (by rw [first]) (reads later lexed)

theorem takes_fileImport {node : Import} (canonical : node.Canonical)
    (blank : blanks.isBlank = true) (rest : Text) :
    (fileItem state).Takes (blanks ++ (node.render ++ rest)) (.again (state.addImport node))
      rest := by
  obtain ⟨tokens, cuts, reads⟩ := @takes_importStatement rest _ canonical
  obtain ⟨after, cut⟩ := (StartsWithWord.importStatement node).exists_cut rest
  refine takes_fileItem blank cuts cut rfl fun later lexed first => ?_
  exact .importStatement (by rw [first]) (reads later lexed)

namespace FileGoes

/-- A package declaration is read. -/
theorem package {package : Option Package} (canonical : ∀ node ∈ package, node.Canonical)
    (first : state.outer = none) (none : state.package = none) (early : state.imports = [])
    (later : FileGoes { state with package } text last) :
    FileGoes state ((package.map (·.render ++ "\n\n".toList)).getD [] ++ text) last := by
  cases package with
  | none => rwa [← none] at later
  | some node =>
      have whole : ((some node).map (·.render ++ "\n\n".toList)).getD [] ++ text =
          node.render ++ '\n' :: '\n' :: text := by
        simp
      have added : state.addPackage node = { state with package := some node } := by
        simp [FileState.addPackage, first, none, early]
      rw [whole]
      rw [← added] at later
      exact .again (fun blanks blank => takes_filePackage (canonical node rfl) blank _)
        (StartsWithWord.packageStatement node).ne_nil later.behind_break

/-- Imports are read one by one. -/
theorem imports {imports : List Import} (canonical : ∀ each ∈ imports, each.Canonical)
    (first : state.outer = none)
    (later : FileGoes { state with imports := state.imports ++ imports } text last) :
    FileGoes state (imports.flatMap (·.render ++ ['\n']) ++ text) last := by
  induction imports generalizing state with
  | nil => simpa using later
  | cons node others ih =>
      obtain ⟨own, canonical⟩ := List.forall_mem_cons.1 canonical
      have behind := @ih { state with imports := state.imports ++ [node] } canonical first
        (by simpa using later)
      have whole : (node :: others).flatMap (·.render ++ ['\n']) ++ text =
          node.render ++ '\n' :: (others.flatMap (·.render ++ ['\n']) ++ text) := by
        simp
      rw [whole]
      have added : state.addImport node = { state with imports := state.imports ++ [node] } := by
        simp [FileState.addImport, first]
      rw [← added] at behind
      exact .again (fun blanks blank => takes_fileImport own blank _)
        (StartsWithWord.importStatement node).ne_nil behind

end FileGoes

/-! ### Header comments -/

/-- Header comments can stand in front of a text that begins with no declaration, a doc-style one
only in front of a package declaration or an import. -/
structure Heads (comments : List Comment) (text : Text) (token : Token) (after : Text) : Prop where
  cut : Cut text token after
  ink : token.isWhitespace = false
  other : startsDeclaration false token = false
  announces : comments.any Comment.isDoc = true →
    token.keyword? ∈ [some Keyword.package, some Keyword.import]

section

variable {comments : List Comment}

/-- Header comments are followed by one more of them or by the text that they head. -/
theorem exists_cut_headers (canonical : ∀ node ∈ comments, node.Canonical)
    (cut : Cut text token after) (ink : token.isWhitespace = false) :
    ∃ first behind, Cut (comments.flatMap (·.render ++ ['\n']) ++ text) first behind ∧
      first.isWhitespace = false ∧ (comments = [] → first = token) := by
  cases comments with
  | nil => exact ⟨token, after, cut, ink, fun _ => rfl⟩
  | cons node others =>
      obtain ⟨first, cut', -, ink', -⟩ := exists_comment_cut (canonical node List.mem_cons_self)
        ('\n' :: (others.flatMap (·.render ++ ['\n']) ++ text)) fun _ => rfl
      exact ⟨first, _, by simpa using cut', ink', fun none => absurd none (List.cons_ne_nil _ _)⟩

/-- Comments that are not doc-style are passed over on the way to the next token that matters. -/
theorem peeks_headers (canonical : ∀ node ∈ comments, node.Canonical)
    (plain : ∀ node ∈ comments, node.isDoc = false) (cut : Cut text token after)
    (matters : token.isTrivia = false) :
    Peeks 0 ('\n' :: (comments.flatMap (·.render ++ ['\n']) ++ text)) token := by
  have ink := (Bool.or_eq_false_iff.1 matters).1
  induction comments with
  | nil => exact (@Ahead.of_blanks _ _ _ ['\n'] (by decide) (.of_cut cut matters)).peeks
  | cons node others ih =>
      obtain ⟨own, canonical⟩ := List.forall_mem_cons.1 canonical
      obtain ⟨notDoc, plain⟩ := List.forall_mem_cons.1 plain
      obtain ⟨first, cut', kind, ink', -⟩ := exists_comment_cut own
        ('\n' :: (others.flatMap (·.render ++ ['\n']) ++ text)) fun _ => rfl
      have comment : first.isTrivia = true := by
        rw [Token.isTrivia, isPlainComment_of_style kind, notDoc, Bool.not_false, Bool.or_true]
      have breaks := @cut_whitespace ['\n'] _ (by decide)
        (List.forall_mem_singleton.2 (by decide)) (head_of_cut cut' ink')
      have ahead := peeks_of_cut breaks rfl (peeks_of_cut cut' comment (ih canonical plain))
      simpa using ahead

namespace FileGoes

/-- A doc-style comment in front of a package declaration or an import, other comments between the
two or not, is a header comment. -/
theorem docHeader {node : Comment} (own : node.Canonical) (doc : node.isDoc = true)
    (canonical : ∀ node ∈ comments, node.Canonical) (plain : ∀ node ∈ comments, node.isDoc = false)
    (cut : Cut text token after)
    (announces : token.keyword? ∈ [some Keyword.package, some Keyword.import])
    (later : FileGoes (state.addHeaderComment node) (comments.flatMap (·.render ++ ['\n']) ++ text)
      last) :
    FileGoes state (node.render ++ '\n' :: (comments.flatMap (·.render ++ ['\n']) ++ text))
      last := by
  have matters : token.isTrivia = false := by
    cases kind : token.kind <;>
      simp_all [Token.isTrivia, Token.isWhitespace, Token.isPlainComment, Token.keyword?]
  refine .again (fun blanks blank => takes_fileHeader own doc blank fun later lexed => ?_)
    node.render_ne_nil later
  rw [Announces, peeks_headers canonical plain cut matters _ lexed]
  exact announces

/-- Header comments are read one by one. One that waits in front of another is moved to the head of
the file by that one. -/
theorem headers (canonical : ∀ node ∈ comments, node.Canonical) (first : state.outer = none)
    (waits : comments = [] → state.sectionComment = none)
    (heads : comments ≠ [] → ∃ token after, Heads comments text token after)
    (single : comments.countP Comment.isDoc ≤ 1)
    (later : FileGoes { state with
      headerComments := state.headerComments ++ (state.sectionComment.toList ++ comments)
      sectionComment := none } text last) :
    FileGoes state (comments.flatMap (·.render ++ ['\n']) ++ text) last := by
  induction comments generalizing state with
  | nil =>
      obtain ⟨_, _, waiting, _, _, _, _⟩ := state
      obtain rfl := waits rfl
      simpa using later
  | cons node others ih =>
      obtain ⟨own, canonical⟩ := List.forall_mem_cons.1 canonical
      obtain ⟨token, after, heads⟩ := heads (List.cons_ne_nil _ _)
      have others' : others ≠ [] → ∃ token after, Heads others text token after := fun _ =>
        ⟨token, after, { heads with announces := fun doc => heads.announces (by simp [doc]) }⟩
      have single' : others.countP Comment.isDoc ≤ 1 :=
        Nat.le_trans (List.sublist_cons_self node others).countP_le single
      have standing : FileGoes (state.addHeaderComment node)
          (others.flatMap (·.render ++ ['\n']) ++ text) last :=
        @ih (state.addHeaderComment node) canonical first (fun _ => rfl) others' single'
          (by simpa [FileState.addHeaderComment, FileState.releaseComment] using later)
      have whole : (node :: others).flatMap (·.render ++ ['\n']) ++ text =
          node.render ++ '\n' :: (others.flatMap (·.render ++ ['\n']) ++ text) := by
        simp
      rw [whole]
      cases doc : node.isDoc with
      | true =>
          have none : others.countP Comment.isDoc = 0 := by
            rw [List.countP_cons, doc, if_pos rfl] at single
            omega
          exact docHeader own doc canonical (by simpa [List.countP_eq_zero] using none) heads.cut
            (heads.announces (by simp [doc])) standing
      | false =>
          obtain ⟨next, behind, cut, ink, same⟩ := exists_cut_headers canonical heads.cut heads.ink
          have adds : ∀ later, Lexed ('\n' :: (others.flatMap (·.render ++ ['\n']) ++ text)) later →
              state.addComment (precedesDeclaration false later) node =
                if startsDeclaration false next then
                  { state.releaseComment with sectionComment := some node }
                else state.addHeaderComment node := by
            intro later lexed
            rw [precedesDeclaration_of_cut cut ink lexed, FileState.addComment, first]
            rfl
          refine .again (fun blanks blank => takes_fileComment own doc blank rfl adds)
            node.render_ne_nil ?_
          split
          · next starts =>
              refine @ih { state.releaseComment with sectionComment := some node } canonical first
                (fun none => ?_) others' single' ?_
              · rw [same none, heads.other] at starts
                cases starts
              · simpa [FileState.releaseComment] using later
          · exact standing

end FileGoes

end

end Reading

/-! ### Files -/

/-- The package declaration and the imports of a class, and what is behind them. -/
def ClassHead.scopeText (head : ClassHead) (rest : Text) : Text :=
  (head.package.map (·.render ++ "\n\n".toList)).getD [] ++
    ((if head.imports = [] then [] else head.imports.flatMap (·.render ++ ['\n']) ++ ['\n']) ++
      rest)

/-- A class from the comment in front of it on. -/
def ClassDecl.outerText (node : ClassDecl) : Text :=
  node.sectionComment.toList.flatMap (·.render ++ ['\n']) ++
    node.declaredText (node.trailingComments.flatMap ('\n' :: ·.render))

/-- A class is rendered as the items of a file. -/
theorem ClassDecl.render_eq_items (node : ClassDecl) :
    node.render =
      node.headerComments.flatMap (·.render ++ ['\n']) ++ node.scopeText node.outerText := by
  have opening : ∀ rest more : Text,
      node.openingText (rest ++ more) = node.openingText rest ++ more := by
    intro rest more
    simp [ClassHead.openingText]
  rw [render_eq, Lead.render_eq, ClassHead.renderFileHead, ClassHead.scopeText, outerText,
    declaredText, opening]
  simp only [List.append_assoc]

namespace Reading

/-- Around a class with a package declaration or an import, or a comment of its own, stand the
header comments of its file. -/
theorem exists_heads {node : ClassDecl} (sound : node.Sound) (filed : node.Filed)
    (apart : node.HasFileScope ∨ node.sectionComment.isSome = true) :
    ∃ token after, Heads node.headerComments (node.scopeText node.outerText) token after := by
  rw [ClassHead.scopeText]
  cases own : node.package with
  | some package =>
      obtain ⟨after, cut⟩ := (StartsWithWord.packageStatement package).exists_cut ("\n\n".toList ++
        ((if node.imports = [] then [] else node.imports.flatMap (·.render ++ ['\n']) ++ ['\n']) ++
          node.outerText))
      exact ⟨_, after, by simpa using cut, rfl, rfl, fun _ => by simp [Token.keyword?]⟩
  | none =>
      cases imports : node.imports with
      | cons first others =>
          obtain ⟨after, cut⟩ := (StartsWithWord.importStatement first).exists_cut ('\n' ::
            (others.flatMap (·.render ++ ['\n']) ++ '\n' :: node.outerText))
          exact ⟨_, after, by simpa using cut, rfl, rfl, fun _ => by simp [Token.keyword?]⟩
      | nil =>
          have bare : ¬ node.HasFileScope := by simp [ClassDecl.HasFileScope, own, imports]
          obtain ⟨waiting, comment⟩ := Option.isSome_iff_exists.1 (apart.resolve_left bare)
          have plain : waiting.isDoc = false := by simpa [comment] using sound.plain
          obtain ⟨token, cut, kind, ink, -⟩ := exists_comment_cut
            (filed.sectionComment waiting comment)
            ('\n' :: node.declaredText (node.trailingComments.flatMap ('\n' :: ·.render)))
            fun _ => rfl
          have other := startsDeclaration_of_isPlainComment
            (by rw [isPlainComment_of_style kind, plain]; rfl) false
          exact ⟨token, _, by simpa [ClassDecl.outerText, comment] using cut, ink, other,
            fun doc => absurd (sound.header doc) bare⟩

/-- The package declaration and the imports of a file are read. -/
theorem FileGoes.scope {head : JavaUnit.ClassHead}
    (package : ∀ node ∈ head.package, node.Canonical)
    (imports : ∀ each ∈ head.imports, each.Canonical) (first : state.outer = none)
    (none : state.package = none) (early : state.imports = [])
    (later : FileGoes { state with package := head.package, imports := head.imports } text last) :
    FileGoes state (head.scopeText text) last := by
  refine FileGoes.package package first none early ?_
  by_cases absent : head.imports = []
  · rw [absent, ← early] at later
    simpa [absent] using later
  · rw [if_neg absent, List.append_assoc]
    exact FileGoes.imports imports first (by simpa [early] using later.behind_break)

/-- The file around a class is read back from its rendering, unless its last header comment stands
in front of the class itself. -/
theorem takes_file {file : Text} {node : ClassDecl} {agains : List Member}
    (outside : node.inner = false) (sound : node.Sound) (lawful : node.Lawful)
    (written : node.Written) (filed : node.Filed)
    (apart : node.headerComments ≠ [] → node.HasFileScope ∨ node.sectionComment.isSome = true)
    (each : List.Forall₂ (Member.Nests file) node.members agains) :
    (iterate fileItem {}).Takes node.render
      { headerComments := node.headerComments
        trailingComments := node.trailingComments
        package := node.package
        imports := node.imports
        outer := some ⟨node.alone, agains⟩ } [] := by
  have outer := @goes_class
    { headerComments := node.headerComments, package := node.package, imports := node.imports }
    _ _ _ rfl rfl rfl outside sound lawful written filed each
  rw [ClassDecl.render_eq_items]
  have whole : FileGoes {} (_ ++ node.scopeText node.outerText) _ :=
    .headers filed.headerComments rfl (fun _ => rfl)
      (fun some => exists_heads sound filed (apart some)) filed.single
      (.scope filed.package filed.imports rfl rfl rfl outer)
  exact whole [] rfl

end Reading

variable {file : Text} {node : ClassDecl} {agains : List Member}

/-- A class is read back from its rendering, with what its members read as: where it is outermost,
obeys the rules, is written as its parts are read, and its last header comment does not stand in
front of the class itself. -/
theorem ClassDecl.parseText_render (outside : node.inner = false) (sound : node.Sound)
    (lawful : node.Lawful) (written : node.Written) (filed : node.Filed)
    (apart : node.headerComments ≠ [] → node.HasFileScope ∨ node.sectionComment.isSome = true)
    (each : List.Forall₂ (Member.Nests file) node.members agains) :
    Entry.file.parseText file node.render = .ok ⟨node.toClassHead, agains⟩ := by
  obtain ⟨tokens, cuts, reads⟩ := Reading.takes_file outside sound lawful written filed apart each
  refine Entry.parseText_eq_ok_iff.2 ⟨_, lex_eq_ok_iff.2 (cuts.lexed .nil),
    Entry.readAll_eq_ok_iff.2 ⟨[Token.endOfInput], [], ?_, rfl⟩⟩
  refine Reading.reads_compilationUnit.2 ⟨_, _, reads _ .nil, rfl, rfl, ?_⟩
  rw [@FileState.attachFile_eq _ ⟨node.alone, agains⟩ outside lawful.editable]
  simp [ClassHead.alone]

/-- Members that render alike make classes that do. -/
theorem ClassDecl.render_of_nests {head : ClassHead} {members : List Member}
    (each : List.Forall₂ (Member.Nests file) members agains) :
    (ClassDecl.mk head agains).render = (ClassDecl.mk head members).render := by
  rw [render_eq, render_eq, bodyText_eq each]

/-! ### A header comment in front of the class -/

namespace ClassDecl

/-- The class with the last of its header comments as its own comment. -/
def attachLast (node : ClassDecl) (before : List Comment) (last : Comment) : ClassDecl :=
  ⟨{ node.toClassHead with headerComments := before, sectionComment := some last }, node.members⟩

section

variable {before : List Comment} {last : Comment}
  (split : node.headerComments = before ++ [last]) (bare : ¬ node.HasFileScope)

include split bare

theorem isDoc_of_split (sound : node.Sound) :
    (∀ comment ∈ before, comment.isDoc = false) ∧ last.isDoc = false := by
  have plain : ∀ comment ∈ node.headerComments, comment.isDoc = false := by
    simpa using mt sound.header bare
  rwa [split, List.forall_mem_append, List.forall_mem_singleton] at plain

/-- Where nothing stands between the two, a comment of the file is rendered where one of the class
is. -/
theorem render_attachLast (waits : node.sectionComment = none) :
    (node.attachLast before last).render = node.render := by
  rw [HasFileScope, not_or, Bool.not_eq_true, Option.isSome_eq_false_iff, Option.isNone_iff_eq_none,
    not_not] at bare
  rw [render_eq_items, render_eq_items, split, ClassHead.scopeText, ClassHead.scopeText]
  simp [attachLast, bare, waits, outerText, declaredText, ClassHead.openingText, ClassHead.clauses]

theorem sound_attachLast (outside : node.inner = false) (sound : node.Sound) :
    (node.attachLast before last).Sound := by
  obtain ⟨plain, own⟩ := isDoc_of_split split bare sound
  exact { sound with
    plain := by simpa [attachLast] using own
    header := fun doc => by
      obtain ⟨comment, mem, doc⟩ := List.any_eq_true.1 doc
      simp [plain comment mem] at doc
    file := fun inner => absurd inner (by simp [attachLast, outside]) }

theorem filed_attachLast (sound : node.Sound) (filed : node.Filed) :
    (node.attachLast before last).Filed := by
  obtain ⟨plain, own⟩ := isDoc_of_split split bare sound
  have canonical := filed.headerComments
  rw [split, List.forall_mem_append, List.forall_mem_singleton] at canonical
  have none : before.countP Comment.isDoc = 0 := by simpa [List.countP_eq_zero] using plain
  exact { filed with
    headerComments := canonical.1
    sectionComment := by simpa [attachLast] using canonical.2
    single := by simp [attachLast, none] }

end

end ClassDecl

/-- A class is read back from its rendering as one that renders alike. A last header comment that
stands in front of the class itself is read as the comment of the class. -/
theorem ClassDecl.reads_back (outside : node.inner = false) (sound : node.Sound)
    (lawful : node.Lawful) (written : node.Written) (filed : node.Filed)
    (each : List.Forall₂ (Member.Nests file) node.members agains) :
    ∃ again, Entry.file.parseText file node.render = .ok again ∧ again.members = agains ∧
      again.render = node.render := by
  by_cases apart : node.headerComments ≠ [] → node.HasFileScope ∨ node.sectionComment.isSome = true
  · exact ⟨_, parseText_render outside sound lawful written filed apart each, rfl,
      render_of_nests each⟩
  · rw [Classical.not_imp, not_or, Bool.not_eq_true, Option.isSome_eq_false_iff,
      Option.isNone_iff_eq_none] at apart
    obtain ⟨present, bare, waits⟩ := apart
    obtain ⟨before, last, split⟩ :=
      (List.eq_nil_or_concat' node.headerComments).resolve_left present
    have same := render_attachLast split bare waits
    have parsed := @parseText_render file (node.attachLast before last) agains outside
      (sound_attachLast split bare outside sound) { lawful with } { written with }
      (filed_attachLast split bare sound filed) (fun _ => .inr rfl) each
    exact ⟨_, same ▸ parsed, rfl, (render_of_nests each).trans same⟩

/-! ### Classes that are built from members -/

/-- A class of a name and members is read back, members and all, where each member reads back from
its own text one level deeper. -/
theorem ClassDecl.parseText_render_of_members {name : Text} {members : List Member}
    (built : ({ name := some name, members } : ClassDraft).build = .ok node)
    (each : ∀ member ∈ members,
      Entry.member.parseText file member.render.indent = .ok member) :
    Entry.file.parseText file node.render = .ok node := by
  have sound := ClassDraft.sound_of_build built
  have lawful := ClassDecl.lawful_of_build built
  obtain ⟨-, rfl⟩ := settle_eq_ok_iff.1 built
  have nests : List.Forall₂ (Member.Nests file) members members :=
    List.forall₂_same.2 fun member mem => ⟨each member mem, rfl⟩
  refine parseText_render rfl sound lawful ?_ ?_ (fun some => absurd rfl some) nests
  · constructor
    case toSpellsTypes => constructor <;> intro text mem <;> cases mem
    case javadoc => exact fun doc mem => nomatch mem
    case annotations => exact fun used mem => nomatch mem
  · constructor <;> first | exact fun part mem => nomatch mem | exact Nat.zero_le 1

/-- A comment stays a member of its own in front of a field with an annotation. -/
theorem ClassDecl.parseText_render_of_members_commented :
    ∃ comment field node, comment.render = "// c".toList ∧ field.render = "@A(1)\nint x;".toList ∧
      ({ name := some ['C'], members := [comment, field] } : ClassDraft).build = .ok node ∧
      Entry.file.parseText [] node.render = .ok node := by
  have reads : ∀ text ∈ ["// c".toList, "@A(1)\nint x;".toList],
      ((Entry.member.parseText [] (Text.indent text)).toOption.map fun member =>
        (member.render, ClassDraft.memberDefects member)) = some (text, []) := by
    decide +kernel
  obtain ⟨comment, is, same⟩ := Option.map_eq_some_iff.1 (reads _ (List.mem_cons_self ..))
  obtain ⟨field, is', same'⟩ := Option.map_eq_some_iff.1 (reads _ (List.mem_of_getLast? rfl))
  obtain ⟨rendered, clean⟩ := Prod.mk.inj same
  obtain ⟨rendered', clean'⟩ := Prod.mk.inj same'
  have built : ({ name := some ['C'], members := [comment, field] } : ClassDraft).build =
      .ok ({ name := some ['C'], members := [comment, field] } : ClassDraft).node := by
    refine settle_eq_ok_iff.2 ⟨?_, rfl⟩
    have rest : (bareSample ['C']).defects = [] := by decide
    simpa [ClassDraft.defects, ClassDraft.innerDefects, bareSample, clean, clean'] using rest
  refine ⟨comment, field, _, rendered, rendered', built, parseText_render_of_members built ?_⟩
  refine List.forall_mem_cons.2 ⟨?_, List.forall_mem_singleton.2 ?_⟩
  · rw [rendered]
    exact eq_ok_of_toOption is
  · rw [rendered']
    exact eq_ok_of_toOption is'

/-! ### Classes that are read -/

theorem mem_of_mem_openComments {region : Region} {tokens : List Token} {token : Token}
    (mem : token ∈ openComments region tokens) : token ∈ tokens ∧ token.isEnd = false := by
  induction tokens generalizing region with
  | nil => cases mem
  | cons first others ih =>
      rw [openComments] at mem
      split at mem
      · cases mem
      · next inside =>
          split at mem
          · rcases List.mem_cons.1 mem with rfl | mem
            · exact ⟨List.mem_cons_self, by simpa using inside⟩
            · exact ⟨List.mem_cons_of_mem _ (ih mem).1, (ih mem).2⟩
          · exact ⟨List.mem_cons_of_mem _ (ih mem).1, (ih mem).2⟩

/-- A comment or a Javadoc is written as it is read. -/
def Remark.Canonical : Remark → Prop
  | .comment node => node.Canonical
  | .javadoc node => node.Canonical

theorem Token.Yields.canonical {token : Token} {remark : Remark} {text rest : Text}
    (h : token.Yields remark) (cut : Cut text token rest) : remark.Canonical := by
  have alone : ∀ {other : Token} {later : List Token},
      [token].dropWhile Token.isWhitespace = other :: later → other = token := by
    intro other later behind
    have mem : other ∈ [token] := (List.dropWhile_suffix _).subset (behind ▸ List.mem_cons_self)
    exact List.mem_singleton.1 mem
  cases remark with
  | comment node =>
      obtain ⟨_, reads⟩ := Entry.read_eq_ok_iff.1 h
      obtain ⟨-, other, draft, behind, draws, built⟩ := Reading.reads_comment.1 reads
      exact (Comment.canonical_of_cut (alone behind ▸ cut) draws built).1
  | javadoc node =>
      obtain ⟨_, reads⟩ := Entry.read_eq_ok_iff.1 h
      obtain ⟨-, other, behind, kind, -, built⟩ := Reading.reads_javadoc.1 reads
      exact Javadoc.canonical_of_cut (alone behind ▸ cut) kind built

section

variable {source : Text} (parsed : Entry.file.parseText file source = .ok node)

include parsed

/-- The comments and Javadocs of a class that is read are written as they are read. -/
theorem remarks_canonical_of_parseText : ∀ remark ∈ node.remarks, remark.Canonical := by
  obtain ⟨tokens, rest, skipped, lexed, reads, -⟩ := exists_reads_of_parseText parsed
  obtain ⟨kept, remarks, split, yields, same⟩ := Reading.accounted_compilationUnit reads
  have cuts : ∀ token ∈ kept, ∃ text rest, Cut text token rest := by
    intro token mem
    have open_ : token ∈ openComments (.code false) tokens :=
      split ▸ List.mem_append_left _ mem
    obtain ⟨there, inside⟩ := mem_of_mem_openComments open_
    exact (lex_eq_ok_iff.1 lexed).exists_cut_of_mem there inside
  intro remark mem
  have mem := same.mem_iff.2 mem
  clear split same
  induction yields with
  | nil => cases mem
  | cons own _ ih =>
      rw [List.forall_mem_cons] at cuts
      rcases List.mem_cons.1 mem with rfl | mem
      · obtain ⟨_, _, cut⟩ := cuts.1
        exact own.canonical cut
      · exact ih cuts.2 mem

theorem made_of_parseText : Made (.classDecl node) := by
  obtain ⟨tokens, rest, skipped, -, reads, -⟩ := exists_reads_of_parseText parsed
  exact Reading.gives_compilationUnit reads

theorem outermost_of_parseText : node.inner = false := by
  obtain ⟨tokens, rest, skipped, -, reads, -⟩ := exists_reads_of_parseText parsed
  exact Reading.outermost_of_compilationUnit reads

/-- The file around a class that is read is written as it is read, apart from two doc-style header
comments in a row. -/
theorem filed_of_parseText (single : node.headerComments.countP Comment.isDoc ≤ 1) :
    node.Filed := by
  have remarks := remarks_canonical_of_parseText parsed
  have parts := (made_of_parseText parsed).parts
  refine {
    headerComments := fun comment mem => remarks (.comment comment) ?_
    package := fun package mem => ?_
    imports := fun each mem => ?_
    sectionComment := fun comment mem => remarks (.comment comment) ?_
    trailingComments := fun comment mem => remarks (.comment comment) ?_
    single }
  · simp [ClassDecl.remarks, Member.ofClass, Member.remarks, mem]
  · have made := parts (.packageStatement package)
      (ClassDecl.mem_owned.2 (.inr (.inr (.inl ⟨package, mem, rfl⟩))))
    cases made with
    | built built =>
        cases built with
        | packageStatement built => exact Package.canonical_of_build built
  · have made := parts (.importStatement each)
      (ClassDecl.mem_owned.2 (.inr (.inr (.inr (.inl ⟨each, mem, rfl⟩)))))
    cases made with
    | built built =>
        cases built with
        | importStatement built => exact Import.canonical_of_build built
  · simp [ClassDecl.remarks, Member.ofClass, Member.remarks, Lead.remarks, Option.mem_def.1 mem]
  · simp [ClassDecl.remarks, Member.ofClass, Member.remarks, mem]

/-- The canonical text of a class that is read is read again, as a class that renders alike: where
its types are spelled as they are read, its annotations and its members read back, and one doc-style
comment at most stands at the head of its file. -/
theorem reads_back_of_parseText (types : node.SpellsTypes)
    (annotations : ∀ used ∈ node.annotations, used.ReadsBack)
    (single : node.headerComments.countP Comment.isDoc ≤ 1)
    (each : List.Forall₂ (Member.Nests file) node.members agains) :
    ∃ again, Entry.file.parseText file node.render = .ok again ∧ again.members = agains ∧
      again.render = node.render := by
  have javadoc : ∀ doc ∈ node.javadoc, doc.Canonical := by
    intro doc mem
    refine remarks_canonical_of_parseText parsed (.javadoc doc) ?_
    simp [ClassDecl.remarks, Member.ofClass, Member.remarks, Lead.remarks, Option.mem_def.1 mem]
  exact ClassDecl.reads_back (outermost_of_parseText parsed) (sound_of_parseText parsed)
    (made_of_parseText parsed).lawful { types with javadoc, annotations }
    (filed_of_parseText parsed single) each

end

/-- A file with comments of two styles, an annotation and members of two kinds. -/
def filedSample : Text :=
  ("/** a */\npackage p;\n\n// b\n@A\nfinal class C extends D \x7b\n    int x = 1;\n"
    ++ "    void f() \x7b g(); \x7d\n\x7d\n// c").toList

theorem reads_back_of_parseText_filedSample :
    ∃ node again, Entry.file.parseText [] filedSample = .ok node ∧
      Entry.file.parseText [] node.render = .ok again ∧ again.render = node.render := by
  have reads : (Entry.file.parseText [] filedSample).toOption.any (fun node =>
      node.typeParameters = none ∧ node.superclass = some ['D'] ∧ node.interfaces = [] ∧
      (∀ used ∈ node.annotations, used.ReadsBack) ∧
      node.headerComments.countP Comment.isDoc ≤ 1 ∧
      ∀ member ∈ node.members, (Entry.member.parseText [] member.render.indent).toOption.map
        Member.render = some member.render) = true := by
    decide +kernel
  obtain ⟨node, is, holds⟩ := (Option.any_eq_true _ _).1 reads
  obtain ⟨parameters, extended, implemented, annotations, single, members⟩ :=
    of_decide_eq_true holds
  obtain ⟨agains, each⟩ := exists_nests members
  have name : SpelledAs TypeTokens ['D'] :=
    ⟨[⟨.identifier, ['D']⟩], .intro rfl .nil, ⟨by decide, by decide, by decide⟩,
      by decide +kernel, rfl⟩
  have types : node.SpellsTypes := {
    typeParameters := by simp [parameters]
    superclass := by simpa [extended] using name
    interfaces := by simp [implemented] }
  obtain ⟨again, parsed, -, same⟩ :=
    reads_back_of_parseText (eq_ok_of_toOption is) types annotations single each
  exact ⟨node, again, eq_ok_of_toOption is, parsed, same⟩

end JavaUnit
