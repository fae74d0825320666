/-
Module: JavaUnit.Proofs.FileText
Purpose: The text of files without comments: the texts of their items, each of which could stand on
  its own, one after another. Such a file is read as a class with its package and its imports if
  they are in order, and else fails with a report of everything that is out of order.
Main exports: FileItem.Spells, Laid, parseText_of_laid
-/
import JavaUnit.Proofs.FileOrder
import JavaUnit.Proofs.Takes

namespace JavaUnit

/-! ### Items as text -/

/-- Whether a text holds no comments. -/
def CommentFree (text : Text) : Prop :=
  ∀ tokens, lex text = .ok tokens → ∀ token ∈ tokens, token.isComment = false

instance (text : Text) : Decidable (CommentFree text) :=
  decidable_of_iff ((lex text).toOption.all (·.all (!·.isComment)) = true) (by
    cases lexed : lex text <;> simp [CommentFree, lexed, Except.toOption])

/-- The text reads as the item on its own. A class does so as a file that holds nothing else. -/
def FileItem.Spells (text : Text) : FileItem → Prop
  | .packageStatement node => Entry.packageStatement.parseText defaultName text = .ok node
  | .importStatement node => Entry.importStatement.parseText defaultName text = .ok node
  | .declaration (.field node) => Entry.field.parseText defaultName text = .ok node
  | .declaration (.method node) => Entry.method.parseText defaultName text = .ok node
  | .declaration (.classDecl node) =>
    Entry.file.parseText defaultName text = .ok node ∧ node.package = none ∧ node.imports = []

/-- The text is that of some items, one after another, with white space and semicolons between
them. -/
inductive Laid : List FileItem → Text → Prop where
  | nil : Laid [] []
  | blank {c items text} (blank : isBlank c = true) (later : Laid items text) :
      Laid items (c :: text)
  | semicolon {items text} (later : Laid items text) : Laid items (';' :: text)
  | item {text item items rest} (spells : item.Spells text) (clear : CommentFree text)
      (later : Laid items rest) : Laid (item :: items) (text ++ rest)

/-! ### Items on their own -/

/-- A text whose tokens are one item, and white space behind it. -/
def Isolated (text : Text) (item : FileItem) : Prop :=
  ∃ front blanks rest, Lexed text (front ++ (blanks ++ rest)) ∧ Runs front [item] ∧
    Trails blanks rest

theorem isolated_of_read {item : FileItem} {text : Text} {tokens rest : List Token}
    (lexed : lex text = .ok tokens) (clear : ∀ token ∈ tokens, token.isComment = false)
    (reads : item.Read (tokens.dropWhile Token.isWhitespace) rest)
    (ends : (currentToken (rest.dropWhile Token.isWhitespace)).isEnd = true) :
    Isolated text item := by
  obtain ⟨front, rfl, -, runs⟩ := exists_runs_of_read clear reads
  refine ⟨front, rest.takeWhile Token.isWhitespace, rest.dropWhile Token.isWhitespace, ?_,
    runs, fun token mem => List.all_eq_true.1 List.all_takeWhile token mem, ends⟩
  rw [List.takeWhile_append_dropWhile]
  exact lex_eq_ok_iff.1 lexed

namespace Reading

variable {tokens rest skipped : List Token}

theorem reads_packageStatement_behind {node : Package} :
    packageStatement.Reads tokens node rest skipped ↔
      packageStatement.Reads (tokens.dropWhile Token.isWhitespace) node rest skipped := by
  rw [packageStatement, reads_scopeHere_bind, reads_scopeHere_bind,
    dropWhile_of_current (isWhitespace_of_dropWhile tokens)]

theorem reads_importStatement_behind {node : Import} :
    importStatement.Reads tokens node rest skipped ↔
      importStatement.Reads (tokens.dropWhile Token.isWhitespace) node rest skipped := by
  rw [importStatement, reads_scopeHere_bind, reads_scopeHere_bind,
    dropWhile_of_current (isWhitespace_of_dropWhile tokens)]

/-- Where no comment stands, the preface of a declaration on its own is empty. -/
theorem exists_declared {wanted : DeclarationKind} {part : Declaration → Option α} {node : α}
    (clear : ∀ token ∈ tokens, token.isComment = false)
    (h : (declarationAs wanted part).Reads tokens node rest skipped) :
    ∃ declared, part declared = some node ∧
      (declaration { start := tokens.dropWhile Token.isWhitespace } true).Reads
        (tokens.dropWhile Token.isWhitespace) declared rest skipped := by
  have comments := isComment_of_dropWhile clear
  rw [Token.isComment, Bool.or_eq_false_iff] at comments
  have noDoc : (currentToken (tokens.dropWhile Token.isWhitespace)).kind ≠ .docComment := by
    simpa using comments.2
  obtain ⟨read, mid, passed, later, prefaced, behind, rfl⟩ := reads_bind.1 h
  rw [preface, reads_skipWhitespace_bind, reads_emptyPreface_bind, reads_current_bind,
    if_neg (by simp [comments.1]), reads_pure_bind, reads_current_bind, if_neg noDoc, reads_pure]
    at prefaced
  obtain ⟨rfl, rfl, rfl⟩ := prefaced
  obtain ⟨declared, mid, passed, _, declares, settled, rfl⟩ := reads_bind.1 behind
  cases found : part declared with
  | none =>
      rw [found] at settled
      exact absurd settled not_reads_fail
  | some value =>
      rw [found] at settled
      obtain ⟨rfl, rfl, rfl⟩ := reads_pure.1 settled
      refine ⟨declared, found, ?_⟩
      rwa [List.nil_append, List.append_nil]

end Reading

/-- An item that is read on its own stands alone in its text. -/
theorem FileItem.Spells.isolated {item : FileItem} {text : Text} (h : item.Spells text)
    (clear : CommentFree text) : Isolated text item := by
  cases item with
  | packageStatement node =>
      obtain ⟨tokens, rest, skipped, lexed, reads, ends⟩ := exists_reads_of_parseText h
      refine isolated_of_read lexed (clear tokens lexed) ?_ ends
      obtain ⟨rfl, -⟩ := Reading.openComments_packageStatement reads
      exact Reading.reads_packageStatement_behind.1 reads
  | importStatement node =>
      obtain ⟨tokens, rest, skipped, lexed, reads, ends⟩ := exists_reads_of_parseText h
      refine isolated_of_read lexed (clear tokens lexed) ?_ ends
      obtain ⟨rfl, -⟩ := Reading.openComments_importStatement reads
      exact Reading.reads_importStatement_behind.1 reads
  | declaration declared =>
      cases declared with
      | classDecl node =>
          obtain ⟨h, package, imports⟩ := h
          obtain ⟨tokens, rest, skipped, lexed, reads, ends⟩ := exists_reads_of_parseText h
          obtain ⟨front, blanks, rfl, runs, trails⟩ :=
            Reading.exists_runs_of_compilationUnit (clear tokens lexed) package imports reads
          exact ⟨front, blanks, rest, lex_eq_ok_iff.1 lexed, runs, trails⟩
      | field node =>
          obtain ⟨tokens, rest, skipped, lexed, reads, ends⟩ := exists_reads_of_parseText h
          refine isolated_of_read lexed (clear tokens lexed) ?_ ends
          obtain ⟨declared, found, declares⟩ := Reading.exists_declared (clear tokens lexed) reads
          obtain rfl : declared = .field node := by
            cases declared <;> simp_all
          obtain ⟨rfl, -⟩ :=
            Reading.accounted_declarationWith Reading.keeps_nestedDeclaration declares
          exact Reading.reads_declaration_outside (by simp) declares false
      | method node =>
          obtain ⟨tokens, rest, skipped, lexed, reads, ends⟩ := exists_reads_of_parseText h
          refine isolated_of_read lexed (clear tokens lexed) ?_ ends
          obtain ⟨declared, found, declares⟩ := Reading.exists_declared (clear tokens lexed) reads
          obtain rfl : declared = .method node := by
            cases declared <;> simp_all
          obtain ⟨rfl, -⟩ :=
            Reading.accounted_declarationWith Reading.keeps_nestedDeclaration declares
          exact Reading.reads_declaration_outside (by simp) declares false

/-! ### Texts of items -/

theorem Cut.mark_of_closes {text rest : Text} {token : Token} (h : Cut text token rest)
    (closes : token.closes = true) : ∃ c, token.text = [c] ∧ (c, token.kind) ∈ punctuation := by
  obtain ⟨first, body, spelling, -, spelled⟩ := h.exists_spelled
  obtain ⟨rfl, known⟩ := spelled.mark_of_mem (by
    rcases Token.closes_iff.1 closes with kind | kind | kind | kind | kind <;>
      simp [punctuation, kind])
  exact ⟨first, spelling, known⟩

namespace Cuts

variable {text left rest : Text} {tokens : List Token}

/-- Behind a token that ends what stands in front of it, any text may stand. -/
theorem swap_of_closed (h : Cuts text tokens left) (closed : Closed tokens) (right : Text) :
    Cuts (textOf tokens ++ right) tokens right := by
  obtain ⟨last, found, closes⟩ := (Option.any_eq_true _ _).1 closed
  obtain ⟨front, rfl⟩ : ∃ front, tokens = front ++ [last] :=
    ⟨_, (List.dropLast_append_getLast? last found).symm⟩
  obtain ⟨mid, cuts, tail⟩ := h.split
  cases tail with
  | cons head tail =>
      cases tail with
      | nil =>
          obtain ⟨c, spelling, known⟩ := head.mark_of_closes closes
          have separates : separates c = true := by
            rw [JavaUnit.separates, Bool.or_eq_true, decide_eq_true_eq]
            exact .inr (List.mem_map_of_mem known)
          have start : mid = c :: left := by rw [head.text_eq, spelling, List.singleton_append]
          have alike : Alike mid (c :: right) := by
            rw [start]
            exact .of_separated (separated_cons.2 separates) (separated_cons.2 separates)
          have moved := cuts.swap_of_head alike (by rw [start]; rfl)
          have mark : Cut (c :: right) last right := by
            have cut : Cut (c :: ([] ++ right)) ⟨last.kind, [c]⟩ right := .intro (.mark known)
            rwa [← spelling] at cut
          have whole : textOf (front ++ [last]) ++ right = textOf front ++ c :: right := by
            simp [textOf, spelling]
          rw [whole]
          exact moved.append (.cons mark .nil)

/-- White space is the text of its tokens. -/
theorem isBlank_textOf (h : Cuts text tokens rest)
    (blank : ∀ token ∈ tokens, token.isWhitespace = true) :
    Text.isBlank (textOf tokens) = true := by
  induction h with
  | nil => rfl
  | @cons text token mid tokens rest head _ ih =>
      have kind : token.kind = .whitespace := by
        simpa [Token.isWhitespace] using blank token List.mem_cons_self
      rw [textOf, List.flatMap_cons, Text.isBlank_append, ← textOf,
        ih fun token mem => blank token (List.mem_cons_of_mem _ mem), Bool.and_true]
      exact List.all_eq_true.2 (head.blank_of_whitespace kind).1

/-- A text whose first token is not white space does not begin with white space. -/
theorem head_of_ink (h : Cuts text tokens rest) (some : tokens ≠ [])
    (ink : (currentToken tokens).isWhitespace = false) : text.head?.all (!isBlank ·) = true := by
  cases h with
  | nil => exact absurd rfl some
  | cons head _ => exact head_of_cut head ink

end Cuts

/-- Tokens with nothing but white space around them are those of a text with white space around
it. -/
theorem Lexed.exists_around {text : Text} {blanks core rest : List Token}
    (h : Lexed text (blanks ++ (core ++ rest)))
    (blank : ∀ token ∈ blanks, token.isWhitespace = true)
    (inside : ∀ token ∈ core, token.isEnd = false) (finished : isFinished rest = true) :
    ∃ lead trail, text = lead ++ (textOf core ++ trail) ∧ Text.isBlank lead = true ∧
      Text.isBlank trail = true ∧ Cuts (textOf core ++ trail) core trail := by
  have ended : ∀ {token : Token}, token.isWhitespace = true → token.isEnd = false :=
    fun blank => Token.isEnd_eq_false_of_isTrivia (Token.isTrivia_iff.2 (.inl blank))
  have white : ∀ token ∈ rest.takeWhile Token.isWhitespace, token.isWhitespace = true :=
    fun token mem => List.all_eq_true.1 List.all_takeWhile token mem
  rw [← List.takeWhile_append_dropWhile (p := Token.isWhitespace) (l := rest),
    ← List.append_assoc core, ← List.append_assoc] at h
  obtain ⟨behind, cuts, ends⟩ := h.exists_cuts fun token mem => by
    rcases List.mem_append.1 mem with mem | mem
    · exact ended (blank token mem)
    · rcases List.mem_append.1 mem with mem | mem
      · exact inside token mem
      · exact ended (white token mem)
  rw [isFinished] at finished
  generalize rest.dropWhile Token.isWhitespace = last at ends finished
  obtain rfl : behind = [] := by
    cases ends with
    | nil => rfl
    | cons head _ => exact absurd (of_decide_eq_true finished) head.spelled.kind_ne_eof
  obtain ⟨first, lead, cuts⟩ := cuts.split
  obtain ⟨trail, own, trails⟩ := cuts.split
  refine ⟨textOf blanks, trail, ?_, lead.isBlank_textOf blank, ?_, own.text_eq ▸ own⟩
  · rw [lead.text_eq, own.text_eq]
  · rw [trails.text_eq, List.append_nil]
    exact trails.isBlank_textOf white

/-- A text that reads as an item in front of any other text, without white space in front. -/
structure Core (text : Text) (tokens : List Token) (item : FileItem) : Prop where
  cuts : ∀ later, Cuts (text ++ later) tokens later
  ink : ∀ later, (text ++ later).head?.all (!isBlank ·) = true
  runs : ∀ {blanks : List Token}, (∀ token ∈ blanks, token.isWhitespace = true) →
    Runs (blanks ++ tokens) [item]

/-- An item on its own is the core of its text, with white space around it. -/
theorem Isolated.exists_core {text : Text} {item : FileItem} (h : Isolated text item) :
    ∃ lead core trail tokens, text = lead ++ (core ++ trail) ∧ Text.isBlank lead = true ∧
      Text.isBlank trail = true ∧ Core core tokens item := by
  obtain ⟨front, blanks, rest, lexed, runs, trails⟩ := h
  have anywhere {blanks : List Token} (blank : ∀ token ∈ blanks, token.isWhitespace = true) :=
    runs.with_blanks (runs.ne_nil (List.cons_ne_nil _ _)) blank
  have bare : Runs (front.dropWhile Token.isWhitespace) [item] := @anywhere [] (by simp)
  have some := bare.ne_nil (List.cons_ne_nil _ _)
  have finished : isFinished (blanks ++ rest) = true := by
    have ink : (currentToken rest).isWhitespace = false := by
      cases blank : (currentToken rest).isWhitespace with
      | false => rfl
      | true =>
          have inside := Token.isEnd_eq_false_of_isTrivia (Token.isTrivia_iff.2 (.inl blank))
          exact absurd trails.ends (by simp [inside])
    rw [isFinished, List.dropWhile_append_of_pos trails.blank, Reading.dropWhile_of_current ink]
    exact trails.ends
  rw [← List.takeWhile_append_dropWhile (p := Token.isWhitespace) (l := front),
    List.append_assoc] at lexed
  obtain ⟨lead, trail, whole, leads, trails', cuts⟩ := lexed.exists_around
    (fun token mem => List.all_eq_true.1 List.all_takeWhile token mem)
    (fun token mem => bare.isEnd_eq_false mem) finished
  have moved := cuts.swap_of_closed (bare.closed some)
  have ink := Reading.isWhitespace_of_dropWhile front
  exact ⟨lead, _, trail, _, whole, leads, trails', moved,
    fun later => (moved later).head_of_ink some ink, anywhere⟩

/-! ### Files -/

/-- The tokens of a file are those of its items in a row, and white space. -/
theorem Laid.exists_cuts {items : List FileItem} {source : Text} (h : Laid items source)
    {blanks : Text} (blank : blanks.isBlank = true) :
    ∃ front trail, Cuts (blanks ++ source) (front ++ trail) [] ∧ Runs front items ∧
      ∀ token ∈ trail, token.isWhitespace = true := by
  induction h generalizing blanks with
  | nil =>
      exact ⟨[], blankTokens blanks, cuts_blanks blank rfl, .nil,
        fun _ mem => isWhitespace_of_mem_blankTokens mem⟩
  | @blank c items text blank' _ ih =>
      obtain ⟨front, trail, cuts, runs, trails⟩ := @ih (blanks ++ [c])
        (by rw [Text.isBlank_append, blank]; simpa [Text.isBlank] using blank')
      rw [List.append_assoc, List.singleton_append] at cuts
      exact ⟨front, trail, cuts, runs, trails⟩
  | @semicolon items text _ ih =>
      obtain ⟨front, trail, cuts, runs, trails⟩ := @ih [] rfl
      have mark : Cut (';' :: ([] ++ text)) ⟨.semicolon, [';']⟩ text := .intro (.mark (by decide))
      refine ⟨blankTokens blanks ++ ⟨.semicolon, [';']⟩ :: front, trail, ?_,
        .semicolon (fun _ mem => isWhitespace_of_mem_blankTokens mem) rfl runs, trails⟩
      rw [List.append_assoc]
      exact (cuts_blanks blank (by simp only [List.head?_cons]; decide)).append (.cons mark cuts)
  | @item text item items rest spells clear _ ih =>
      obtain ⟨lead, core, trail', tokens, rfl, leads, trails', whole⟩ :=
        (spells.isolated clear).exists_core
      obtain ⟨front, trail, cuts, runs, trails⟩ := ih trails'
      refine ⟨blankTokens (blanks ++ lead) ++ tokens ++ front, trail, ?_,
        (whole.runs fun _ mem => isWhitespace_of_mem_blankTokens mem).append runs, trails⟩
      have before : Text.isBlank (blanks ++ lead) = true := by
        rw [Text.isBlank_append, blank, leads]
        rfl
      have together := (cuts_blanks before (whole.ink (trail' ++ rest))).append
        ((whole.cuts _).append cuts)
      simpa using together

/-- A file is read item by item, to its end. -/
theorem Laid.exists_reads {items : List FileItem} {source : Text} (h : Laid items source) :
    ∃ tokens front, lex source = .ok tokens ∧ Runs front items ∧
      (Reading.iterate Reading.fileItem {}).Reads tokens (items.foldl FileState.add {})
        [Token.endOfInput] [] := by
  obtain ⟨front, trail, cuts, runs, trails⟩ := h.exists_cuts (show Text.isBlank [] = true from rfl)
  have plain : FileState.Plain {} := rfl
  refine ⟨front ++ (trail ++ [Token.endOfInput]), front, ?_, runs, runs.reads_iterate plain ?_⟩
  · rw [lex_eq_ok_iff, ← List.append_assoc]
    exact cuts.lexed .nil
  · refine Reading.reads_iterate_last ?_
    rw [Reading.reads_fileItem, List.dropWhile_append_of_pos trails]
    exact ⟨rfl, .ends rfl⟩

/-- A file without comments is read if its items are in order: it is their class, with their package
and imports around it. If they are not, all that is out of order is reported, item by item. -/
theorem parseText_of_laid {items : List FileItem} {source : Text} (h : Laid items source)
    (name : Text) :
    (∀ node, Entry.file.parseText name source = .ok node ↔
      ∃ package imports outer, items = FileItem.inOrder package imports outer ∧
        node = { outer with package, imports }) ∧
    ((¬ ∃ package imports outer, items = FileItem.inOrder package imports outer) →
      ∃ span, Entry.file.parseText name source =
        .error (.parse .compilationUnit (FileItem.violations [] items) span name)) := by
  obtain ⟨tokens, front, lexed, runs, reads⟩ := h.exists_reads
  have reported : (items.foldl FileState.add {}).allDefects = FileItem.violations [] items :=
    FileState.allDefects_foldl FileState.follows_nil
  refine ⟨fun node => ⟨fun parsed => ?_, ?_⟩, fun disordered => ?_⟩
  · obtain ⟨tokens', rest, skipped, lexed', read, -⟩ := exists_reads_of_parseText parsed
    obtain rfl := Except.ok.inj (lexed.symm.trans lexed')
    obtain ⟨state, outer, reads', found, clean, built⟩ := Reading.reads_compilationUnit.1 read
    obtain ⟨rfl, -⟩ := reads.unique reads'
    rw [FileState.allDefects, clean, found] at reported
    obtain ⟨package, imports, outer, rfl⟩ := FileItem.violations_eq_nil_iff.1 reported.symm
    rw [FileState.foldl_inOrder] at found built
    obtain rfl := Option.some.inj found
    obtain ⟨bare, outside, editable⟩ :=
      @Runs.bare_of_mem _ _ runs outer (by simp [FileItem.inOrder])
    rw [FileState.attachFile_of_bare bare outside editable] at built
    exact ⟨package, imports, outer, rfl, (Except.ok.inj built).symm⟩
  · rintro ⟨package, imports, outer, rfl, rfl⟩
    obtain ⟨bare, outside, editable⟩ :=
      @Runs.bare_of_mem _ _ runs outer (by simp [FileItem.inOrder])
    rw [FileState.foldl_inOrder] at reads
    refine Entry.parseText_eq_ok_iff.2 ⟨tokens, lexed, Entry.readAll_eq_ok_iff.2
      ⟨_, [], Reading.reads_compilationUnit.2 ⟨_, outer, reads, rfl, rfl, ?_⟩, rfl⟩⟩
    exact FileState.attachFile_of_bare bare outside editable
  · have some : FileItem.violations [] items ≠ [] := fun none =>
      disordered (FileItem.violations_eq_nil_iff.1 none)
    rw [← reported] at some ⊢
    exact @Entry.parseText_eq_error _ Entry.file name source tokens _ lexed
      (Reading.fails_compilationUnit_of_end reads some)

/-- The file of a package declaration, an import and a class, with a semicolon to spare; and what is
reported if a field stands in front of them and another package declaration behind. -/
theorem parseText_orderedSample :
    ∃ outer span,
      Laid [.packageStatement ⟨['p'], true⟩, .importStatement ⟨['q', '.', 'R'], false, false, true⟩,
          .declaration (.classDecl outer)]
        ("package p;".toList ++ '\n' :: ("import q.R;".toList ++ ';' ::
          ("class C \x7b \x7d".toList ++ []))) ∧
      Entry.file.parseText [] "package p;\nimport q.R;;class C \x7b \x7d".toList =
        .ok { outer with
          package := some ⟨['p'], true⟩, imports := [⟨['q', '.', 'R'], false, false, true⟩] } ∧
      Entry.file.parseText [] "int x; class C \x7b \x7d package p;".toList =
        .error (.parse .compilationUnit [.outsideClass .field, .packageAfterClass] span []) := by
  have parsed : ((Entry.file.parseText defaultName "class C \x7b \x7d".toList).toOption.map
      fun node => (node.package, node.imports)) = some (none, []) := by decide +kernel
  obtain ⟨outer, is, bare⟩ := Option.map_eq_some_iff.1 parsed
  obtain ⟨package, imports⟩ := Prod.mk.inj bare
  have class_ : FileItem.Spells "class C \x7b \x7d".toList (.declaration (.classDecl outer)) :=
    ⟨eq_ok_of_toOption is, package, imports⟩
  have statement : FileItem.Spells "package p;".toList (.packageStatement ⟨['p'], true⟩) :=
    eq_ok_of_toOption (by decide +kernel)
  have import_ : FileItem.Spells "import q.R;".toList
      (.importStatement ⟨['q', '.', 'R'], false, false, true⟩) :=
    eq_ok_of_toOption (by decide +kernel)
  have parsed : ((Entry.field.parseText defaultName "int x;".toList).toOption.map
      fun _ => ()) = some () := by decide +kernel
  obtain ⟨field, is, -⟩ := Option.map_eq_some_iff.1 parsed
  have field_ : FileItem.Spells "int x;".toList (.declaration (.field field)) :=
    eq_ok_of_toOption is
  have ordered : Laid _ ("package p;".toList ++ '\n' :: ("import q.R;".toList ++ ';' ::
      ("class C \x7b \x7d".toList ++ []))) :=
    .item statement (by decide +kernel) (.blank (by decide)
      (.item import_ (by decide +kernel) (.semicolon (.item class_ (by decide +kernel) .nil))))
  have disordered : Laid _ ("int x;".toList ++ ' ' :: ("class C \x7b \x7d".toList ++ ' ' ::
      ("package p;".toList ++ []))) :=
    .item field_ (by decide +kernel) (.blank (by decide)
      (.item class_ (by decide +kernel) (.blank (by decide)
        (.item statement (by decide +kernel) .nil))))
  obtain ⟨span, reported⟩ := (parseText_of_laid disordered []).2 fun inOrder =>
    List.cons_ne_nil _ _ (FileItem.violations_eq_nil_iff.2 inOrder)
  exact ⟨outer, span, ordered,
    ((parseText_of_laid ordered []).1 _).2 ⟨some _, [_], outer, rfl, rfl⟩, reported⟩

end JavaUnit
