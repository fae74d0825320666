/-
Module: JavaUnit.Proofs.FileStep
Purpose: What a step in reading a file can be: it comes to the end of the input, passes over a
  semicolon, takes up a comment that stands on its own, or reads a package declaration, an import or
  a declaration. What holds of every step is proved from these cases.
Main exports: Reading.FileStep, Reading.reads_fileItem
-/
import JavaUnit.Proofs.CommentAccounting
import JavaUnit.Proofs.Steady

namespace JavaUnit

namespace Reading

/-! ### Behind white space -/

theorem dropWhile_of_current {tokens : List Token} {p : Token → Bool}
    (h : p (currentToken tokens) = false) : tokens.dropWhile p = tokens := by
  cases tokens with
  | nil => rfl
  | cons first others => exact List.dropWhile_cons_of_neg (by simpa [currentToken] using h)

theorem isWhitespace_of_dropWhile (tokens : List Token) :
    (currentToken (tokens.dropWhile Token.isWhitespace)).isWhitespace = false := by
  induction tokens with
  | nil => rfl
  | cons first others ih =>
      rw [List.dropWhile_cons]
      split
      · exact ih
      · next ink => simpa [currentToken] using ink

theorem significantFrom_dropWhile (n : Nat) (tokens : List Token) :
    significantFrom n (tokens.dropWhile Token.isWhitespace) = significantFrom n tokens := by
  induction tokens with
  | nil => rfl
  | cons first others ih =>
      by_cases blank : first.isWhitespace = true
      · have trivia : first.isTrivia = true := Token.isTrivia_iff.2 (.inl blank)
        rw [List.dropWhile_cons_of_pos blank, ih]
        conv => rhs; rw [significantFrom.eq_def]
        simp [trivia]
      · rw [List.dropWhile_cons_of_neg blank]

/-! ### Steps -/

/-- The tokens that other items of a file begin with. -/
def startsOther (token : Token) : Bool :=
  token.kind ∈ [.semicolon, .keyword .package, .keyword .import, .eof]

/-- A Javadoc that stands in front of a package declaration or an import. -/
def HeadsFile (tokens : List Token) : Prop :=
  (currentToken tokens).kind = .docComment ∧
    (currentToken (significantFrom 1 tokens)).keyword? ∈ [some Keyword.package, some Keyword.import]

/-- One step in reading a file, from the next token on that is not white space. -/
inductive FileStep (state : FileState) : List Token → Turn FileState → List Token → Prop where
  | ends {tokens : List Token} (ends : (currentToken tokens).isEnd = true) :
      FileStep state tokens (.last state) tokens
  | semicolon {token : Token} {rest : List Token} (kind : token.kind = .semicolon) :
      FileStep state (token :: rest) (.again state) rest
  | comment {tokens rest : List Token} {node : Comment}
      (plain : (currentToken tokens).isPlainComment = true)
      (reads : comment.Reads tokens node rest []) :
      FileStep state tokens
        (.again (state.addComment (precedesDeclaration false (tokens.drop 1)) node)) rest
  | header {tokens rest : List Token} {node : Comment} (heads : HeadsFile tokens)
      (reads : comment.Reads tokens node rest []) :
      FileStep state tokens (.again (state.addHeaderComment node)) rest
  | packageStatement {tokens rest : List Token} {node : Package}
      (kind : (currentToken tokens).kind = .keyword .package)
      (reads : packageStatement.Reads tokens node rest []) :
      FileStep state tokens (.again (state.addPackage node)) rest
  | importStatement {tokens rest : List Token} {node : Import}
      (kind : (currentToken tokens).kind = .keyword .import)
      (reads : importStatement.Reads tokens node rest []) :
      FileStep state tokens (.again (state.addImport node)) rest
  | declaration {tokens rest : List Token} {last : FileState}
      (starts : startsOther (currentToken tokens) = false)
      (plain : (currentToken tokens).isPlainComment = false) (alone : ¬ HeadsFile tokens)
      (reads : (outerDeclaration state).Reads tokens last rest []) :
      FileStep state tokens (.again last) rest

variable {tokens rest skipped : List Token} {state : FileState} {turn : Turn FileState}

/-- Nothing is said of the white space in front of an item. -/
theorem reads_fileItem_dropWhile :
    (fileItem state).Reads (tokens.dropWhile Token.isWhitespace) turn rest skipped ↔
      (fileItem state).Reads tokens turn rest skipped := by
  rw [fileItem, reads_skipWhitespace_bind, reads_skipWhitespace_bind,
    dropWhile_of_current (isWhitespace_of_dropWhile tokens)]

/-- Whatever an item of a file is read as, it is one of these steps. -/
theorem fileStep_of_reads (ink : (currentToken tokens).isWhitespace = false)
    (h : (fileItem state).Reads tokens turn rest skipped) : FileStep state tokens turn rest := by
  obtain ⟨rfl, -⟩ := gains_fileItem h
  rw [fileItem, reads_skipWhitespace_bind, dropWhile_of_current ink, reads_current_bind] at h
  simp only [reads_ite, reads_left_bind, reads_peek_bind, reads_advance_bind, reads_pure] at h
  simp only [reads_bind_nil, reads_pure] at h
  rcases h with ⟨ends, rfl, rfl, -⟩ | ⟨inside, ⟨semicolon, rfl, rest_eq, -⟩ |
    ⟨noSemicolon, ⟨plain, node, _, reads, rfl, rfl, -⟩ | ⟨plain, h⟩⟩⟩
  · exact .ends ends
  · rw [if_neg inside] at rest_eq
    have whole := eq_cons_tail (show currentToken tokens = _ from rfl) (by simpa using inside)
    rw [whole, rest_eq]
    exact .semicolon semicolon
  · exact .comment plain reads
  · rcases h with ⟨heads, node, _, reads, rfl, rfl, -⟩ |
      ⟨alone, ⟨kind, node, _, reads, rfl, rfl, -⟩ |
        ⟨noPackage, ⟨kind, node, _, reads, rfl, rfl, -⟩ |
          ⟨noImport, last, _, reads, rfl, rfl, -⟩⟩⟩
    · exact .header heads reads
    · exact .packageStatement kind reads
    · exact .importStatement kind reads
    · refine .declaration ?_ (by simpa using plain) alone reads
      simpa [startsOther, noSemicolon, noPackage, noImport, Token.isEnd] using inside

theorem reads_again {read : Reading α} {node : α} {next : α → FileState}
    (h : read.Reads tokens node rest []) :
    (read >>= fun node => pure (Turn.again (next node))).Reads tokens (Turn.again (next node)) rest
      [] :=
  reads_bind_nil.2 ⟨node, rest, h, reads_pure.2 ⟨rfl, rfl, rfl⟩⟩

/-- Each of the steps is read as an item, and passes over no comment unseen. -/
theorem FileStep.reads (ink : (currentToken tokens).isWhitespace = false)
    (h : FileStep state tokens turn rest) : (fileItem state).Reads tokens turn rest [] := by
  rw [fileItem, reads_skipWhitespace_bind, dropWhile_of_current ink, reads_current_bind]
  cases h with
  | ends ends => rw [if_pos ends, reads_pure]; exact ⟨rfl, rfl, rfl⟩
  | semicolon kind =>
      rename_i token
      have kind : (currentToken (token :: rest)).kind = .semicolon := kind
      rw [if_neg (by simp [Token.isEnd, kind]), if_pos kind, reads_advance_bind,
        if_neg (by simp [Token.isEnd, kind]), reads_pure]
      exact ⟨rfl, rfl, rfl⟩
  | comment plain reads =>
      have kinds := plain
      simp only [Token.isPlainComment, Bool.or_eq_true, decide_eq_true_eq] at kinds
      have inside : ¬ (currentToken tokens).isEnd = true := by
        rcases kinds with kind | kind <;> simp [Token.isEnd, kind]
      have noSemicolon : (currentToken tokens).kind ≠ .semicolon := by
        rcases kinds with kind | kind <;> simp [kind]
      rw [if_neg inside, if_neg noSemicolon, if_pos plain, reads_left_bind]
      exact reads_again reads
  | header heads reads =>
      obtain ⟨kind, announced⟩ := heads
      rw [if_neg (by simp [Token.isEnd, kind]), if_neg (by simp [kind]),
        if_neg (by simp [Token.isPlainComment, kind]), reads_peek_bind,
        if_pos (And.intro kind announced)]
      exact reads_again reads
  | packageStatement kind reads =>
      rw [if_neg (by simp [Token.isEnd, kind]), if_neg (by simp [kind]),
        if_neg (by simp [Token.isPlainComment, kind]), reads_peek_bind, if_neg (by simp [kind]),
        if_pos kind]
      exact reads_again reads
  | importStatement kind reads =>
      rw [if_neg (by simp [Token.isEnd, kind]), if_neg (by simp [kind]),
        if_neg (by simp [Token.isPlainComment, kind]), reads_peek_bind, if_neg (by simp [kind]),
        if_neg (by simp [kind]), if_pos kind]
      exact reads_again reads
  | declaration starts plain alone reads =>
      simp only [startsOther, List.mem_cons, List.not_mem_nil, or_false, decide_eq_false_iff_not,
        not_or] at starts
      obtain ⟨noSemicolon, noPackage, noImport, inside⟩ := starts
      rw [HeadsFile] at alone
      rw [if_neg (by simpa [Token.isEnd] using inside), if_neg noSemicolon,
        if_neg (by simp [plain]), reads_peek_bind, if_neg alone, if_neg noPackage, if_neg noImport]
      exact reads_again reads

/-- A file is read step by step, each from the next token on that is not white space. -/
theorem reads_fileItem :
    (fileItem state).Reads tokens turn rest skipped ↔
      skipped = [] ∧ FileStep state (tokens.dropWhile Token.isWhitespace) turn rest := by
  have ink := isWhitespace_of_dropWhile tokens
  constructor
  · intro h
    exact ⟨(gains_fileItem h).1, fileStep_of_reads ink (reads_fileItem_dropWhile.2 h)⟩
  · rintro ⟨rfl, step⟩
    exact reads_fileItem_dropWhile.1 (step.reads ink)

end Reading

end JavaUnit
