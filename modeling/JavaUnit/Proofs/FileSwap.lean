/-
Module: JavaUnit.Proofs.FileSwap
Purpose: Files that come to the same. What stands in front of a declaration in a file is read alike
  if it is told apart alike there; and from an outermost declaration on, two files agree if the
  declaration is read alike in both.
Main exports: Reading.outerPreface, Reading.reads_outerDeclaration_parts, Reading.FileStep.swap,
  Reading.FilesAgree, Reading.filesAgree_of_goes, Reading.filesAgree_of_outer
-/
import JavaUnit.Proofs.BodySwap

namespace JavaUnit

namespace Reading

variable {tokens tokens' mid rest skipped x y front blanks : List Token} {state : FileState}

/-! ### The outermost class -/

/-- The preface with the Javadoc that begins here, if one does. -/
def documented (preface : Preface) : Reading Preface := do
  if (← current).kind = .docComment then
    return { preface with javadoc := some (← javadoc) }
  else
    return preface

/-- What stands in front of an outermost declaration: its Javadoc and comments, which go to the file
save the last one. -/
def outerPreface (state : FileState) : Reading (FileState × Preface) := do
  let start ← emptyPreface
  let preface ← documented { start with sectionComment := state.sectionComment }
  iterate prefaceComment ({ state with sectionComment := none }, preface)

theorem reads_documented {before after : Preface} :
    (documented before).Reads tokens after rest [] ↔
      ((currentToken tokens).kind = .docComment ∧
        ∃ node, after = { before with javadoc := some node } ∧ javadoc.Reads tokens node rest []) ∨
      ((currentToken tokens).kind ≠ .docComment ∧ after = before ∧ rest = tokens) := by
  simp only [documented, reads_current_bind, reads_ite, reads_bind_pure, reads_pure]
  simp

theorem reads_outerPreface {both : FileState × Preface} :
    (outerPreface state).Reads tokens both rest [] ↔
      ∃ before mid,
        (documented { start := tokens, sectionComment := state.sectionComment }).Reads tokens before
          mid [] ∧
        (iterate prefaceComment ({ state with sectionComment := none }, before)).Reads mid both rest
          [] := by
  rw [outerPreface, reads_emptyPreface_bind, reads_bind_nil]

/-- An outermost declaration is read in two parts, and the second does not look at what the file has
been so far. -/
theorem reads_outerDeclaration_parts {last : FileState} :
    (outerDeclaration state).Reads tokens last rest [] ↔
      ∃ both mid declared, (outerPreface state).Reads tokens both mid [] ∧
        (declaration both.2 false).Reads mid declared rest [] ∧
        last = both.1.addDeclaration declared := by
  have later : ∀ {file : FileState} {before : Preface} {tokens : List Token},
      (iterate prefaceComment (file, before) >>= fun both =>
        declaration both.2 false >>= fun declared =>
          pure (both.1.addDeclaration declared)).Reads tokens last rest [] ↔
      ∃ both mid declared, (iterate prefaceComment (file, before)).Reads tokens both mid [] ∧
        (declaration both.2 false).Reads mid declared rest [] ∧
        last = both.1.addDeclaration declared := by
    intro file before tokens
    rw [reads_bind_nil]
    constructor
    · rintro ⟨both, mid, comments, reads⟩
      obtain ⟨declared, rfl, declares⟩ := reads_bind_pure.1 reads
      exact ⟨both, mid, declared, comments, declares, rfl⟩
    · rintro ⟨both, mid, declared, comments, declares, rfl⟩
      exact ⟨both, mid, comments, reads_bind_pure.2 ⟨declared, rfl, declares⟩⟩
  simp only [reads_outerPreface, reads_documented]
  simp only [outerDeclaration, reads_emptyPreface_bind, reads_current_bind]
  by_cases doc : (currentToken tokens).kind = .docComment
  · rw [if_pos doc, reads_bind_nil]
    simp only [reads_pure_bind, later, doc]
    constructor
    · rintro ⟨node, mid, reads, both, second, declared, comments, declares, same⟩
      exact ⟨both, second, declared, ⟨_, mid, .inl ⟨trivial, node, rfl, reads⟩, comments⟩,
        declares, same⟩
    · rintro ⟨both, second, declared, ⟨_, mid, ⟨-, node, rfl, reads⟩ | ⟨none, -⟩, comments⟩,
        declares, same⟩
      · exact ⟨node, mid, reads, both, second, declared, comments, declares, same⟩
      · exact absurd rfl none
  · rw [if_neg doc, reads_pure_bind, later]
    simp [doc]

/-- The same of a file, and prefaces that are alike. -/
def Level (left right : FileState × Preface) : Prop :=
  left.1 = right.1 ∧ left.2.Alike right.2

theorem steady_prefaceComment {left right : FileState × Preface} (level : Level left right) :
    Steady x y (Turn.Alike Level) (prefaceComment left) (prefaceComment right) := by
  obtain ⟨file, before⟩ := left
  obtain ⟨_, after⟩ := right
  obtain ⟨rfl, alike⟩ := level
  refine steady_skipWhitespace.bind fun _ => .current fun token => .ite (fun _ => ?_) fun _ => ?_
  · refine steady_comment.bind fun node => steady_pure (.again ⟨?_, ?_⟩)
    · simp only [Preface.Alike] at alike
      rw [alike]
    · simp only [Preface.Alike] at alike
      rw [alike]
      rfl
  · exact steady_pure (.last ⟨rfl, alike⟩)

theorem steady_documented {before after : Preface} (alike : before.Alike after) :
    Steady x y Preface.Alike (documented before) (documented after) := by
  refine .current fun token => .ite (fun _ => ?_) fun _ => steady_pure alike
  exact steady_javadoc.bind fun node => steady_pure (by rw [alike]; rfl)

theorem steady_outerPreface : Steady x y Level (outerPreface state) (outerPreface state) := by
  refine steady_emptyPreface.bind_of fun start start' alike => ?_
  refine (steady_documented ?_).bind_of fun before after alike => ?_
  · rw [alike]
    rfl
  · exact .iterate_of (fun _ _ => steady_prefaceComment) ⟨rfl, alike⟩

/-- An outermost declaration is read alike whatever the file goes on with. -/
theorem outerDeclaration_swap {last : FileState}
    (h : (outerDeclaration state).Reads (front ++ x) last x []) :
    Closed front ∧ (outerDeclaration state).Reads (front ++ y) last y [] := by
  obtain ⟨⟨file, before⟩, mid, declared, prefaced, declares, rfl⟩ :=
    reads_outerDeclaration_parts.1 h
  obtain ⟨back, rfl, -⟩ := declares.advances
  obtain ⟨lead, split, -⟩ := prefaced.advances
  rw [← List.append_assoc, List.append_cancel_right_eq] at split
  subst split
  obtain ⟨closed, -⟩ :=
    @ends_declaration x y before before (.refl before) false back [] _ _ declares
  rw [List.append_assoc] at prefaced ⊢
  obtain ⟨⟨file', after⟩, ⟨rfl, alike⟩, prefaced'⟩ := steady_outerPreface closed.any prefaced
  obtain ⟨-, _, rfl, declares'⟩ :=
    @ends_declaration x y before after alike false back [] _ _ declares
  exact ⟨closed.append lead,
    reads_outerDeclaration_parts.2 ⟨_, _, declared, prefaced', declares', rfl⟩⟩

/-! ### Items in front of a class -/

/-- What stands in front of `x` in a file is told apart alike in front of `y`. -/
structure FilesInterchangeable (x y : List Token) : Prop where
  precedes : ∀ front,
    precedesDeclaration false (front ++ x) = precedesDeclaration false (front ++ y)
  announces : ∀ front, Announces (front ++ x) ↔ Announces (front ++ y)

/-- A Javadoc heads its file if a package declaration or an import is what comes next. -/
theorem headsFile_cons {token : Token} (tokens : List Token) :
    HeadsFile (token :: tokens) ↔ token.kind = .docComment ∧ Announces tokens := by
  refine and_congr_right fun doc => ?_
  have kind : token.kind = .docComment := doc
  have ahead : significantFrom 1 (token :: tokens) = significantFrom 0 tokens := by
    simp [significantFrom, Token.isTrivia, Token.isWhitespace, Token.isPlainComment, Token.isEnd,
      kind]
  rw [ahead, Announces]

theorem headsFile_iff_of_closed (closed : Closed front) (x y : List Token) :
    HeadsFile (front ++ x) ↔ HeadsFile (front ++ y) := by
  obtain ⟨token, others, rfl⟩ := List.exists_cons_of_ne_nil closed.ne_nil
  rw [List.cons_append, List.cons_append, headsFile_cons, headsFile_cons]
  refine and_congr_right fun doc => ?_
  have open_ : token.closes = false := by simp [Token.closes, doc]
  have later : others.any Token.closes = true := by
    have any := closed.any
    rwa [List.any_cons, open_, Bool.false_or] at any
  obtain ⟨first, ahead, -⟩ := peek_append later
  rw [Announces, Announces, ahead, ahead]

/-- A step stays the same in front of something else. -/
theorem FileStep.swap {next : FileState} (h : FileStep state (front ++ x) (.again next) x)
    (fits : FilesInterchangeable x y) : FileStep state (front ++ y) (.again next) y := by
  have present : front ≠ [] := by
    rintro rfl
    exact Nat.lt_irrefl _ h.length_lt
  have first : currentToken (front ++ x) = currentToken (front ++ y) :=
    (currentToken_append present x).trans (currentToken_append present y).symm
  generalize whole : front ++ x = tokens at h
  cases h with
  | semicolon kind =>
      rw [← List.singleton_append, List.append_cancel_right_eq] at whole
      rw [whole]
      exact .semicolon kind
  | @comment _ _ node plain reads =>
      rw [← whole] at plain reads ⊢
      have ink : (currentToken (front ++ x)).isWhitespace = false :=
        isWhitespace_eq_false_of_isComment (by simp [Token.isComment, plain])
      obtain ⟨token, rfl⟩ := exists_token_of_comment reads ink
      have step : FileStep state ([token] ++ y) _ y := .comment plain (comment_swap reads)
      have behind : precedesDeclaration false (([token] ++ x).drop 1) =
          precedesDeclaration false (([token] ++ y).drop 1) := fits.precedes []
      rwa [← behind] at step
  | header heads reads =>
      rw [← whole] at heads reads
      have ink : (currentToken (front ++ x)).isWhitespace = false := by
        simp [Token.isWhitespace, heads.1]
      obtain ⟨token, rfl⟩ := exists_token_of_comment reads ink
      have heads' : HeadsFile ([token] ++ y) := by
        obtain ⟨doc, announced⟩ := (headsFile_cons x).1 heads
        exact (headsFile_cons y).2 ⟨doc, (fits.announces []).1 announced⟩
      exact .header heads' (comment_swap reads)
  | packageStatement kind reads =>
      rw [← whole] at kind reads
      obtain ⟨-, _, rfl, reads'⟩ := @ends_packageStatement x y front [] _ _ reads
      exact .packageStatement (first ▸ kind) reads'
  | importStatement kind reads =>
      rw [← whole] at kind reads
      obtain ⟨-, _, rfl, reads'⟩ := @ends_importStatement x y front [] _ _ reads
      exact .importStatement (first ▸ kind) reads'
  | declaration starts plain alone reads =>
      rw [← whole] at starts plain alone reads
      obtain ⟨closed, reads'⟩ := @outerDeclaration_swap x y front state _ reads
      exact .declaration (first ▸ starts) (first ▸ plain)
        (mt (headsFile_iff_of_closed closed x y).2 alone) reads'

theorem FilesInterchangeable.behind (h : FilesInterchangeable x y) (back : List Token) :
    FilesInterchangeable (back ++ x) (back ++ y) where
  precedes front := by simpa using h.precedes (front ++ back)
  announces front := by simpa using h.announces (front ++ back)

/-- What is put in front of two rows of tokens either announces a statement itself, or leaves that to
the rows. -/
theorem announces_append (same : Announces x ↔ Announces y) (front : List Token) :
    Announces (front ++ x) ↔ Announces (front ++ y) := by
  induction front with
  | nil => exact same
  | cons token others ih =>
      by_cases trivia : token.isTrivia = true
      · rwa [List.cons_append, List.cons_append, Announces, Announces, significantFrom,
          significantFrom, if_pos trivia, if_pos trivia]
      · rw [List.cons_append, List.cons_append, Announces, Announces, significantFrom,
          significantFrom, if_neg trivia, if_neg trivia, ite_self, ite_self]
        rfl

theorem not_announces_of_leads (blank : ∀ token ∈ blanks, token.isWhitespace = true)
    (leads : (currentToken tokens).leads = true) : ¬ Announces (blanks ++ tokens) := by
  rw [Announces, significantFrom_of_leads blank leads, List.mem_cons, List.mem_singleton]
  rintro (word | word) <;>
    simp [Token.leads, startsDeclaration, Token.kind_of_keyword? word, Keyword.modifier?,
      Keyword.isType] at leads

/-- Up to a token that closes, two files that begin alike cannot be told apart. -/
theorem filesInterchangeable_of_closed (closed : Closed front)
    (blanks x y : List Token) :
    FilesInterchangeable (blanks ++ (front ++ x)) (blanks ++ (front ++ y)) where
  precedes before := by
    have same := precedesDeclaration_append (closed.append (before ++ blanks)).any false x y
    simpa using same
  announces before := by
    obtain ⟨first, ahead, -⟩ := peek_append (closed.append (before ++ blanks)).any
    have same : Announces (before ++ blanks ++ front ++ x) ↔
        Announces (before ++ blanks ++ front ++ y) := by rw [Announces, Announces, ahead, ahead]
    simpa using same

/-- A file is read from the one place on as it is from the other. -/
def FilesAgree (state : FileState) (here here' : List Token) : Prop :=
  ∀ ⦃last rest skipped⦄, (iterate fileItem state).Reads here last rest skipped →
    (iterate fileItem state).Reads here' last rest skipped

/-- An item of a file stays the same in front of something else. -/
theorem fileItem_swap {next : FileState}
    (h : (fileItem state).Reads (front ++ x) (.again next) x skipped)
    (fits : FilesInterchangeable x y) : (fileItem state).Reads (front ++ y) (.again next) y [] := by
  obtain ⟨rfl, step⟩ := reads_fileItem.1 h
  obtain ⟨passed, ahead, -⟩ := (reads_fileItem_dropWhile.2 h).advances
  have split := List.takeWhile_append_dropWhile (p := Token.isWhitespace) (l := front ++ x)
  have blank : ∀ token ∈ (front ++ x).takeWhile Token.isWhitespace, token.isWhitespace = true :=
    fun token mem => List.all_eq_true.1 List.all_takeWhile token mem
  have ink := isWhitespace_of_dropWhile (front ++ x)
  rw [ahead] at step split ink
  generalize (front ++ x).takeWhile Token.isWhitespace = blanks at split blank
  rw [← List.append_assoc, List.append_cancel_right_eq] at split
  subst split
  have present : passed ≠ [] := by
    rintro rfl
    exact Nat.lt_irrefl _ step.length_lt
  rw [currentToken_append present] at ink
  refine reads_fileItem.2 ⟨rfl, ?_⟩
  rw [List.append_assoc, List.dropWhile_append_of_pos blank,
    dropWhile_of_current (by rwa [currentToken_append present])]
  exact step.swap fits

theorem Goes.advances {step : σ → Reading (Turn σ)} {state last : σ}
    (h : Goes step state tokens last mid) : Advances tokens mid := by
  induction h with
  | here => exact .refl _
  | again one _ _ ih => exact one.advances.trans ih

/-- Behind the same items, files agree if they do from there on. -/
theorem filesAgree_of_goes {last : FileState} (h : Goes fileItem state (front ++ x) last x)
    (fits : FilesInterchangeable x y) (agree : FilesAgree last x y) :
    FilesAgree state (front ++ x) (front ++ y) := by
  generalize whole : front ++ x = tokens at h
  induction h generalizing front with
  | here =>
      obtain rfl := List.append_left_eq_self.1 whole
      exact agree
  | again one moved others ih =>
      obtain ⟨back, rfl, -⟩ := others.advances
      obtain ⟨passed, rfl, -⟩ := one.advances
      rw [← List.append_assoc, List.append_cancel_right_eq] at whole
      subst whole
      obtain ⟨rfl, -⟩ := reads_fileItem.1 one
      have one' := fileItem_swap one (fits.behind back)
      have moved' : (back ++ y).length < (passed ++ (back ++ y)).length := by
        simp only [List.length_append] at moved ⊢
        omega
      intro final rest skipped reads
      rw [List.append_assoc]
      exact (reads_iterate_step one' moved').2
        (ih fits agree rfl ((reads_iterate_step one moved).1 reads))

/-- An outermost declaration begins here, as no other item of a file does. -/
structure BeginsOuter (tokens : List Token) : Prop where
  ink : (currentToken tokens).isWhitespace = false
  starts : startsOther (currentToken tokens) = false
  plain : (currentToken tokens).isPlainComment = false
  alone : ¬ HeadsFile tokens

theorem beginsOuter_of_leads (leads : (currentToken tokens).leads = true) :
    BeginsOuter tokens := by
  have kinds := Token.not_leads_of_mem leads
  simp only [List.mem_cons, List.not_mem_nil, or_false, not_or] at kinds
  have words : ∀ word ∈ [Keyword.package, .import], (currentToken tokens).kind ≠ .keyword word := by
    intro word mem kind
    simp only [List.mem_cons, List.not_mem_nil, or_false] at mem
    rcases mem with rfl | rfl <;>
      simp [Token.leads, startsDeclaration, kind, Keyword.modifier?, Keyword.isType] at leads
  refine ⟨?_, ?_, ?_, fun heads => ?_⟩
  · simp [Token.isWhitespace, kinds]
  · simp [startsOther, kinds, words .package (by simp), words .import (by simp)]
  · simp [Token.isPlainComment, kinds]
  · exact absurd heads.1 (by simp [kinds])

/-- That a declaration begins is told by its tokens up to the first that closes. -/
theorem BeginsOuter.swap (h : BeginsOuter (front ++ x)) (closed : Closed front) :
    BeginsOuter (front ++ y) := by
  have first := closed.currentToken_append x y
  exact ⟨first ▸ h.ink, first ▸ h.starts, first ▸ h.plain,
    mt (headsFile_iff_of_closed closed x y).2 h.alone⟩

/-- Where a declaration begins, no other step is possible. -/
theorem FileStep.exists_outer {turn : Turn FileState} (h : FileStep state tokens turn rest)
    (begins : BeginsOuter tokens) :
    ∃ last, turn = .again last ∧ (outerDeclaration state).Reads tokens last rest [] := by
  obtain ⟨-, starts, noPlain, alone⟩ := begins
  simp only [startsOther, List.mem_cons, List.not_mem_nil, or_false, decide_eq_false_iff_not,
    not_or] at starts
  obtain ⟨noSemicolon, noPackage, noImport, inside⟩ := starts
  cases h with
  | ends ends => exact absurd (of_decide_eq_true ends) inside
  | semicolon kind => exact absurd kind noSemicolon
  | comment plain => simp [noPlain] at plain
  | header heads => exact absurd heads alone
  | packageStatement kind => exact absurd kind noPackage
  | importStatement kind => exact absurd kind noImport
  | declaration _ _ _ reads => exact ⟨_, rfl, reads⟩

/-- Files agree from outermost declarations on that are read alike. -/
theorem filesAgree_of_outer (blank : ∀ token ∈ blanks, token.isWhitespace = true)
    (begins : BeginsOuter tokens) (begins' : BeginsOuter tokens')
    (swap : ∀ ⦃last rest⦄, (outerDeclaration state).Reads tokens last rest [] →
      (outerDeclaration state).Reads tokens' last rest []) :
    FilesAgree state (blanks ++ tokens) (blanks ++ tokens') := by
  have behind : ∀ {tokens}, BeginsOuter tokens →
      (blanks ++ tokens).dropWhile Token.isWhitespace = tokens := by
    intro tokens begins
    rw [List.dropWhile_append_of_pos blank, dropWhile_of_current begins.ink]
  have outer : ∀ {turn mid passed}, (fileItem state).Reads (blanks ++ tokens) turn mid passed →
      passed = [] ∧
        ∃ last, turn = .again last ∧ (outerDeclaration state).Reads tokens last mid [] := by
    intro turn mid passed reads
    obtain ⟨rfl, step⟩ := reads_fileItem.1 reads
    rw [behind begins] at step
    exact ⟨rfl, step.exists_outer begins⟩
  intro final rest skipped reads
  rcases reads_iterate_cases reads with ends | ⟨stalls, still⟩ |
    ⟨next, mid, passed, later, one, -, others, rfl⟩
  · obtain ⟨-, last, same, -⟩ := outer ends
    cases same
  · exact absurd (progresses_fileItem stalls) still
  · obtain ⟨rfl, last, same, declares⟩ := outer one
    obtain rfl := Turn.again.inj same
    have step := FileStep.declaration begins'.starts begins'.plain begins'.alone (swap declares)
    have one' : (fileItem state).Reads (blanks ++ tokens') (.again next) mid [] := by
      refine reads_fileItem.2 ⟨rfl, ?_⟩
      rwa [behind begins']
    exact reads_iterate_again one' (progresses_fileItem one') others

/-- Files that agree are the same class. -/
theorem reads_compilationUnit_of_agree {node : ClassDecl} (agree : FilesAgree {} tokens tokens')
    (reads : compilationUnit.Reads tokens node rest skipped) :
    compilationUnit.Reads tokens' node rest skipped := by
  obtain ⟨state, outer, items, found⟩ := reads_compilationUnit.1 reads
  exact reads_compilationUnit.2 ⟨state, outer, agree items, found⟩

end Reading

end JavaUnit
