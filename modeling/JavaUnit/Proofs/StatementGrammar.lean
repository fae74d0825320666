/-
Module: JavaUnit.Proofs.StatementGrammar
Purpose: Package declarations and import statements have a grammar over the tokens that are not
  white space. A text is read as a statement exactly if its tokens are those of the statement, so
  one comment anywhere is enough to refuse it; and what a draft builds is read back from its
  rendering.
Main exports: NameTokens, PackageTokens, ImportTokens, statements_read_by_grammar
-/
import JavaUnit.Proofs.BlockBodies

namespace JavaUnit

/-! ### The grammar -/

/-- The tokens of a qualified name: identifiers with dots between them. -/
inductive NameTokens : Text → List Token → Prop where
  | single {part : Token} (word : part.kind = .identifier) : NameTokens part.text [part]
  | dotted {name : Text} {tokens : List Token} {dot part : Token} (front : NameTokens name tokens)
      (mark : dot.kind = .dot) (word : part.kind = .identifier) :
      NameTokens (name ++ '.' :: part.text) (tokens ++ [dot, part])

/-- The word `static`, if it is there. -/
inductive StaticTokens : Bool → List Token → Prop where
  | absent : StaticTokens false []
  | present {word : Token} (kind : word.kind = .keyword .static) : StaticTokens true [word]

/-- A dot and a star, if they are there. -/
inductive WildcardTokens : Bool → List Token → Prop where
  | absent : WildcardTokens false []
  | present {dot star : Token} (mark : dot.kind = .dot) (all : star.isOperator ['*'] = true) :
      WildcardTokens true [dot, star]

/-- A semicolon and the end of the input. -/
inductive ClosingTokens : List Token → Prop where
  | intro {semicolon last : Token} (mark : semicolon.kind = .semicolon) (ends : last.kind = .eof) :
      ClosingTokens [semicolon, last]

/-- The tokens of a package declaration. -/
inductive PackageTokens : Package → List Token → Prop where
  | intro {word : Token} {name : Text} {nameTokens closing : List Token}
      (keyword : word.kind = .keyword .package) (named : NameTokens name nameTokens)
      (closes : ClosingTokens closing) :
      PackageTokens { name } (word :: (nameTokens ++ closing))

/-- The tokens of an import statement. -/
inductive ImportTokens : Import → List Token → Prop where
  | intro {word : Token} {name : Text} {isStatic isWildcard : Bool}
      {staticTokens nameTokens wildcardTokens closing : List Token}
      (keyword : word.kind = .keyword .import) (stat : StaticTokens isStatic staticTokens)
      (named : NameTokens name nameTokens) (wild : WildcardTokens isWildcard wildcardTokens)
      (closes : ClosingTokens closing) :
      ImportTokens { name, isStatic, isWildcard }
        (word :: (staticTokens ++ (nameTokens ++ (wildcardTokens ++ closing))))

/-! ### One token after another -/

variable {tokens rest more : List Token} {token : Token}

/-- Passing a token without a comment in front of it takes it off the tokens that are not white
space. -/
theorem Passes.inkOf_eq (h : Passes tokens token rest []) : inkOf tokens = token :: inkOf rest := by
  generalize none : ([] : List Token) = skipped at h
  induction h with
  | token matters =>
      have ink := matters
      rw [Token.isTrivia, Bool.or_eq_false_iff] at ink
      exact List.filter_cons_of_pos (by simp [ink.1])
  | whitespace blank _ ih => rw [inkOf, List.filter_cons_of_neg (by simp [blank]), ← ih none]; rfl
  | comment => cases none

/-- A token that is neither trivia nor the end can be passed where it is the first one that is not
white space. -/
theorem exists_passes_of_inkOf (ink : inkOf tokens = token :: more) (matters : token.isTrivia = false)
    (inside : token.isEnd = false) : ∃ rest, Passes tokens token rest [] ∧ inkOf rest = more := by
  induction tokens with
  | nil => cases ink
  | cons first others ih =>
      cases blank : first.isWhitespace with
      | true =>
          rw [inkOf, List.filter_cons_of_neg (by simp [blank])] at ink
          obtain ⟨rest, passes, left⟩ := ih ink
          exact ⟨rest, .whitespace blank passes, left⟩
      | false =>
          rw [inkOf, List.filter_cons_of_pos (by simp [blank]), List.cons.injEq] at ink
          obtain ⟨rfl, rfl⟩ := ink
          exact ⟨others, .token matters inside, rfl⟩

/-- The kinds of tokens that the statements are made of are neither trivia nor the end. -/
theorem exists_passes_of_kind_inkOf {kind : Kind} (ink : inkOf tokens = token :: more)
    (same : token.kind = kind) (matters : (Token.mk kind []).isTrivia = false)
    (inside : kind ≠ .eof) : ∃ rest, Passes tokens token rest [] ∧ inkOf rest = more := by
  subst same
  exact exists_passes_of_inkOf ink matters (by simpa [Token.isEnd] using inside)

/-- White space in front of some tokens is none of those that count. -/
theorem inkOf_dropWhile (tokens : List Token) :
    inkOf (tokens.dropWhile Token.isWhitespace) = inkOf tokens := by
  have blank : inkOf (tokens.takeWhile Token.isWhitespace) = [] :=
    List.filter_eq_nil_iff.2 fun token mem => by
      simp [List.all_eq_true.1 List.all_takeWhile token mem]
  conv => rhs; rw [← List.takeWhile_append_dropWhile (p := Token.isWhitespace) (l := tokens),
    inkOf_append, blank, List.nil_append]

/-- Looking ahead shows the first token that is not white space, unless it is a comment. -/
theorem Passes.currentToken_zero {skipped : List Token} (h : Passes tokens token rest skipped) :
    currentToken (significantFrom 0 tokens) = token := by
  rw [h.significantFrom_zero]
  rfl

theorem Passes.currentToken_one {mid skipped passed : List Token} {next : Token}
    (h : Passes tokens token mid skipped) (h' : Passes mid next rest passed) :
    currentToken (significantFrom 1 tokens) = next := by
  rw [h.significantFrom_succ, h'.currentToken_zero]

/-! ### Names -/

namespace Reading

variable {scope : Scope} {what : Expectation} {name : Text}

/-- One more part of a qualified name, as the loop of the reading takes it. -/
def namePart (name : Text) : Reading (Turn Text) := do
  if (← peek 0).kind = .dot ∧ (← peek 1).kind = .identifier then
    let _ ← bump
    let part ← bump
    return .again (name ++ '.' :: part.text)
  else
    return .last name

theorem qualifiedName_eq :
    qualifiedName scope what = identifier scope what >>= iterate namePart :=
  rfl

/-- What a part of a name is read from, if it is not the last. -/
theorem passes_of_namePart {name next : Text}
    (reads : (namePart name).Reads tokens (.again next) rest []) :
    ∃ dot part mid, dot.kind = .dot ∧ part.kind = .identifier ∧ next = name ++ '.' :: part.text ∧
      Passes tokens dot mid [] ∧ Passes mid part rest [] := by
  rw [namePart, reads_peek_bind, reads_peek_bind, reads_ite] at reads
  rcases reads with ⟨⟨mark, word⟩, reads⟩ | ⟨-, reads⟩
  · obtain ⟨dot, mid, passed, part, behind, passed', isDot, first, isPart, second⟩ :=
      exists_passes_of_kinds mark word (by decide) (by decide)
    rw [reads_bump_bind first] at reads
    obtain ⟨later, reads, split⟩ := reads
    rw [reads_bump_bind second] at reads
    obtain ⟨last, reads, split'⟩ := reads
    obtain ⟨same, rfl, rfl⟩ := reads_pure.1 reads
    obtain ⟨rfl, rfl⟩ := List.append_eq_nil_iff.1 split.symm
    obtain ⟨rfl, -⟩ := List.append_eq_nil_iff.1 split'.symm
    cases same
    exact ⟨dot, part, mid, isDot, isPart, rfl, first, second⟩
  · cases (reads_pure.1 reads).1

theorem inkOf_of_namePart {name next : Text}
    (reads : (namePart name).Reads tokens (.again next) rest []) :
    ∃ dot part, dot.kind = .dot ∧ part.kind = .identifier ∧ next = name ++ '.' :: part.text ∧
      inkOf tokens = dot :: part :: inkOf rest := by
  obtain ⟨dot, part, mid, mark, word, same, first, second⟩ := passes_of_namePart reads
  exact ⟨dot, part, mark, word, same, by rw [first.inkOf_eq, second.inkOf_eq]⟩

/-- The last part of a name is read where no dot and identifier follow. -/
theorem namePart_last {name last : Text}
    (reads : (namePart name).Reads tokens (.last last) rest []) : last = name ∧ rest = tokens := by
  rw [namePart, reads_peek_bind, reads_peek_bind, reads_ite] at reads
  rcases reads with ⟨⟨mark, word⟩, reads⟩ | ⟨-, reads⟩
  · obtain ⟨dot, mid, passed, part, behind, passed', isDot, first, isPart, second⟩ :=
      exists_passes_of_kinds mark word (by decide) (by decide)
    rw [reads_bump_bind first] at reads
    obtain ⟨later, reads, -⟩ := reads
    rw [reads_bump_bind second] at reads
    obtain ⟨last, reads, -⟩ := reads
    cases (reads_pure.1 reads).1
  · obtain ⟨same, rfl, -⟩ := reads_pure.1 reads
    exact ⟨Turn.last.inj same, rfl⟩

/-- A qualified name is read from the tokens of one. -/
theorem nameTokens_of_reads (reads : (qualifiedName scope what).Reads tokens name rest []) :
    ∃ front, NameTokens name front ∧ inkOf tokens = front ++ inkOf rest := by
  rw [qualifiedName_eq, reads_bind_nil] at reads
  obtain ⟨first, mid, word, reads⟩ := reads
  obtain ⟨part, isPart, rfl, passes⟩ := reads_identifier.1 word
  -- In front of every further part stand the tokens of the name so far.
  obtain ⟨before, behind, done, passed, inv, split, ends⟩ := reads_iterate reads
    (fun name left done => done = [] →
      ∃ front, NameTokens name front ∧ inkOf tokens = front ++ inkOf left)
    (fun _ => ⟨_, .single isPart, passes.inkOf_eq⟩)
    (by
      intro state tokens done next rest passed inv step none
      obtain ⟨rfl, rfl⟩ := List.append_eq_nil_iff.1 none
      obtain ⟨front, named, ink⟩ := inv rfl
      obtain ⟨dot, part, mark, word, rfl, further⟩ := inkOf_of_namePart step
      exact ⟨_, .dotted named mark word, by rw [ink, further]; simp⟩)
  obtain ⟨rfl, rfl⟩ := List.append_eq_nil_iff.1 split.symm
  obtain ⟨front, named, ink⟩ := inv rfl
  rcases ends with ends | ⟨further, -⟩
  · obtain ⟨rfl, rfl⟩ := namePart_last ends
    exact ⟨front, named, ink⟩
  · obtain ⟨dot, part, mark, word, rfl, parts⟩ := inkOf_of_namePart further
    exact ⟨_, .dotted named mark word, by rw [ink, parts]; simp⟩

/-- The kinds of the next two tokens do not go on with a name. -/
def StopsName (tokens : List Token) : Prop :=
  ¬ ((currentToken (significantFrom 0 tokens)).kind = .dot ∧
    (currentToken (significantFrom 1 tokens)).kind = .identifier)

theorem reads_namePart_last (ends : StopsName tokens) :
    (namePart name).Reads tokens (.last name) tokens [] := by
  rw [namePart, reads_peek_bind, reads_peek_bind, if_neg ends]
  exact reads_pure.2 ⟨rfl, rfl, rfl⟩

theorem reads_namePart_again {dot part : Token} {mid : List Token} (mark : dot.kind = .dot)
    (word : part.kind = .identifier) (first : Passes tokens dot mid [])
    (second : Passes mid part rest []) :
    (namePart name).Reads tokens (.again (name ++ '.' :: part.text)) rest [] := by
  rw [namePart, reads_peek_bind, reads_peek_bind, first.currentToken_zero,
    first.currentToken_one second, if_pos ⟨mark, word⟩, reads_bump_bind first]
  exact ⟨[], (reads_bump_bind second).2 ⟨[], reads_pure.2 ⟨rfl, rfl, rfl⟩, rfl⟩, rfl⟩

/-- The tokens of a name are read as the name, if what follows does not go on with it. -/
theorem reads_of_nameTokens {front : List Token} (named : NameTokens name front)
    (ink : inkOf tokens = front ++ more)
    (ends : ∀ rest, inkOf rest = more → StopsName rest) :
    ∃ rest, (qualifiedName scope what).Reads tokens name rest [] ∧ inkOf rest = more := by
  -- Wherever the loop goes on behind the tokens, the whole name goes on.
  have reaches : ∃ mid, inkOf mid = more ∧ ∀ {last rest},
      (iterate namePart name).Reads mid last rest [] →
        (qualifiedName scope what).Reads tokens last rest [] := by
    clear ends
    induction named generalizing more with
    | single word =>
        obtain ⟨mid, passes, left⟩ := exists_passes_of_kind_inkOf ink word rfl (by decide)
        exact ⟨mid, left, fun later => by
          rw [qualifiedName_eq, reads_bind_nil]
          exact ⟨_, mid, reads_identifier.2 ⟨_, word, rfl, passes⟩, later⟩⟩
    | @dotted name front dot part _ mark word ih =>
        obtain ⟨before, left, goesOn⟩ := ih (ink.trans (List.append_assoc ..))
        obtain ⟨mid, first, left⟩ := exists_passes_of_kind_inkOf left mark rfl (by decide)
        obtain ⟨behind, second, left⟩ := exists_passes_of_kind_inkOf left word rfl (by decide)
        refine ⟨behind, left, fun later => goesOn ?_⟩
        have shorter := Nat.lt_trans second.length_lt first.length_lt
        exact reads_iterate_again (reads_namePart_again mark word first second) shorter later
  obtain ⟨rest, left, goesOn⟩ := reaches
  exact ⟨rest, goesOn (reads_iterate_last (reads_namePart_last (ends rest left))), left⟩

end Reading

/-! ### Names of tokens -/

/-- An identifier token spells an identifier. -/
theorem isIdentifier_of_spelled {first : Char} {body rest : Text} {kind : Kind}
    (spelled : Spelled first body kind rest) (word : kind = .identifier) :
    isIdentifier (first :: body) = true := by
  cases spelled with
  | word start parts =>
      have unknown : Keyword.lookup (first :: body) = none := by
        cases found : Keyword.lookup (first :: body) with
        | none => rfl
        | some keyword => simp [wordKind, found] at word
      rw [isIdentifier, start, unknown, List.all_eq_true.2 parts]
      rfl
  | mark known => exact absurd known (by subst word; simp [punctuation])
  | comment => split at word <;> cases word
  | _ => cases word

theorem isIdentifier_of_lexed {source : Text} (lexed : Lexed source tokens) (mem : token ∈ tokens)
    (word : token.kind = .identifier) : isIdentifier token.text = true := by
  obtain ⟨_, _, ⟨spelled⟩⟩ := lexed.exists_cut_of_mem mem (by simp [Token.isEnd, word])
  exact isIdentifier_of_spelled spelled word

theorem NameTokens.starts {name : Text} {front : List Token} (h : NameTokens name front) :
    ∃ first others, front ++ more = first :: others ∧ first.kind = .identifier := by
  induction h generalizing more with
  | single word => exact ⟨_, more, rfl, word⟩
  | @dotted _ _ dot part _ _ _ ih =>
      obtain ⟨first, others, begins, word⟩ := @ih ([dot, part] ++ more)
      exact ⟨first, others, (List.append_assoc ..).trans begins, word⟩

/-- A name of identifiers is a qualified name. -/
theorem NameTokens.isQualifiedName {name : Text} {front : List Token} (h : NameTokens name front)
    (known : ∀ token ∈ front, token.kind = .identifier → isIdentifier token.text = true) :
    isQualifiedName name = true := by
  have single : ∀ {part : Text}, isIdentifier part = true → part.split '.' = [part] := by
    intro part word
    refine Text.split_of_notMem fun dot => ?_
    have other := (isWordPart_of_isIdentifier word).2 '.' dot
    rw [isWordPart_of_boundary (by decide)] at other
    cases other
  induction h with
  | single word =>
      have own := known _ (List.mem_singleton_self _) word
      rw [JavaUnit.isQualifiedName, single own, List.all_cons, own]
      rfl
  | dotted _ _ word ih =>
      have front := ih fun token mem => known token (List.mem_append_left _ mem)
      have own := known _ (List.mem_append_right _ (by simp)) word
      rw [JavaUnit.isQualifiedName] at front ⊢
      rw [Text.split_append, List.all_append, front, single own, List.all_cons, own]
      rfl

/-! ### Statements -/

namespace Reading

theorem inkOf_of_expect (kind : Kind) (inside : kind ≠ .eof) {value : Unit}
    (reads : (expect scope kind what).Reads tokens value rest []) :
    ∃ token, token.kind = kind ∧ inkOf tokens = token :: inkOf rest := by
  obtain ⟨token, same, passes⟩ := (reads_expect kind inside).1 reads
  exact ⟨token, same, passes.inkOf_eq⟩

theorem reads_expect_of_inkOf {kind : Kind} (ink : inkOf tokens = token :: more)
    (same : token.kind = kind) (matters : (Token.mk kind []).isTrivia = false)
    (inside : kind ≠ .eof) :
    ∃ rest, (expect scope kind what).Reads tokens () rest [] ∧ inkOf rest = more := by
  obtain ⟨rest, passes, left⟩ := exists_passes_of_kind_inkOf ink same matters inside
  exact ⟨rest, (reads_expect kind inside).2 ⟨token, same, passes⟩, left⟩

/-- A package declaration is read from the tokens of one, as far as its semicolon. -/
theorem tokens_of_packageStatement {node : Package} {skipped : List Token}
    (reads : packageStatement.Reads tokens node rest skipped) :
    ∃ word name front semicolon, word.kind = .keyword .package ∧ NameTokens name front ∧
      semicolon.kind = .semicolon ∧ inkOf tokens = word :: (front ++ semicolon :: inkOf rest) ∧
      (PackageDraft.withName {} name).build = .ok node := by
  rw [packageStatement, reads_scopeHere_bind, reads_finish] at reads
  obtain ⟨-, attempt, parts, -, built⟩ := reads
  obtain ⟨_, behind, keyword, parts⟩ := reads_bind_nil.1 parts
  obtain ⟨name, mid, named, parts⟩ := reads_bind_nil.1 parts
  obtain ⟨_, last, closes, parts⟩ := reads_bind_nil.1 parts
  obtain ⟨rfl, rfl, -⟩ := reads_pure.1 parts
  obtain ⟨word, isPackage, first⟩ := inkOf_of_expect (.keyword .package) (by decide) keyword
  obtain ⟨front, named, ink⟩ := nameTokens_of_reads named
  obtain ⟨semicolon, mark, ends⟩ := inkOf_of_expect .semicolon (by decide) closes
  rw [inkOf_dropWhile, ink, ends] at first
  exact ⟨word, name, front, semicolon, isPackage, named, mark, first, built⟩

/-- The word `static` that an import statement may have behind its first word. -/
theorem staticTokens_of_reads {next : Reading α} {value : α}
    (reads : (if decide ((currentToken (significantFrom 0 tokens)).keyword? = some .static) = true
      then bump >>= fun _ => next else next).Reads tokens value rest []) :
    ∃ front mid,
      StaticTokens (decide ((currentToken (significantFrom 0 tokens)).keyword? = some .static))
        front ∧
      inkOf tokens = front ++ inkOf mid ∧ next.Reads mid value rest [] := by
  obtain ⟨mid, ⟨here, _, passed⟩ | ⟨none, rfl⟩, later⟩ := reads_when.1 reads
  · obtain ⟨word, behind, skipped, kind, passes⟩ :=
      exists_passes_of_kind (Token.kind_of_keyword? (of_decide_eq_true here)) (by decide)
    obtain ⟨-, rfl, rfl⟩ := (reads_bump passes).1 passed
    rw [here]
    exact ⟨[word], mid, .present kind, passes.inkOf_eq, later⟩
  · rw [Bool.eq_false_iff.2 none]
    exact ⟨[], mid, .absent, rfl, later⟩

/-- The dot and the star that an import statement may have behind its name. -/
theorem wildcardTokens_of_reads {next : Reading α} {value : α} {isWildcard : Bool}
    (same : isWildcard = ((currentToken (significantFrom 0 tokens)).kind = .dot
      && (currentToken (significantFrom 1 tokens)).isOperator ['*']))
    (reads : (if isWildcard = true then bump >>= fun _ => bump >>= fun _ => next
      else next).Reads tokens value rest []) :
    ∃ front mid, WildcardTokens isWildcard front ∧ inkOf tokens = front ++ inkOf mid ∧
      next.Reads mid value rest [] := by
  cases isWildcard with
  | false => exact ⟨[], tokens, .absent, rfl, reads⟩
  | true =>
      have both := (Bool.and_eq_true _ _).mp same.symm
      have operator := (Bool.and_eq_true _ _).mp both.2
      obtain ⟨dot, mid, passed, star, behind, passed', isDot, first, -, second⟩ :=
        exists_passes_of_kinds (of_decide_eq_true both.1) (of_decide_eq_true operator.1) (by decide) (by decide)
      rw [if_pos rfl, reads_bump_bind first] at reads
      obtain ⟨later, reads, split⟩ := reads
      rw [reads_bump_bind second] at reads
      obtain ⟨last, reads, split'⟩ := reads
      obtain ⟨rfl, rfl⟩ := List.append_eq_nil_iff.1 split.symm
      obtain ⟨rfl, rfl⟩ := List.append_eq_nil_iff.1 split'.symm
      have isStar := both.2
      rw [first.currentToken_one second] at isStar
      exact ⟨[dot, star], behind, .present isDot isStar,
        by rw [first.inkOf_eq, second.inkOf_eq]; rfl, reads⟩

/-- An import statement is read from the tokens of one, as far as its semicolon. -/
theorem tokens_of_importStatement {node : Import} {skipped : List Token}
    (reads : importStatement.Reads tokens node rest skipped) :
    ∃ word name isStatic isWildcard staticTokens front wildcardTokens semicolon,
      word.kind = .keyword .import ∧ StaticTokens isStatic staticTokens ∧ NameTokens name front ∧
      WildcardTokens isWildcard wildcardTokens ∧ semicolon.kind = .semicolon ∧
      inkOf tokens =
        word :: (staticTokens ++ (front ++ (wildcardTokens ++ semicolon :: inkOf rest))) ∧
      (((ImportDraft.withName {} name).withStatic isStatic).withWildcard isWildcard).build
        = .ok node := by
  rw [importStatement, reads_scopeHere_bind, reads_finish] at reads
  obtain ⟨-, attempt, parts, -, built⟩ := reads
  obtain ⟨_, behind, keyword, parts⟩ := reads_bind_nil.1 parts
  rw [reads_peek_bind] at parts
  obtain ⟨staticTokens, start, stat, first, parts⟩ := staticTokens_of_reads parts
  obtain ⟨name, mid, named, parts⟩ := reads_bind_nil.1 parts
  rw [reads_peek_bind, reads_peek_bind] at parts
  obtain ⟨wildcardTokens, left, wild, second, parts⟩ := wildcardTokens_of_reads rfl parts
  obtain ⟨_, last, closes, parts⟩ := reads_bind_nil.1 parts
  obtain ⟨rfl, rfl, -⟩ := reads_pure.1 parts
  obtain ⟨word, isImport, ink⟩ := inkOf_of_expect (.keyword .import) (by decide) keyword
  obtain ⟨front, named, third⟩ := nameTokens_of_reads named
  obtain ⟨semicolon, mark, ends⟩ := inkOf_of_expect .semicolon (by decide) closes
  rw [inkOf_dropWhile, first, third, second, ends] at ink
  exact ⟨word, name, _, _, staticTokens, front, wildcardTokens, semicolon, isImport, stat, named,
    wild, mark, ink, built⟩

/-- The tokens of a package declaration are read as one. -/
theorem reads_packageStatement_of_tokens {word semicolon : Token} {name : Text}
    {front : List Token} {node : Package} (keyword : word.kind = .keyword .package)
    (named : NameTokens name front) (mark : semicolon.kind = .semicolon)
    (ink : inkOf tokens = word :: (front ++ semicolon :: more))
    (built : (PackageDraft.withName {} name).build = .ok node) :
    ∃ rest, packageStatement.Reads tokens node rest [] ∧ inkOf rest = more := by
  rw [← inkOf_dropWhile] at ink
  obtain ⟨behind, first, ink⟩ := reads_expect_of_inkOf ink keyword rfl (by decide)
  obtain ⟨mid, second, ink⟩ := reads_of_nameTokens named ink fun rest left => by
    obtain ⟨_, passes, -⟩ := exists_passes_of_kind_inkOf left mark rfl (by decide)
    rw [StopsName, passes.currentToken_zero, mark]
    simp
  obtain ⟨rest, third, left⟩ := reads_expect_of_inkOf ink mark rfl (by decide)
  refine ⟨rest, ?_, left⟩
  rw [packageStatement, reads_scopeHere_bind, reads_finish]
  refine ⟨rfl, { built := (PackageDraft.withName {} name).build }, ?_, rfl, built⟩
  refine reads_bind_nil.2 ⟨_, _, first, reads_bind_nil.2 ⟨_, _, second, ?_⟩⟩
  exact reads_bind_nil.2 ⟨_, _, third, reads_pure.2 ⟨rfl, rfl, rfl⟩⟩

theorem reads_of_staticTokens {next : Reading α} {isStatic : Bool} {front : List Token}
    (stat : StaticTokens isStatic front) (ink : inkOf tokens = front ++ more)
    (starts : ∃ first others, more = first :: others ∧ first.kind = .identifier) :
    decide ((currentToken (significantFrom 0 tokens)).keyword? = some .static) = isStatic ∧
      ∃ mid, inkOf mid = more ∧ ∀ {value rest}, next.Reads mid value rest [] →
        (if isStatic = true then bump >>= fun _ => next else next).Reads tokens value rest [] := by
  cases stat with
  | absent =>
      obtain ⟨first, others, rfl, word⟩ := starts
      obtain ⟨_, passes, -⟩ := exists_passes_of_kind_inkOf ink word rfl (by decide)
      rw [passes.currentToken_zero, Token.keyword?, word]
      exact ⟨rfl, tokens, ink, id⟩
  | present kind =>
      obtain ⟨mid, passes, left⟩ := exists_passes_of_kind_inkOf ink kind rfl (by decide)
      rw [passes.currentToken_zero, Token.keyword?, kind]
      exact ⟨rfl, mid, left, fun later => (reads_bump_bind passes).2 ⟨[], later, rfl⟩⟩

/-- What may stand behind the name in an import statement does not go on with the name. -/
theorem stopsName_of_wildcardTokens {isWildcard : Bool} {front : List Token} {semicolon : Token}
    (wild : WildcardTokens isWildcard front) (mark : semicolon.kind = .semicolon)
    (ink : inkOf tokens = front ++ semicolon :: more) : StopsName tokens := by
  rw [StopsName]
  cases wild with
  | absent =>
      obtain ⟨_, passes, -⟩ := exists_passes_of_kind_inkOf ink mark rfl (by decide)
      rw [passes.currentToken_zero, mark]
      simp
  | present dot all =>
      have operator := of_decide_eq_true ((Bool.and_eq_true _ _).mp all).1
      obtain ⟨behind, first, left⟩ := exists_passes_of_kind_inkOf ink dot rfl (by decide)
      obtain ⟨mid, second, -⟩ := exists_passes_of_kind_inkOf left operator rfl (by decide)
      rw [first.currentToken_one second, operator]
      simp

theorem reads_of_wildcardTokens {next : Reading α} {isWildcard : Bool}
    {front : List Token} {semicolon : Token} (wild : WildcardTokens isWildcard front)
    (mark : semicolon.kind = .semicolon) (ink : inkOf tokens = front ++ semicolon :: more) :
    ((currentToken (significantFrom 0 tokens)).kind = .dot
        && (currentToken (significantFrom 1 tokens)).isOperator ['*']) = isWildcard ∧
      ∃ mid, inkOf mid = semicolon :: more ∧ ∀ {value rest}, next.Reads mid value rest [] →
        (if isWildcard = true then bump >>= fun _ => bump >>= fun _ => next
          else next).Reads tokens value rest [] := by
  cases wild with
  | absent =>
      obtain ⟨_, passes, -⟩ := exists_passes_of_kind_inkOf ink mark rfl (by decide)
      rw [passes.currentToken_zero, mark]
      exact ⟨rfl, tokens, ink, id⟩
  | present dot all =>
      have operator := of_decide_eq_true ((Bool.and_eq_true _ _).mp all).1
      obtain ⟨behind, first, left⟩ := exists_passes_of_kind_inkOf ink dot rfl (by decide)
      obtain ⟨mid, second, left⟩ := exists_passes_of_kind_inkOf left operator rfl (by decide)
      rw [first.currentToken_one second, first.currentToken_zero, dot, all]
      exact ⟨rfl, mid, left, fun later => (reads_bump_bind first).2
        ⟨[], (reads_bump_bind second).2 ⟨[], later, rfl⟩, rfl⟩⟩

/-- The tokens of an import statement are read as one. -/
theorem reads_importStatement_of_tokens {word semicolon : Token} {name : Text}
    {isStatic isWildcard : Bool} {staticTokens front wildcardTokens : List Token} {node : Import}
    (keyword : word.kind = .keyword .import) (stat : StaticTokens isStatic staticTokens)
    (named : NameTokens name front) (wild : WildcardTokens isWildcard wildcardTokens)
    (mark : semicolon.kind = .semicolon)
    (ink : inkOf tokens =
      word :: (staticTokens ++ (front ++ (wildcardTokens ++ semicolon :: more))))
    (built : (((ImportDraft.withName {} name).withStatic isStatic).withWildcard isWildcard).build
      = .ok node) :
    ∃ rest, importStatement.Reads tokens node rest [] ∧ inkOf rest = more := by
  rw [← inkOf_dropWhile] at ink
  obtain ⟨start, first, ink⟩ := reads_expect_of_inkOf ink keyword rfl (by decide)
  rw [importStatement]
  simp only [reads_scopeHere_bind, reads_finish, true_and]
  obtain ⟨isStatic', behind, left, goesOn⟩ := reads_of_staticTokens stat ink named.starts
  obtain ⟨mid, second, ink⟩ := reads_of_nameTokens named left fun rest left =>
    stopsName_of_wildcardTokens wild mark left
  obtain ⟨isWildcard', last, left, goesOn'⟩ := reads_of_wildcardTokens wild mark ink
  obtain ⟨rest, third, left⟩ := reads_expect_of_inkOf left mark rfl (by decide)
  refine ⟨rest, ⟨{ built := (((ImportDraft.withName {} name).withStatic isStatic).withWildcard
    isWildcard).build }, reads_bind_nil.2 ⟨_, _, first, ?_⟩, rfl, built⟩, left⟩
  rw [reads_peek_bind, isStatic']
  refine goesOn (reads_bind_nil.2 ⟨_, _, second, ?_⟩)
  rw [reads_peek_bind, reads_peek_bind, isWildcard']
  exact goesOn' (reads_bind_nil.2 ⟨_, _, third, reads_pure.2 ⟨rfl, rfl, rfl⟩⟩)

end Reading

/-! ### Texts -/

section

variable {source : Text}

/-- In front of the end of the input there is nothing but white space, if that is all in front of
the first token that ends the input. -/
theorem inkOf_eq_nil_of_ends {others later : List Token}
    (inside : ∀ token ∈ others, token.isEnd = false)
    (ends : (currentToken ((others ++ later).dropWhile Token.isWhitespace)).isEnd = true) :
    inkOf others = [] := by
  induction others with
  | nil => rfl
  | cons first others ih =>
      cases blank : first.isWhitespace with
      | true =>
          rw [List.cons_append, List.dropWhile_cons_of_pos blank] at ends
          rw [inkOf, List.filter_cons_of_neg (by simp [blank])]
          exact ih (fun token mem => inside token (List.mem_cons_of_mem _ mem)) ends
      | false =>
          rw [List.cons_append, List.dropWhile_cons_of_neg (by simp [blank])] at ends
          exact absurd ends (by simp [currentToken, inside first List.mem_cons_self])

/-- A text has nothing behind the end of the input. -/
theorem Lexed.inkOf_of_ends (lexed : Lexed source tokens) (moved : Advances tokens rest)
    (ends : (currentToken (rest.dropWhile Token.isWhitespace)).isEnd = true) :
    ∃ last, inkOf rest = [last] ∧ last.kind = .eof := by
  obtain ⟨lexemes, rfl, inside⟩ := lexed.exists_lexemes
  obtain ⟨passed, whole, kept⟩ := moved
  rcases List.eq_nil_or_concat' rest with rfl | ⟨others, last, rfl⟩
  · rw [List.append_nil] at whole
    exact absurd (kept Token.endOfInput (whole ▸ List.mem_append_right _ (List.mem_singleton_self _)))
      (by decide)
  · rw [← List.append_assoc] at whole
    obtain ⟨rfl, same⟩ := List.append_inj' whole rfl
    obtain rfl := List.singleton_inj.1 same
    refine ⟨Token.endOfInput, ?_, rfl⟩
    rw [inkOf_append, inkOf_eq_nil_of_ends (fun token mem => ?_) ends]
    · rfl
    · simpa [Token.isEnd] using (inside token (List.mem_append_right _ mem)).1

/-- The tokens of a name in a text are a qualified name. -/
theorem Lexed.isQualifiedName_of_nameTokens {front : List Token} {name : Text}
    (lexed : Lexed source tokens) (named : NameTokens name front)
    (within : ∀ token ∈ front, token ∈ inkOf tokens) : isQualifiedName name = true :=
  named.isQualifiedName fun token mem =>
    isIdentifier_of_lexed lexed (List.mem_filter.1 (within token mem)).1

/-- White space is passed over in front of the end of the input. -/
theorem ends_of_inkOf {last : Token} (ink : inkOf tokens = [last]) (ends : last.kind = .eof) :
    (currentToken (tokens.dropWhile Token.isWhitespace)).isEnd = true := by
  induction tokens with
  | nil => rfl
  | cons first others ih =>
      cases blank : first.isWhitespace with
      | true =>
          rw [inkOf, List.filter_cons_of_neg (by simp [blank])] at ink
          rw [List.dropWhile_cons_of_pos blank]
          exact ih ink
      | false =>
          rw [inkOf, List.filter_cons_of_pos (by simp [blank]), List.cons.injEq] at ink
          rw [List.dropWhile_cons_of_neg (by simp [blank]), ink.1]
          exact decide_eq_true ends

theorem PackageDraft.build_withName {name : Text} (known : isQualifiedName name = true) :
    (withName {} name).build = .ok { name } :=
  @Package.build_of_canonical { name } ⟨known, rfl⟩

theorem ImportDraft.build_withName {name : Text} (known : isQualifiedName name = true)
    (isStatic isWildcard : Bool) :
    (((withName {} name).withStatic isStatic).withWildcard isWildcard).build =
      .ok { name, isStatic, isWildcard } :=
  @Import.build_of_canonical { name, isStatic, isWildcard } ⟨known, rfl⟩

/-- Where reading a construct up to the end is told by the tokens that are no white space, so is
reading a text as one. -/
theorem Entry.parseText_iff_of_ink {entry : Entry α} {name : Text} {node : α}
    {grammar : List Token → Prop}
    (told : ∀ tokens, Lexed source tokens →
      ((∃ rest skipped, entry.reading.Reads tokens node rest skipped ∧
        (currentToken (rest.dropWhile Token.isWhitespace)).isEnd = true) ↔ grammar (inkOf tokens))) :
    entry.parseText name source = .ok node ↔
      ∃ tokens, lex source = .ok tokens ∧ grammar (inkOf tokens) := by
  rw [Entry.parseText_eq_ok_iff]
  refine exists_congr fun tokens => and_congr_right fun lexed => ?_
  rw [Entry.readAll_eq_ok_iff]
  exact told tokens (lex_eq_ok_iff.1 lexed)

/-- A text is read as a package declaration exactly if its tokens are those of one. -/
theorem parseText_packageStatement_iff {name : Text} {node : Package} :
    Entry.packageStatement.parseText name source = .ok node ↔
      ∃ tokens, lex source = .ok tokens ∧ PackageTokens node (inkOf tokens) := by
  refine Entry.parseText_iff_of_ink fun tokens lexed => ?_
  constructor
  · rintro ⟨rest, skipped, reads, ends⟩
    obtain ⟨last, closing, eof⟩ := lexed.inkOf_of_ends reads.advances ends
    obtain ⟨word, name, front, semicolon, keyword, named, mark, ink, built⟩ :=
      Reading.tokens_of_packageStatement reads
    have known := lexed.isQualifiedName_of_nameTokens named fun token mem => by simp [ink, mem]
    rw [PackageDraft.build_withName known] at built
    obtain rfl := Except.ok.inj built
    rw [ink, closing]
    exact .intro keyword named (.intro mark eof)
  · intro grammar
    generalize ink : inkOf tokens = inked at grammar
    cases grammar with
    | @intro word name front closing keyword named closes =>
        cases closes with
        | @intro semicolon last mark eof =>
            have known := lexed.isQualifiedName_of_nameTokens named fun token mem => by
              simp [ink, mem]
            obtain ⟨rest, reads, left⟩ := Reading.reads_packageStatement_of_tokens keyword named
              mark ink (PackageDraft.build_withName known)
            exact ⟨rest, [], reads, ends_of_inkOf left eof⟩

/-- A text is read as an import statement exactly if its tokens are those of one. -/
theorem parseText_importStatement_iff {name : Text} {node : Import} :
    Entry.importStatement.parseText name source = .ok node ↔
      ∃ tokens, lex source = .ok tokens ∧ ImportTokens node (inkOf tokens) := by
  refine Entry.parseText_iff_of_ink fun tokens lexed => ?_
  constructor
  · rintro ⟨rest, skipped, reads, ends⟩
    obtain ⟨last, closing, eof⟩ := lexed.inkOf_of_ends reads.advances ends
    obtain ⟨word, name, isStatic, isWildcard, staticTokens, front, wildcardTokens, semicolon,
      keyword, stat, named, wild, mark, ink, built⟩ := Reading.tokens_of_importStatement reads
    have known := lexed.isQualifiedName_of_nameTokens named fun token mem => by simp [ink, mem]
    rw [ImportDraft.build_withName known] at built
    obtain rfl := Except.ok.inj built
    rw [ink, closing]
    exact .intro keyword stat named wild (.intro mark eof)
  · intro grammar
    generalize ink : inkOf tokens = inked at grammar
    cases grammar with
    | @intro word name isStatic isWildcard staticTokens front wildcardTokens closing keyword stat
        named wild closes =>
        cases closes with
        | @intro semicolon last mark eof =>
            have known := lexed.isQualifiedName_of_nameTokens named fun token mem => by
              simp [ink, mem]
            obtain ⟨rest, reads, left⟩ := Reading.reads_importStatement_of_tokens keyword stat
              named wild mark ink (ImportDraft.build_withName known isStatic isWildcard)
            exact ⟨rest, [], reads, ends_of_inkOf left eof⟩

/-! ### Drafts -/

/-- A package declaration that is built is read back from its rendering. -/
theorem parseText_render_package {draft : PackageDraft} {node : Package} (name : Text)
    (built : draft.build = .ok node) :
    Entry.packageStatement.parseText name node.render = .ok node := by
  have takes := @Reading.takes_packageStatement [] _ (Package.canonical_of_build built)
  rw [List.append_nil] at takes
  exact @Entry.parseText_of_takes _ Entry.packageStatement .packageStatement _ [] _ _ rfl rfl rfl
    takes name

/-- An import statement that is built is read back from its rendering. -/
theorem parseText_render_import {draft : ImportDraft} {node : Import} (name : Text)
    (built : draft.build = .ok node) :
    Entry.importStatement.parseText name node.render = .ok node := by
  have takes := @Reading.takes_importStatement [] _ (Import.canonical_of_build built)
  rw [List.append_nil] at takes
  exact @Entry.parseText_of_takes _ Entry.importStatement .importStatement _ [] _ _ rfl rfl rfl
    takes name

end

/-! ### Comments -/

/-- The kind of a token tells whether it is a comment. -/
theorem Token.isComment_eq_false_of_kind {kind : Kind} (same : token.kind = kind)
    (other : (Token.mk kind []).isComment = false) : token.isComment = false := by
  subst same
  exact other

theorem NameTokens.isComment_eq_false {name : Text} {front : List Token} (h : NameTokens name front)
    (mem : token ∈ front) : token.isComment = false := by
  induction h with
  | single word =>
      rw [List.mem_singleton.1 mem]
      exact Token.isComment_eq_false_of_kind word rfl
  | dotted _ mark word ih =>
      rw [List.mem_append, List.mem_pair] at mem
      rcases mem with mem | rfl | rfl
      · exact ih mem
      · exact Token.isComment_eq_false_of_kind mark rfl
      · exact Token.isComment_eq_false_of_kind word rfl

theorem ClosingTokens.isComment_eq_false (h : ClosingTokens tokens) (mem : token ∈ tokens) :
    token.isComment = false := by
  cases h with
  | intro mark ends =>
      rcases List.mem_pair.1 mem with rfl | rfl
      · exact Token.isComment_eq_false_of_kind mark rfl
      · exact Token.isComment_eq_false_of_kind ends rfl

theorem PackageTokens.isComment_eq_false {node : Package} (h : PackageTokens node tokens)
    (mem : token ∈ tokens) : token.isComment = false := by
  cases h with
  | intro keyword named closes =>
      rw [List.mem_cons, List.mem_append] at mem
      rcases mem with rfl | mem | mem
      · exact Token.isComment_eq_false_of_kind keyword rfl
      · exact named.isComment_eq_false mem
      · exact closes.isComment_eq_false mem

theorem ImportTokens.isComment_eq_false {node : Import} (h : ImportTokens node tokens)
    (mem : token ∈ tokens) : token.isComment = false := by
  cases h with
  | intro keyword stat named wild closes =>
      rw [List.mem_cons, List.mem_append, List.mem_append, List.mem_append] at mem
      rcases mem with rfl | mem | mem | mem | mem
      · exact Token.isComment_eq_false_of_kind keyword rfl
      · cases stat with
        | absent => cases mem
        | present kind =>
            rw [List.mem_singleton.1 mem]
            exact Token.isComment_eq_false_of_kind kind rfl
      · exact named.isComment_eq_false mem
      · cases wild with
        | absent => cases mem
        | present dot all =>
            have operator := of_decide_eq_true ((Bool.and_eq_true _ _).mp all).1
            rcases List.mem_pair.1 mem with rfl | rfl
            · exact Token.isComment_eq_false_of_kind dot rfl
            · exact Token.isComment_eq_false_of_kind operator rfl
      · exact closes.isComment_eq_false mem

/-- Comments count among the tokens that are not white space. -/
theorem commentFree_of_inkOf {source : Text} (lexed : lex source = .ok tokens)
    (clear : ∀ token ∈ inkOf tokens, token.isComment = false) : CommentFree source := by
  intro others same token mem
  obtain rfl := Except.ok.inj (lexed.symm.trans same)
  cases blank : token.isWhitespace with
  | false => exact clear token (List.mem_filter.2 ⟨mem, by simp [blank]⟩)
  | true =>
      rw [Token.isComment, Token.isPlainComment_eq_false_of_isWhitespace blank]
      simp_all [Token.isWhitespace]

/-! ### Acceptance and rendering -/

/-- Package declarations and import statements are read by their grammar, and what is built of them
is read back.

A text reads as an import statement, and as which one, exactly if it can be cut into tokens and
those that are not white space are the word `import`, possibly the word `static`, identifiers with
dots between them, possibly a dot and a star, a semicolon and the end of the input. The same holds
of package declarations. A text that holds a comment of any sort is neither. Whatever was done to a
draft, if it can be built, then the rendering reads back as the node that was built: the same name,
and for an import statement the same marks for `static` and for the wildcard. -/
theorem statements_read_by_grammar (name : Text) :
    (∀ source node, Entry.importStatement.parseText name source = .ok node ↔
      ∃ tokens, lex source = .ok tokens ∧ ImportTokens node (inkOf tokens)) ∧
    (∀ source node, Entry.packageStatement.parseText name source = .ok node ↔
      ∃ tokens, lex source = .ok tokens ∧ PackageTokens node (inkOf tokens)) ∧
    (∀ source, (∃ node, Entry.importStatement.parseText name source = .ok node) ∨
      (∃ node, Entry.packageStatement.parseText name source = .ok node) → CommentFree source) ∧
    (∀ (draft : ImportDraft) node, draft.build = .ok node →
      Entry.importStatement.parseText name node.render = .ok node) ∧
    ∀ (draft : PackageDraft) node, draft.build = .ok node →
      Entry.packageStatement.parseText name node.render = .ok node := by
  refine ⟨fun _ _ => parseText_importStatement_iff, fun _ _ => parseText_packageStatement_iff, ?_,
    fun _ _ => parseText_render_import name, fun _ _ => parseText_render_package name⟩
  rintro source (⟨node, parsed⟩ | ⟨node, parsed⟩)
  · obtain ⟨tokens, lexed, grammar⟩ := parseText_importStatement_iff.1 parsed
    exact commentFree_of_inkOf lexed fun _ => grammar.isComment_eq_false
  · obtain ⟨tokens, lexed, grammar⟩ := parseText_packageStatement_iff.1 parsed
    exact commentFree_of_inkOf lexed fun _ => grammar.isComment_eq_false

/-- A draft of a static wildcard import. -/
def everyPoint : ImportDraft :=
  ((ImportDraft.withName {} " geometry.Point.* ".toList).withWildcard true).withStatic true

theorem statements_read_by_grammar_everyPoint :
    ∃ node, everyPoint.build = .ok node ∧
      Entry.importStatement.parseText "Point.java".toList node.render = .ok node ∧
      CommentFree node.render := by
  have built : (everyPoint.build.toOption.map Import.name) = some "geometry.Point".toList := by
    decide +kernel
  obtain ⟨node, found, -⟩ := Option.map_eq_some_iff.1 built
  have settled := eq_ok_of_toOption found
  have own := statements_read_by_grammar "Point.java".toList
  have again := own.2.2.2.1 everyPoint node settled
  exact ⟨node, settled, again, own.2.2.1 _ (.inl ⟨node, again⟩)⟩

end JavaUnit
