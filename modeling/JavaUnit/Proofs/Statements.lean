/-
Module: JavaUnit.Proofs.Statements
Purpose: Words and names at the front of a text, and that package declarations and import statements
  are read as what they were rendered from.
Main exports: cut_identifier, cut_keyword, takes_qualifiedName, takes_packageStatement,
  takes_importStatement
-/
import JavaUnit.Proofs.JavadocText
import JavaUnit.Proofs.Takes
import JavaUnit.Reading.Statement

namespace JavaUnit

/-! ### Words -/

variable {text mid rest : Text}

/-- Characters that end a word. -/
def boundaryChars : List Char := " \n;,().=[]\x7b\x7d<>@*".toList

theorem isWordPart_of_boundary {c : Char} (h : c ∈ boundaryChars) : isWordPart c = false := by
  have each : boundaryChars.all (!isWordPart ·) = true := by decide +kernel
  simpa using List.all_eq_true.1 each c h

theorem stops_cons {c : Char} (h : c ∈ boundaryChars) (rest : Text) :
    (c :: rest).head?.all (!isWordPart ·) = true := by
  rw [List.head?_cons, Option.all_some, isWordPart_of_boundary h]
  rfl

/-- A word is cut off where a character follows that is no part of it. -/
theorem cut_word {word : Text} (start : word.head?.any isWordStart = true)
    (parts : ∀ c ∈ word, isWordPart c = true) (ends : rest.head?.all (!isWordPart ·) = true) :
    Cut (word ++ rest) ⟨wordKind word, word⟩ rest := by
  cases word with
  | nil => cases start
  | cons first body =>
      exact .intro (.word start (fun c mem => parts c (List.mem_cons_of_mem _ mem)) ends)

theorem cut_identifier {name : Text} (known : isIdentifier name = true)
    (ends : rest.head?.all (!isWordPart ·) = true) :
    Cut (name ++ rest) ⟨.identifier, name⟩ rest := by
  have kind : wordKind name = .identifier := by
    cases name with
    | nil => cases known
    | cons first body =>
        rw [isIdentifier, Bool.and_eq_true] at known
        rw [wordKind, Option.isNone_iff_eq_none.1 known.2]
  have start : name.head?.any isWordStart = true := by
    cases name with
    | nil => cases known
    | cons first body =>
        rw [isIdentifier, Bool.and_eq_true, Bool.and_eq_true] at known
        exact known.1.1
  have cut := cut_word start (isWordPart_of_isIdentifier known).2 ends
  rwa [kind] at cut

/-- Every keyword is a word that spells it. -/
theorem Keyword.text_spec (word : Keyword) :
    word.text.head?.any isWordStart = true ∧ (∀ c ∈ word.text, isWordPart c = true) ∧
      Keyword.lookup word.text = some word := by
  have each : Keyword.all.all (fun word => word.text.head?.any isWordStart
      && word.text.all isWordPart && Keyword.lookup word.text = some word) = true := by
    decide +kernel
  have own := List.all_eq_true.1 each word (Keyword.mem_all word)
  rw [Bool.and_eq_true, Bool.and_eq_true, decide_eq_true_eq, List.all_eq_true] at own
  exact ⟨own.1.1, own.1.2, own.2⟩

/-- A keyword is cut off as such, if no part of a word goes on behind it. -/
theorem cut_keyword (word : Keyword) (ends : rest.head?.all (!isWordPart ·) = true) :
    Cut (word.text ++ rest) ⟨.keyword word, word.text⟩ rest := by
  obtain ⟨start, parts, spells⟩ := word.text_spec
  have cut := cut_word start parts ends
  rwa [wordKind, spells] at cut

theorem cut_mark (c : Char) (kind : Kind) (known : (c, kind) ∈ punctuation) :
    Cut (c :: rest) ⟨kind, [c]⟩ rest :=
  .intro (.mark known)

/-- A dot is a token of its own unless another dot or a digit follows. -/
theorem cut_dot {c : Char} (other : c ≠ '.') (digit : c.isDigit = false) :
    Cut ('.' :: c :: rest) ⟨.dot, ['.']⟩ (c :: rest) := by
  refine @Cut.intro '.' [] _ _ (.dot ?_ ?_)
  · simp [other]
  · simpa using digit

theorem cut_star (rest : Text) : Cut ('*' :: rest) ⟨.operator, ['*']⟩ rest :=
  @Cut.intro '*' [] _ _ (.operator (by decide))

theorem exists_start {name : Text} (known : isIdentifier name = true) :
    ∃ c more, name = c :: more ∧ isWordStart c = true := by
  cases name with
  | nil => cases known
  | cons c more =>
      rw [isIdentifier, Bool.and_eq_true, Bool.and_eq_true] at known
      exact ⟨c, more, rfl, known.1.1⟩

theorem cut_dot_word {name : Text} (known : isIdentifier name = true) :
    Cut ('.' :: (name ++ rest)) ⟨.dot, ['.']⟩ (name ++ rest) := by
  obtain ⟨c, more, rfl, start⟩ := exists_start known
  refine cut_dot ?_ ?_
  · rintro rfl
    revert start
    decide
  · by_contra digit
    rw [Bool.not_eq_false] at digit
    rw [(sorts_of_isDigit digit).2.1] at start
    cases start

/-! ### Names -/

/-- A name that is there and meets a rule. -/
theorem exists_name {role : NameRole} {rule : Text → Bool} {name : Option Text}
    (present : requirePart .name name = []) (known : requireName role rule name = []) :
    ∃ given, name = some given ∧ rule given = true := by
  rw [requirePart, requirement_eq_nil] at present
  rw [requireName, if_pos present, requirement_eq_nil] at known
  cases name with
  | none => cases present
  | some given => exact ⟨given, rfl, known⟩

/-- The text of a row of names. -/
def dotted (first : Text) (others : List Text) : Text :=
  first ++ others.flatMap ('.' :: ·)

theorem join_dot (first : Text) (others : List Text) :
    Text.join ['.'] (first :: others) = dotted first others := by
  induction others generalizing first with
  | nil => simp [dotted]
  | cons second others ih =>
      have later := ih second
      rw [Text.join, List.intercalate_cons_cons, dotted]
      rw [Text.join, dotted] at later
      rw [later]
      simp

/-- A qualified name is made of identifiers with dots between them. -/
theorem exists_dotted {name : Text} (known : isQualifiedName name = true) :
    ∃ first others, name = dotted first others ∧ isIdentifier first = true ∧
      ∀ part ∈ others, isIdentifier part = true := by
  obtain ⟨first, others, parts⟩ := List.exists_cons_of_ne_nil (Text.split_ne_nil '.' name)
  rw [isQualifiedName, parts, List.all_eq_true] at known
  refine ⟨first, others, ?_, known first List.mem_cons_self,
    fun part mem => known part (List.mem_cons_of_mem _ mem)⟩
  rw [← join_dot, ← parts, Text.join_split]

/-- The characters of a qualified name. -/
theorem isWordPart_of_isQualifiedName {name : Text} (known : isQualifiedName name = true) {c : Char}
    (mem : c ∈ name) : isWordPart c = true ∨ c = '.' := by
  obtain ⟨first, others, rfl, word, words⟩ := exists_dotted known
  rw [dotted, List.mem_append, List.mem_flatMap] at mem
  rcases mem with mem | ⟨part, listed, mem⟩
  · exact .inl ((isWordPart_of_isIdentifier word).2 c mem)
  · rcases List.mem_cons.1 mem with rfl | mem
    · exact .inr rfl
    · exact .inl ((isWordPart_of_isIdentifier (words part listed)).2 c mem)

theorem isBlank_of_isQualifiedName {name : Text} (known : isQualifiedName name = true) {c : Char}
    (mem : c ∈ name) : isBlank c = false := by
  rcases isWordPart_of_isQualifiedName known mem with part | rfl
  · exact isBlank_eq_false_of_isWordPart part
  · rfl

theorem trim_of_isIdentifier {name : Text} (known : isIdentifier name = true) :
    name.trim = name := by
  have inked := inked_of_ink fun c mem =>
    isBlank_eq_false_of_isWordPart ((isWordPart_of_isIdentifier known).2 c mem)
  exact Text.trim_of_inked inked.1 inked.2

theorem trim_of_isQualifiedName {name : Text} (known : isQualifiedName name = true) :
    name.trim = name := by
  have inked := inked_of_ink fun c mem => isBlank_of_isQualifiedName known mem
  exact Text.trim_of_inked inked.1 inked.2

/-- What stands behind a qualified name does not go on with it. -/
structure EndsName (rest : Text) : Prop where
  word : rest.head?.all (!isWordPart ·) = true
  dot : ∃ token, Peeks 0 rest token ∧ (token.kind = .dot →
    ∃ next, Peeks 1 rest next ∧ next.kind ≠ .identifier)

theorem EndsName.of_ahead {token : Token} (word : rest.head?.all (!isWordPart ·) = true)
    (ahead : Ahead rest token mid) (kind : token.kind ≠ .dot) : EndsName rest :=
  ⟨word, token, ahead.peeks, fun dot => absurd dot kind⟩

/-- Behind each part of a name stands a dot or what stands behind the whole name. -/
theorem stops_dotted (others : List Text) (behind : rest.head?.all (!isWordPart ·) = true) :
    (others.flatMap ('.' :: ·) ++ rest).head?.all (!isWordPart ·) = true := by
  cases others with
  | nil => exact behind
  | cons => exact stops_cons (by decide) _

/-- The first part of a name is ahead where the name begins. -/
theorem ahead_qualifiedName {name : Text} (known : isQualifiedName name = true)
    (ends : EndsName rest) :
    ∃ part behind, Ahead (name ++ rest) ⟨.identifier, part⟩ behind := by
  obtain ⟨first, others, rfl, word, -⟩ := exists_dotted known
  rw [dotted, List.append_assoc]
  exact ⟨_, _, .of_cut (cut_identifier word (stops_dotted others ends.word)) rfl⟩

namespace Reading

/-- A qualified name is taken as it stands, with blanks in front of it, if what is behind it does
not go on with it. -/
theorem takes_qualifiedName {scope : Scope} {what : Expectation} (blanks : Text) {name : Text}
    (blank : blanks.isBlank = true) (known : isQualifiedName name = true) (ends : EndsName rest) :
    (qualifiedName scope what).Takes (blanks ++ (name ++ rest)) name rest := by
  obtain ⟨first, others, rfl, word, words⟩ := exists_dotted known
  obtain ⟨behind, dot⟩ := ends
  have stops := fun others => stops_dotted others behind
  rw [qualifiedName, dotted, List.append_assoc]
  refine (takes_identifier (.intro blank (cut_identifier word (stops others)) rfl)).bind ?_
  clear known word
  induction others generalizing first with
  | nil =>
      obtain ⟨token, peeks, last⟩ := dot
      rw [List.flatMap_nil, List.nil_append, List.append_nil]
      refine Takes.last (.peek peeks ?_)
      by_cases same : token.kind = .dot
      · obtain ⟨next, peeks', other⟩ := last same
        refine .peek peeks' ?_
        rw [if_neg fun both => other both.2]
        exact takes_pure
      · refine .peekAny fun next => ?_
        rw [if_neg fun both => same both.1]
        exact takes_pure
  | cons part others ih =>
      have word := words part List.mem_cons_self
      have later := ih (first ++ '.' :: part) fun part mem => words part (List.mem_cons_of_mem _ mem)
      have name : Ahead (part ++ (others.flatMap ('.' :: ·) ++ rest)) ⟨.identifier, part⟩ _ :=
        .of_cut (cut_identifier word (stops others)) rfl
      have mark : Ahead ('.' :: (part ++ (others.flatMap ('.' :: ·) ++ rest))) ⟨.dot, ['.']⟩ _ :=
        .of_cut (cut_dot_word word) rfl
      rw [List.flatMap_cons, List.append_assoc, ← List.append_assoc first]
      refine Takes.again ?_ ?_ later
      · refine .peek mark.peeks (.peek (mark.peeks_succ name.peeks) ?_)
        rw [if_pos ⟨rfl, rfl⟩]
        exact (takes_bump mark).bind ((takes_bump name).bind takes_pure)
      · intro same
        have lengths := congrArg List.length same
        simp only [List.length_cons, List.length_append] at lengths
        omega

end Reading

/-! ### Statements -/

/-- A package declaration with a name. -/
structure Package.Canonical (node : Package) : Prop where
  name : isQualifiedName node.name = true
  editable : node.editable = true

/-- An import statement with a name. -/
structure Import.Canonical (node : Import) : Prop where
  name : isQualifiedName node.name = true
  editable : node.editable = true

theorem ahead_semicolon (rest : Text) : Ahead (';' :: rest) ⟨.semicolon, [';']⟩ rest :=
  .of_cut (cut_mark ';' .semicolon (by decide)) rfl

theorem endsName_semicolon (rest : Text) : EndsName (';' :: rest) :=
  .of_ahead (stops_cons (by decide) rest) (ahead_semicolon rest) nofun

theorem given_of_ink {name : Text} (present : name ≠ []) (ink : ∀ c ∈ name, isBlank c = false) :
    given (some name) = true := by
  obtain ⟨c, more, rfl⟩ := List.exists_cons_of_ne_nil present
  rw [given, Option.any_some, Text.isBlank, List.all_cons, ink c List.mem_cons_self]
  rfl

theorem ne_nil_of_isQualifiedName {name : Text} (known : isQualifiedName name = true) :
    name ≠ [] := by
  rintro rfl
  cases known

/-- A name that is there and meets its rule has no defects. -/
theorem clean_qualifiedName {role : NameRole} {name : Text} (known : isQualifiedName name = true) :
    requirePart .name (some name) = [] ∧
      requireName role isQualifiedName (some name) = [] := by
  have present := given_of_ink (ne_nil_of_isQualifiedName known)
    fun c mem => isBlank_of_isQualifiedName known mem
  rw [requirePart, requireName, if_pos present, requirement_eq_nil, requirement_eq_nil]
  exact ⟨present, known⟩

/-- A draft with the name of a statement is built as that statement. -/
theorem Package.build_of_canonical {node : Package} (canonical : node.Canonical) :
    (PackageDraft.withName {} node.name).build = .ok node := by
  obtain ⟨name, editable⟩ := node
  obtain ⟨known, rfl⟩ := canonical
  obtain ⟨present, rule⟩ := @clean_qualifiedName .packageStatement _ known
  rw [PackageDraft.withName, trim_of_isQualifiedName known, PackageDraft.build,
    settle_eq_ok_iff, PackageDraft.defects, present, rule]
  exact ⟨rfl, rfl⟩

theorem Import.build_of_canonical {node : Import} (canonical : node.Canonical) :
    (((ImportDraft.withName {} node.name).withStatic node.isStatic).withWildcard
      node.isWildcard).build = .ok node := by
  obtain ⟨name, isStatic, isWildcard, editable⟩ := node
  obtain ⟨known, rfl⟩ := canonical
  obtain ⟨present, rule⟩ := @clean_qualifiedName .importStatement _ known
  have noStar : Text.beforeTail? ".*".toList name = none := by
    cases found : Text.beforeTail? ".*".toList name with
    | none => rfl
    | some front =>
        have star : '*' ∈ name := by
          rw [Text.beforeTail?_eq_some found]
          simp
        rcases isWordPart_of_isQualifiedName known star with part | dot
        · rw [isWordPart_of_boundary (by decide)] at part
          cases part
        · cases dot
  rw [ImportDraft.withName, trim_of_isQualifiedName known, noStar, ImportDraft.build,
    settle_eq_ok_iff]
  refine ⟨?_, rfl⟩
  show requirePart .name (some name) ++ requireName _ _ (some name) = []
  rw [present, rule]
  rfl

/-- A package declaration that is built has a name. -/
theorem Package.canonical_of_build {draft : PackageDraft} {node : Package}
    (h : draft.build = .ok node) : node.Canonical := by
  obtain ⟨clean, rfl⟩ := settle_eq_ok_iff.1 h
  obtain ⟨present, known⟩ := List.append_eq_nil_iff.1 clean
  obtain ⟨name, same, rule⟩ := exists_name present known
  refine ⟨?_, rfl⟩
  rw [PackageDraft.node, same]
  exact rule

/-- An import statement that is built has a name. -/
theorem Import.canonical_of_build {draft : ImportDraft} {node : Import}
    (h : draft.build = .ok node) : node.Canonical := by
  obtain ⟨clean, rfl⟩ := settle_eq_ok_iff.1 h
  obtain ⟨present, known⟩ := List.append_eq_nil_iff.1 clean
  obtain ⟨name, same, rule⟩ := exists_name present known
  refine ⟨?_, rfl⟩
  rw [ImportDraft.node, same]
  exact rule

namespace Reading

/-- A package statement is taken from its rendering, with any text behind it. -/
theorem takes_packageStatement {node : Package} (canonical : node.Canonical) :
    packageStatement.Takes (node.render ++ rest) node rest := by
  have whole : node.render ++ rest =
      Keyword.text .package ++ ([' '] ++ (node.name ++ ';' :: rest)) := by
    have lead : "package ".toList = Keyword.text .package ++ [' '] := rfl
    show "package ".toList ++ node.name ++ [';'] ++ rest = _
    rw [lead]
    simp only [List.append_assoc, List.cons_append, List.nil_append]
  have word := cut_keyword .package (stops_cons (show ' ' ∈ boundaryChars by decide)
    (node.name ++ ';' :: rest))
  rw [whole]
  refine Takes.scopeHere (head_of_cut word rfl) fun scope => ?_
  refine Takes.finish { built := (PackageDraft.withName {} node.name).build } ?_ rfl
    (Package.build_of_canonical canonical)
  refine (takes_expect (.of_cut word rfl)).bind ?_
  refine (takes_qualifiedName [' '] rfl canonical.name (endsName_semicolon rest)).bind ?_
  exact (takes_expect (ahead_semicolon rest)).bind takes_pure

theorem ahead_wildcard (rest : Text) :
    Ahead ('.' :: '*' :: rest) ⟨.dot, ['.']⟩ ('*' :: rest) ∧
      Ahead ('*' :: rest) ⟨.operator, ['*']⟩ rest :=
  ⟨.of_cut (cut_dot (by decide) (by decide)) rfl, .of_cut (cut_star rest) rfl⟩

theorem endsName_wildcard (rest : Text) : EndsName ('.' :: '*' :: rest) := by
  obtain ⟨dot, star⟩ := ahead_wildcard rest
  exact ⟨stops_cons (by decide) _, _, dot.peeks, fun _ => ⟨_, dot.peeks_succ star.peeks, nofun⟩⟩

/-- What stands behind the name of an import statement. -/
def importTail (isWildcard : Bool) (rest : Text) : Text :=
  (if isWildcard then ".*".toList else []) ++ ';' :: rest

/-- An import is taken from its rendering, be it static or not, and with a wildcard or without. -/
theorem takes_importStatement {node : Import} (canonical : node.Canonical) :
    importStatement.Takes (node.render ++ rest) node rest := by
  have whole : node.render ++ rest = Keyword.text .import ++ ([' '] ++
      ((if node.isStatic then Keyword.text .static ++ [' '] else []) ++
        (node.name ++ importTail node.isWildcard rest))) := by
    have lead : "import ".toList = Keyword.text .import ++ [' '] := rfl
    have lead' : "static ".toList = Keyword.text .static ++ [' '] := rfl
    show "import ".toList ++ (if node.isStatic then "static ".toList else []) ++ node.name
      ++ (if node.isWildcard then ".*".toList else []) ++ [';'] ++ rest = _
    rw [lead, lead', importTail]
    simp only [List.append_assoc, List.cons_append, List.nil_append]
  have word := cut_keyword .import (stops_cons (show ' ' ∈ boundaryChars by decide)
    ((if node.isStatic then Keyword.text .static ++ [' '] else []) ++
        (node.name ++ importTail node.isWildcard rest)))
  have ends : EndsName (importTail node.isWildcard rest) := by
    rw [importTail]
    split
    · exact endsName_wildcard _
    · exact endsName_semicolon rest
  obtain ⟨part, behind, ahead⟩ := ahead_qualifiedName canonical.name ends
  rw [whole]
  refine Takes.scopeHere (head_of_cut word rfl) fun scope => ?_
  refine Takes.finish { built := (((ImportDraft.withName {} node.name).withStatic
    node.isStatic).withWildcard node.isWildcard).build } ?_ rfl
    (Import.build_of_canonical canonical)
  refine (takes_expect (.of_cut word rfl)).bind ?_
  have name : ∀ blanks : Text, blanks.isBlank = true →
      (qualifiedName scope .importName).Takes (blanks ++ _) node.name _ :=
    fun blanks blank => takes_qualifiedName blanks blank canonical.name ends
  have last : (expect scope .semicolon .semicolon).Takes (';' :: rest) () rest :=
    takes_expect (ahead_semicolon rest)
  -- What stands behind the name is passed over, whatever is built of it.
  have tail : ∀ attempt : Bool → Attempt Import, ((peek 0 >>= fun first => peek 1 >>= fun second =>
      if (first.kind = .dot && second.isOperator ['*']) = true then
        bump >>= fun _ => bump >>= fun _ => expect scope .semicolon .semicolon >>= fun _ =>
          pure (attempt (first.kind = .dot && second.isOperator ['*']))
      else expect scope .semicolon .semicolon >>= fun _ =>
        pure (attempt (first.kind = .dot && second.isOperator ['*']))) :
        Reading (Attempt Import)).Takes (importTail node.isWildcard rest)
          (attempt node.isWildcard) rest := by
    intro attempt
    cases node.isWildcard with
    | true =>
        obtain ⟨dot, star⟩ := ahead_wildcard (';' :: rest)
        refine .peek dot.peeks (.peek (dot.peeks_succ star.peeks) ?_)
        rw [if_pos (by rfl)]
        exact (takes_bump dot).bind ((takes_bump star).bind (last.bind takes_pure))
    | false =>
        refine .peek (ahead_semicolon rest).peeks (.peekAny fun token => ?_)
        rw [if_neg (by simp)]
        exact last.bind takes_pure
  cases isStatic : node.isStatic with
  | true =>
      have stat := Ahead.of_space (.of_cut (cut_keyword .static
        (stops_cons (show ' ' ∈ boundaryChars by decide)
          (node.name ++ importTail node.isWildcard rest))) rfl)
      refine Takes.peek stat.peeks ?_
      simp only [Token.keyword?, decide_true, if_true]
      refine (takes_bump stat).bind ((name [' '] rfl).bind ?_)
      exact tail fun wild => { built := (((ImportDraft.withName {} node.name).withStatic
        true).withWildcard wild).build }
  | false =>
      refine Takes.peek (Ahead.of_space ahead).peeks ?_
      simp only [Token.keyword?, reduceCtorEq, decide_false, Bool.false_eq_true, if_false]
      refine (name [' '] rfl).bind ?_
      exact tail fun wild => { built := (((ImportDraft.withName {} node.name).withStatic
        false).withWildcard wild).build }

end Reading

end JavaUnit
