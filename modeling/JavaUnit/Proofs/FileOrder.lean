/-
Module: JavaUnit.Proofs.FileOrder
Purpose: The tokens of files without comments. Each item of such a file is read as it is read on its
  own, whatever stands in front of it and behind it, so a file is read exactly as a row of items.
Main exports: FileItem.Read, Runs, Runs.reads_iterate, exists_runs, Reading.reads_compilationUnit,
  Reading.exists_runs_of_compilationUnit
-/
import JavaUnit.Proofs.Failing
import JavaUnit.Proofs.FileStep
import JavaUnit.Proofs.Lookahead

namespace JavaUnit

/-! ### One item -/

namespace FileState

/-- No comment waits for a declaration. -/
def Plain (state : FileState) : Prop :=
  state.sectionComment = none

theorem Plain.add {state : FileState} (h : state.Plain) (item : FileItem) :
    (state.add item).Plain := by
  have report : ∀ defect, (state.report defect).Plain := fun _ => h
  cases item with
  | packageStatement node =>
      rw [FileState.add, addPackage]
      split_ifs <;> first | exact report _ | exact h
  | importStatement node =>
      rw [FileState.add, addImport]
      split_ifs <;> first | exact report _ | exact h
  | declaration node =>
      cases node with
      | classDecl outer =>
          rw [FileState.add, addDeclaration]
          split_ifs <;> first | exact report _ | exact h
      | field => exact h
      | method => exact h

theorem Plain.foldl {state : FileState} (h : state.Plain) (items : List FileItem) :
    (items.foldl FileState.add state).Plain := by
  induction items generalizing state with
  | nil => exact h
  | cons item rest ih => exact ih (h.add item)

end FileState

/-- The item is what stands in front of `rest`. -/
def FileItem.Read (tokens rest : List Token) : FileItem → Prop
  | .packageStatement node => Reading.packageStatement.Reads tokens node rest []
  | .importStatement node => Reading.importStatement.Reads tokens node rest []
  | .declaration node => (Reading.declaration { start := tokens } false).Reads tokens node rest []

namespace FileItem

variable {front rest : List Token} {item : FileItem}

/-- An item passes over its semicolon or closing brace last, and is the same whatever follows. -/
theorem Read.ends (h : item.Read (front ++ rest) rest) :
    Closed front ∧ ∀ later, item.Read (front ++ later) later := by
  have both : ∀ later, Closed front ∧ item.Read (front ++ later) later := by
    intro later
    cases item with
    | packageStatement node =>
        obtain ⟨closed, _, rfl, reads⟩ :=
          @Reading.ends_packageStatement rest later front [] node [] h
        exact ⟨closed, reads⟩
    | importStatement node =>
        obtain ⟨closed, _, rfl, reads⟩ :=
          @Reading.ends_importStatement rest later front [] node [] h
        exact ⟨closed, reads⟩
    | declaration node =>
        have alike : Preface.Alike { start := front ++ rest } { start := front ++ later } := rfl
        obtain ⟨closed, _, rfl, reads⟩ :=
          @Reading.ends_declaration rest later _ _ alike false front [] node [] h
        exact ⟨closed, reads⟩
  exact ⟨(both rest).1, fun later => (both later).2⟩

theorem Read.advances {tokens : List Token} (h : item.Read tokens rest) : Advances tokens rest := by
  cases item with
  | packageStatement node => exact Reading.Reads.advances h
  | importStatement node => exact Reading.Reads.advances h
  | declaration node => exact Reading.Reads.advances h

end FileItem

namespace Reading

variable {tokens rest skipped : List Token} {state : FileState}

theorem isTrivia_of_clear {token : Token} (ink : token.isWhitespace = false)
    (clear : token.isComment = false) : token.isTrivia = false := by
  rw [Token.isComment, Bool.or_eq_false_iff] at clear
  rw [Token.isTrivia, ink, clear.1, Bool.or_false]

/-- In front of a token that starts neither a comment, an annotation nor a modifier, nothing belongs
to a preface. -/
theorem reads_modifierRun_of_stop {preface last : Preface}
    (ink : (currentToken tokens).isTrivia = false) (sign : (currentToken tokens).kind ≠ .atSign)
    (other : (currentToken tokens).keyword?.bind Keyword.modifier? = none)
    (h : (modifierRun preface).Reads tokens last rest skipped) : rest = tokens := by
  rw [Token.isTrivia, Bool.or_eq_false_iff] at ink
  have stops : ∀ {turn : Turn Preface} {rest skipped},
      (prefaceItem preface).Reads tokens turn rest skipped →
        turn = .last preface ∧ rest = tokens := by
    intro turn rest skipped h
    rw [prefaceItem, reads_skipWhitespace_bind, dropWhile_of_current ink.1, reads_current_bind,
      if_neg (by simp [ink.2]), if_neg sign, reads_atStaticBlock_bind, reads_ite, other] at h
    rcases h with ⟨-, h⟩ | ⟨-, h⟩
    · exact ⟨(reads_pure.1 h).1, (reads_pure.1 h).2.1⟩
    · exact ⟨(reads_pure.1 h).1, (reads_pure.1 h).2.1⟩
  rcases reads_iterate_cases h with ends | ⟨again, -⟩ | ⟨_, _, _, _, again, -⟩
  · exact (stops ends).2
  · cases (stops again).1
  · cases (stops again).1

/-- No declaration begins with a token that another item of a file begins with. -/
theorem start_of_declaration {preface : Preface} {inner : Bool} {declared : Declaration}
    (h : (declaration preface inner).Reads tokens declared rest skipped) :
    startsOther (currentToken tokens) = false := by
  by_contra starts
  rw [Bool.not_eq_false] at starts
  have kinds := starts
  simp only [startsOther, List.mem_cons, List.not_mem_nil, or_false, decide_eq_true_eq] at kinds
  have ink : (currentToken tokens).isTrivia = false := by
    rcases kinds with kind | kind | kind | kind <;>
      simp [Token.isTrivia, Token.isWhitespace, Token.isPlainComment, kind]
  obtain ⟨run, mid, _, _, modified, behind, -⟩ := reads_bind.1 h
  obtain rfl : mid = tokens := by
    refine reads_modifierRun_of_stop ink ?_ ?_ modified
    · rcases kinds with kind | kind | kind | kind <;> simp [kind]
    · rcases kinds with kind | kind | kind | kind <;> simp [Token.keyword?, kind, Keyword.modifier?]
  have target : classifyTarget mid = none := by
    rw [classifyTarget, significantFrom_zero_eq, dropWhile_of_current ink]
    rcases kinds with kind | kind | kind | kind <;> rw [kind] <;> rfl
  rw [reads_left_bind, reads_note_bind, target] at behind
  exact not_reads_fail behind

/-- An asked-for token that no trivia stand in front of is the current one. -/
theorem currentToken_of_passes {token : Token} (trivial_ : (currentToken tokens).isTrivia = false)
    (h : Passes tokens token rest skipped) : currentToken tokens = token := by
  have same := h.significantFrom_zero
  rw [significantFrom_zero_eq, dropWhile_of_current trivial_] at same
  rw [same]
  rfl

theorem kind_of_packageStatement {node : Package} (ink : (currentToken tokens).isTrivia = false)
    (h : packageStatement.Reads tokens node rest skipped) :
    (currentToken tokens).kind = .keyword .package := by
  rw [Token.isTrivia, Bool.or_eq_false_iff] at ink
  rw [packageStatement, reads_scopeHere_bind, dropWhile_of_current ink.1, reads_finish] at h
  obtain ⟨-, attempt, h, -⟩ := h
  obtain ⟨token, _, _, _, kind, passes, -⟩ := (reads_expect_bind _ (by decide)).1 h
  rw [currentToken_of_passes (by rw [Token.isTrivia, ink.1, ink.2]; rfl) passes, kind]

theorem kind_of_importStatement {node : Import} (ink : (currentToken tokens).isTrivia = false)
    (h : importStatement.Reads tokens node rest skipped) :
    (currentToken tokens).kind = .keyword .import := by
  rw [Token.isTrivia, Bool.or_eq_false_iff] at ink
  rw [importStatement, reads_scopeHere_bind, dropWhile_of_current ink.1, reads_finish] at h
  obtain ⟨-, attempt, h, -⟩ := h
  obtain ⟨token, _, _, _, kind, passes, -⟩ := (reads_expect_bind _ (by decide)).1 h
  rw [currentToken_of_passes (by rw [Token.isTrivia, ink.1, ink.2]; rfl) passes, kind]

/-! ### Items in a file -/

/-- Where no comment stands, a declaration has an empty preface. -/
theorem reads_outerDeclaration {last : FileState} (ink : (currentToken tokens).isWhitespace = false)
    (clear : (currentToken tokens).isComment = false) (plain : state.Plain) :
    (outerDeclaration state).Reads tokens last rest skipped ↔
      ∃ declared, (declaration { start := tokens } false).Reads tokens declared rest skipped ∧
        last = state.addDeclaration declared := by
  rw [Token.isComment, Bool.or_eq_false_iff] at clear
  have noDoc : (currentToken tokens).kind ≠ .docComment := by simpa using clear.2
  have stops : ∀ {both : FileState × Preface} {turn rest skipped},
      (prefaceComment both).Reads tokens turn rest skipped ↔
        turn = .last both ∧ rest = tokens ∧ skipped = [] := by
    intro both turn rest skipped
    rw [prefaceComment, reads_skipWhitespace_bind, dropWhile_of_current ink, reads_current_bind,
      if_neg (by simp [clear.1]), reads_pure]
  have only : ∀ {both : FileState × Preface} (value mid first),
      (iterate prefaceComment both).Reads tokens value mid first ↔
        value = both ∧ mid = tokens ∧ first = [] := by
    intro both value mid first
    constructor
    · intro h
      rcases reads_iterate_cases h with ends | ⟨again, -⟩ | ⟨_, _, _, _, again, -⟩
      · obtain ⟨same, rest, skips⟩ := stops.1 ends
        exact ⟨Turn.last.inj same, rest, skips⟩
      · cases (stops.1 again).1
      · cases (stops.1 again).1
    · rintro ⟨rfl, rfl, rfl⟩
      exact reads_iterate_last (stops.2 ⟨rfl, rfl, rfl⟩)
  have same : { state with sectionComment := none } = state := by
    cases state
    cases plain
    rfl
  rw [outerDeclaration]
  simp only [reads_emptyPreface_bind, reads_current_bind, if_neg noDoc, reads_pure_bind, same]
  rw [reads_bind_of_nil only, reads_bind]
  simp only [reads_pure]
  rw [plain]
  constructor
  · rintro ⟨declared, _, _, _, reads, ⟨rfl, rfl, rfl⟩, rfl⟩
    exact ⟨declared, by rwa [List.append_nil], rfl⟩
  · rintro ⟨declared, reads, rfl⟩
    exact ⟨declared, rest, skipped, [], reads, ⟨rfl, rfl, rfl⟩, by simp⟩

/-- The step in front of an item reads that item. -/
theorem fileStep_of_read {item : FileItem} (ink : (currentToken tokens).isWhitespace = false)
    (clear : (currentToken tokens).isComment = false) (plain : state.Plain)
    (h : item.Read tokens rest) : FileStep state tokens (.again (state.add item)) rest := by
  have matters := isTrivia_of_clear ink clear
  obtain ⟨noPlain, noDoc⟩ := Bool.or_eq_false_iff.1 clear
  cases item with
  | packageStatement node => exact .packageStatement (kind_of_packageStatement matters h) h
  | importStatement node => exact .importStatement (kind_of_importStatement matters h) h
  | declaration node =>
      refine .declaration (start_of_declaration h) noPlain (fun heads => ?_)
        ((reads_outerDeclaration ink clear plain).2 ⟨node, h, rfl⟩)
      simp [heads.1] at noDoc

/-- In front of tokens that are no comments, a step comes to the end, to a semicolon or to an
item. -/
theorem FileStep.cases_of_clear {turn : Turn FileState}
    (ink : (currentToken tokens).isWhitespace = false)
    (clear : (currentToken tokens).isComment = false) (plain : state.Plain)
    (h : FileStep state tokens turn rest) :
    turn = .last state ∧ (currentToken rest).isEnd = true ∧ rest = tokens ∨
      (∃ token, token.kind = .semicolon ∧ tokens = token :: rest ∧ turn = .again state) ∨
      ∃ item : FileItem, turn = .again (state.add item) ∧ item.Read tokens rest := by
  obtain ⟨noPlain, noDoc⟩ := Bool.or_eq_false_iff.1 clear
  cases h with
  | ends ends => exact .inl ⟨rfl, ends, rfl⟩
  | semicolon kind => exact .inr (.inl ⟨_, kind, rfl, rfl⟩)
  | comment comments => exact absurd comments (by simp [noPlain])
  | header heads => exact absurd heads.1 (by simpa using noDoc)
  | packageStatement _ reads => exact .inr (.inr ⟨.packageStatement _, rfl, reads⟩)
  | importStatement _ reads => exact .inr (.inr ⟨.importStatement _, rfl, reads⟩)
  | declaration _ _ _ reads =>
      obtain ⟨declared, declares, rfl⟩ := (reads_outerDeclaration ink clear plain).1 reads
      exact .inr (.inr ⟨.declaration declared, rfl, declares⟩)

end Reading

/-! ### Items in a row -/

/-- Tokens of items in a row, with white space and semicolons between them. -/
inductive Runs : List Token → List FileItem → Prop where
  | nil : Runs [] []
  | semicolon {blanks token tokens items} (blank : ∀ token ∈ blanks, token.isWhitespace = true)
      (kind : token.kind = .semicolon) (later : Runs tokens items) :
      Runs (blanks ++ token :: tokens) items
  | item {blanks first front tokens item items}
      (blank : ∀ token ∈ blanks, token.isWhitespace = true) (ink : first.isWhitespace = false)
      (clear : first.isComment = false)
      (reads : ∀ behind, item.Read (first :: front ++ behind) behind) (later : Runs tokens items) :
      Runs (blanks ++ (first :: front ++ tokens)) (item :: items)

namespace Runs

variable {tokens tokens' : List Token} {items items' : List FileItem}

theorem append (h : Runs tokens items) (h' : Runs tokens' items') :
    Runs (tokens ++ tokens') (items ++ items') := by
  induction h with
  | nil => exact h'
  | semicolon blank kind _ ih =>
      rw [List.append_assoc]
      exact .semicolon blank kind ih
  | item blank ink clear reads _ ih =>
      rw [List.append_assoc, List.append_assoc]
      exact .item blank ink clear reads ih

/-- The white space in front of items does not matter. -/
theorem with_blanks (h : Runs tokens items) (some : tokens ≠ []) {blanks : List Token}
    (blank : ∀ token ∈ blanks, token.isWhitespace = true) :
    Runs (blanks ++ tokens.dropWhile Token.isWhitespace) items := by
  cases h with
  | nil => exact absurd rfl some
  | semicolon blank' kind later =>
      rw [List.dropWhile_append_of_pos blank',
        List.dropWhile_cons_of_neg (by simp [Token.isWhitespace, kind])]
      exact .semicolon blank kind later
  | item blank' ink clear reads later =>
      rw [List.dropWhile_append_of_pos blank', List.cons_append,
        List.dropWhile_cons_of_neg (by simp [ink])]
      exact .item blank ink clear reads later

/-- Reading a file passes over items in a row, one by one. -/
theorem reads_iterate (h : Runs tokens items) {state last : FileState} (plain : state.Plain)
    {behind rest : List Token}
    (later : (Reading.iterate Reading.fileItem (items.foldl FileState.add state)).Reads behind last
      rest []) :
    (Reading.iterate Reading.fileItem state).Reads (tokens ++ behind) last rest [] := by
  induction h generalizing state with
  | nil => exact later
  | @semicolon blanks token tokens items blank kind _ ih =>
      have step : (Reading.fileItem state).Reads (blanks ++ token :: tokens ++ behind)
          (.again state) (tokens ++ behind) [] := by
        rw [Reading.reads_fileItem, List.append_assoc, List.dropWhile_append_of_pos blank,
          List.cons_append, List.dropWhile_cons_of_neg (by simp [Token.isWhitespace, kind])]
        exact ⟨rfl, .semicolon kind⟩
      refine Reading.reads_iterate_again step ?_ (ih plain later)
      simp only [List.length_append, List.length_cons]
      omega
  | @item blanks first front tokens item items blank ink clear reads _ ih =>
      have step : (Reading.fileItem state).Reads (blanks ++ (first :: front ++ tokens) ++ behind)
          (.again (state.add item)) (tokens ++ behind) [] := by
        rw [Reading.reads_fileItem, List.append_assoc, List.append_assoc,
          List.dropWhile_append_of_pos blank, List.cons_append,
          List.dropWhile_cons_of_neg (by simp [ink])]
        exact ⟨rfl, Reading.fileStep_of_read ink clear plain (reads (tokens ++ behind))⟩
      refine Reading.reads_iterate_again step ?_ (ih (plain.add item) later)
      simp only [List.length_append, List.length_cons]
      omega

/-- None of the tokens is the end of the input. -/
theorem isEnd_eq_false (h : Runs tokens items) {token : Token} (mem : token ∈ tokens) :
    token.isEnd = false := by
  have blank' : ∀ {token : Token}, token.isWhitespace = true → token.isEnd = false := fun blank =>
    Token.isEnd_eq_false_of_isTrivia (Token.isTrivia_iff.2 (.inl blank))
  induction h with
  | nil => cases mem
  | @semicolon blanks mark tokens items blank kind _ ih =>
      rcases List.mem_append.1 mem with mem | mem
      · exact blank' (blank token mem)
      · rcases List.mem_cons.1 mem with rfl | mem
        · simp [Token.isEnd, kind]
        · exact ih mem
  | @item blanks first front tokens item items blank _ _ reads _ ih =>
      rcases List.mem_append.1 mem with mem | mem
      · exact blank' (blank token mem)
      · rcases List.mem_append.1 mem with mem | mem
        · obtain ⟨passed, whole, inside⟩ := (reads []).advances
          rw [List.append_nil, List.append_nil] at whole
          exact inside token (whole ▸ mem)
        · exact ih mem

/-- Items in a row end in a semicolon or a closing brace. -/
theorem closed (h : Runs tokens items) (some : tokens ≠ []) : Closed tokens := by
  induction h with
  | nil => exact absurd rfl some
  | @semicolon blanks token tokens items _ kind later ih =>
      refine Closed.append blanks ?_
      rw [← List.singleton_append]
      by_cases last : tokens = []
      · rw [last, List.append_nil]
        exact .singleton (Token.closes_iff.2 (.inl kind))
      · exact (ih last).append [token]
  | @item blanks first front tokens item items _ _ _ reads _ ih =>
      refine Closed.append blanks ?_
      by_cases last : tokens = []
      · rw [last, List.append_nil]
        exact (reads []).ends.1
      · exact (ih last).append (first :: front)

end Runs

/-- White space with nothing behind it but the end of the input. -/
structure Trails (tokens rest : List Token) : Prop where
  blank : ∀ token ∈ tokens, token.isWhitespace = true
  ends : (currentToken rest).isEnd = true

/-- An item that stands behind white space. -/
theorem exists_runs_of_read {item : FileItem} {tokens rest : List Token}
    (clear : ∀ token ∈ tokens, token.isComment = false)
    (h : item.Read (tokens.dropWhile Token.isWhitespace) rest) :
    ∃ front, tokens = front ++ rest ∧ front ≠ [] ∧ Runs front [item] := by
  have ink := Reading.isWhitespace_of_dropWhile tokens
  have split := List.takeWhile_append_dropWhile (p := Token.isWhitespace) (l := tokens)
  obtain ⟨front, here, -⟩ := h.advances
  rw [here] at h ink split
  obtain ⟨closed, reads⟩ := h.ends
  obtain ⟨first, others, rfl⟩ := List.exists_cons_of_ne_nil closed.ne_nil
  have blank : ∀ token ∈ tokens.takeWhile Token.isWhitespace, token.isWhitespace = true :=
    fun token mem => List.all_eq_true.1 List.all_takeWhile token mem
  have mem : first ∈ tokens := by
    rw [← split]
    simp
  refine ⟨tokens.takeWhile Token.isWhitespace ++ (first :: others ++ []), ?_, by simp,
    .item blank ink (clear first mem) reads .nil⟩
  rw [List.append_nil, List.append_assoc]
  exact split.symm

theorem isComment_of_dropWhile {tokens : List Token}
    (clear : ∀ token ∈ tokens, token.isComment = false) :
    (currentToken (tokens.dropWhile Token.isWhitespace)).isComment = false := by
  cases here : tokens.dropWhile Token.isWhitespace with
  | nil => rfl
  | cons token others =>
      refine clear token ((List.dropWhile_sublist Token.isWhitespace).mem ?_)
      rw [here]
      exact List.mem_cons_self

/-- One step in a file without comments passes over a semicolon or an item. -/
theorem exists_runs_of_again {state next : FileState} {tokens rest skipped : List Token}
    (clear : ∀ token ∈ tokens, token.isComment = false) (plain : state.Plain)
    (h : (Reading.fileItem state).Reads tokens (.again next) rest skipped) :
    ∃ front items, tokens = front ++ rest ∧ front ≠ [] ∧ Runs front items ∧
      next = items.foldl FileState.add state := by
  obtain ⟨-, step⟩ := Reading.reads_fileItem.1 h
  obtain ⟨ends, -⟩ | ⟨token, kind, here, same⟩ | ⟨item, same, reads⟩ :=
    step.cases_of_clear (Reading.isWhitespace_of_dropWhile tokens) (isComment_of_dropWhile clear)
      plain
  · cases ends
  · have split := List.takeWhile_append_dropWhile (p := Token.isWhitespace) (l := tokens)
    refine ⟨tokens.takeWhile Token.isWhitespace ++ [token], [], ?_, by simp,
      .semicolon (fun token mem => List.all_eq_true.1 List.all_takeWhile token mem) kind .nil,
      Reading.Turn.again.inj same⟩
    rw [List.append_assoc, List.singleton_append, ← here, split]
  · obtain ⟨front, split, some, runs⟩ := exists_runs_of_read clear reads
    exact ⟨front, [item], split, some, runs, Reading.Turn.again.inj same⟩

/-- A file without comments is read item by item. -/
theorem exists_runs {state last : FileState} {tokens rest skipped : List Token}
    (clear : ∀ token ∈ tokens, token.isComment = false) (plain : state.Plain)
    (h : (Reading.iterate Reading.fileItem state).Reads tokens last rest skipped) :
    ∃ front blanks items, tokens = front ++ (blanks ++ rest) ∧ Runs front items ∧
      Trails blanks rest ∧ last = items.foldl FileState.add state := by
  induction size : tokens.length using Nat.strongRecOn generalizing tokens state skipped with
  | _ n ih =>
      rcases Reading.reads_iterate_cases h with ends | ⟨stalls, still⟩ |
        ⟨next, mid, passed, later, one, moved, others, -⟩
      · obtain ⟨-, step⟩ := Reading.reads_fileItem.1 ends
        obtain ⟨same, ends, here⟩ | ⟨_, _, _, again⟩ | ⟨_, again, _⟩ :=
          step.cases_of_clear (Reading.isWhitespace_of_dropWhile tokens)
            (isComment_of_dropWhile clear) plain
        · have split := List.takeWhile_append_dropWhile (p := Token.isWhitespace) (l := tokens)
          refine ⟨[], tokens.takeWhile Token.isWhitespace, [], ?_, .nil, ⟨?_, ends⟩,
            Reading.Turn.last.inj same⟩
          · rw [here, List.nil_append, split]
          · exact fun token mem => List.all_eq_true.1 List.all_takeWhile token mem
        · cases again
        · cases again
      · obtain ⟨front, _, rfl, some, -⟩ := exists_runs_of_again clear plain stalls
        have := List.length_pos_iff.2 some
        simp only [List.length_append] at still
        omega
      · obtain ⟨front, items, rfl, some, runs, rfl⟩ := exists_runs_of_again clear plain one
        obtain ⟨front', blanks, items', rfl, runs', trails, rfl⟩ := ih _ (size ▸ moved)
          (fun token mem => clear token (List.mem_append_right front mem)) (plain.foldl items)
          others rfl
        exact ⟨front ++ front', blanks, items ++ items', by simp, runs.append runs', trails,
          by rw [List.foldl_append]⟩

/-! ### Classes in a file -/

/-- A class without anything of a file around it. -/
structure ClassDecl.Bare (node : ClassDecl) : Prop where
  headerComments : node.headerComments = []
  package : node.package = none
  imports : node.imports = []
  trailingComments : node.trailingComments = []

/-- What the head of a class does not say about its draft. -/
def ClassDraft.surroundings (draft : ClassDraft) :
    List Comment × Option Package × List Import × List Comment × Bool :=
  (draft.headerComments, draft.package, draft.imports, draft.trailingComments, draft.inner)

theorem ClassDraft.surroundings_withTypeParameters (draft : ClassDraft) (text : Option Text) :
    (text.elim draft draft.withTypeParameters).surroundings = draft.surroundings := by
  cases text <;> rfl

theorem ClassDraft.surroundings_withSuperclass (draft : ClassDraft) (text : Option Text) :
    (text.elim draft draft.withSuperclass).surroundings = draft.surroundings := by
  cases text <;> rfl

theorem ClassDraft.surroundings_foldl (types : List Text) (draft : ClassDraft) :
    (types.foldl ClassDraft.addInterface draft).surroundings = draft.surroundings := by
  induction types generalizing draft with
  | nil => rfl
  | cons type rest ih => rw [List.foldl_cons, ih]; rfl

theorem ClassDraft.bare_of_build {draft : ClassDraft} {node : ClassDecl} {inner : Bool}
    (built : draft.build = .ok node) (same : draft.surroundings = ([], none, [], [], inner)) :
    node.Bare ∧ node.inner = inner ∧ node.editable = true := by
  obtain ⟨-, rfl⟩ := settle_eq_ok_iff.1 built
  simp only [surroundings, Prod.mk.injEq] at same
  obtain ⟨headers, package, imports, trailing, inner⟩ := same
  exact ⟨⟨headers, package, imports, trailing⟩, inner, rfl⟩

namespace Reading

variable {tokens rest skipped : List Token} {nested : Reading Declaration} {preface : Preface}
  {inner : Bool} {node : ClassDecl}

theorem exists_draft_of_classRest
    (h : (classRest nested preface inner).Reads tokens node rest skipped) :
    ∃ draft : ClassDraft, draft.build = .ok node ∧
      draft.surroundings = ([], none, [], [], inner) := by
  simp only [classRest, reads_finish, reads_bind_nil, reads_note, reads_pure] at h
  obtain ⟨-, attempt, ⟨word, first, -, name, second, -, _, _, -, parameters, _, -, ancestry, fourth,
    -, items, _, -, rfl, rfl, -⟩, -, built⟩ := h
  dsimp only at built
  refine ⟨_, built, ?_⟩
  exact (ClassDraft.surroundings_foldl _ _).trans
    ((ClassDraft.surroundings_withSuperclass _ _).trans
      (ClassDraft.surroundings_withTypeParameters _ _))

/-- What a declaration without defects is read as. -/
theorem reads_declarationWith {declared : Declaration} :
    (declarationWith nested preface inner).Reads tokens declared rest skipped ↔
      ∃ run mid passed later kind, (modifierRun preface).Reads tokens run mid passed ∧
        classifyTarget mid = some kind ∧ run.allDefects = [] ∧
        (declarationOf nested run inner kind).Reads mid declared rest later ∧
        skipped = passed ++ later := by
  rw [declarationWith, reads_bind]
  constructor
  · rintro ⟨run, mid, passed, later, modified, h, rfl⟩
    rw [reads_left_bind, reads_note_bind] at h
    cases target : classifyTarget mid with
    | none =>
        rw [target] at h
        exact absurd h not_reads_fail
    | some kind =>
        rw [target] at h
        obtain ⟨clean, reads⟩ := reads_declared.1 h
        exact ⟨run, mid, passed, later, kind, modified, target, clean, reads, rfl⟩
  · rintro ⟨run, mid, passed, later, kind, modified, target, clean, reads, rfl⟩
    refine ⟨run, mid, passed, later, modified, ?_, rfl⟩
    rw [reads_left_bind, reads_note_bind, target]
    exact reads_declared.2 ⟨clean, reads⟩

/-- A class that is declared was built without anything of a file around it. -/
theorem exists_draft_of_declaration
    (h : (declaration preface inner).Reads tokens (.classDecl node) rest skipped) :
    ∃ draft : ClassDraft, draft.build = .ok node ∧
      draft.surroundings = ([], none, [], [], inner) := by
  obtain ⟨run, mid, _, _, kind, -, -, -, reads, -⟩ := reads_declarationWith.1 h
  cases kind with
  | classDecl =>
      obtain ⟨read, _, _, _, reads, same, -⟩ := reads_bind.1 reads
      obtain rfl := Declaration.classDecl.inj (reads_pure.1 same).1
      exact exists_draft_of_classRest reads
  | field =>
      obtain ⟨read, _, _, _, -, same, -⟩ := reads_bind.1 reads
      cases (reads_pure.1 same).1
  | method =>
      obtain ⟨read, _, _, _, -, same, -⟩ := reads_bind.1 reads
      cases (reads_pure.1 same).1

theorem bare_of_declaration
    (h : (declaration preface inner).Reads tokens (.classDecl node) rest skipped) :
    node.Bare ∧ node.inner = inner ∧ node.editable = true := by
  obtain ⟨draft, built, same⟩ := exists_draft_of_declaration h
  exact ClassDraft.bare_of_build built same

/-- Whether a declaration stands in a class makes no difference to fields and methods. -/
theorem reads_declaration_outside {declared : Declaration}
    (other : ∀ node, declared ≠ .classDecl node)
    (h : (declaration preface inner).Reads tokens declared rest skipped) (inner' : Bool) :
    (declaration preface inner').Reads tokens declared rest skipped := by
  obtain ⟨run, mid, passed, later, kind, modified, target, clean, reads, rfl⟩ :=
    reads_declarationWith.1 h
  refine reads_declarationWith.2
    ⟨run, mid, passed, later, kind, modified, target, clean, ?_, rfl⟩
  cases kind with
  | classDecl =>
      obtain ⟨read, _, _, _, -, same, -⟩ := reads_bind.1 reads
      exact absurd (reads_pure.1 same).1 (other read)
  | field => exact reads
  | method => exact reads

end Reading

/-- A class of an outermost declaration takes what its file holds. -/
theorem FileState.attachFile_eq (state : FileState) {outer : ClassDecl}
    (outside : outer.inner = false) (editable : outer.editable = true) :
    state.attachFile outer = .ok { outer with
      package := state.package
      imports := state.imports
      headerComments := state.headerComments ++ state.sectionComment.toList
      trailingComments := state.trailingComments } :=
  attachFile_eq_ok_iff.2 ⟨editable, outside, rfl⟩

/-- With no package and no imports around it, a bare class stays as it is. -/
theorem ClassDecl.Bare.eq {outer : ClassDecl} (bare : outer.Bare) :
    { outer with package := none, imports := [] } = outer := by
  rw [← bare.package, ← bare.imports]

theorem FileState.attachFile_of_bare {package : Option Package} {imports : List Import}
    {outer : ClassDecl} (bare : outer.Bare) (outside : outer.inner = false)
    (editable : outer.editable = true) :
    ({ package, imports, outer := some outer } : FileState).attachFile outer =
      .ok { outer with package, imports } := by
  rw [FileState.attachFile_eq _ outside editable]
  simp [bare.headerComments, bare.trailingComments]

/-! ### Whole files -/

namespace Runs

variable {tokens : List Token} {items : List FileItem}

theorem ne_nil (h : Runs tokens items) (some : items ≠ []) : tokens ≠ [] := by
  cases h with
  | nil => exact absurd rfl some
  | semicolon => simp
  | item => simp

/-- Each item in a row is read somewhere. -/
theorem exists_read (h : Runs tokens items) {item : FileItem} (mem : item ∈ items) :
    ∃ front, item.Read front [] := by
  induction h with
  | nil => cases mem
  | semicolon _ _ _ ih => exact ih mem
  | item _ _ _ reads _ ih =>
      rcases List.mem_cons.1 mem with rfl | mem
      · exact ⟨_, reads []⟩
      · exact ih mem

/-- A class among items in a row has nothing of a file around it. -/
theorem bare_of_mem (h : Runs tokens items) {node : ClassDecl}
    (mem : .declaration (.classDecl node) ∈ items) :
    node.Bare ∧ node.inner = false ∧ node.editable = true := by
  obtain ⟨front, reads⟩ := h.exists_read mem
  exact Reading.bare_of_declaration reads

end Runs

namespace Reading

variable {tokens rest skipped : List Token}

/-- A file is read if nothing in it is out of order and it holds a class. -/
theorem reads_compilationUnit {node : ClassDecl} :
    compilationUnit.Reads tokens node rest skipped ↔
      ∃ state outer, (iterate fileItem {}).Reads tokens state rest skipped ∧
        state.outer = some outer ∧ state.defects = [] ∧ state.attachFile outer = .ok node := by
  have notOutOfOrder : ∀ {scope defects} {node : ClassDecl} {tokens rest skipped},
      ¬ (outOfOrder scope defects).Reads tokens node rest skipped := by
    intro scope defects node tokens rest skipped h
    simp [outOfOrder] at h
  simp only [compilationUnit, reads_left_bind]
  rw [reads_bind]
  constructor
  · rintro ⟨state, mid, passed, later, run, h, rfl⟩
    cases found : state.outer with
    | none =>
        rw [found] at h
        exact absurd h notOutOfOrder
    | some outer =>
        simp only [found, reads_ite, reads_finish, reads_pure] at h
        rcases h with ⟨clean, rfl, attempt, ⟨rfl, rfl, -⟩, -, built⟩ | ⟨-, h⟩
        · exact ⟨state, outer, by rwa [List.append_nil], found, clean, built⟩
        · exact absurd h notOutOfOrder
  · rintro ⟨state, outer, run, found, clean, built⟩
    refine ⟨state, rest, skipped, [], run, ?_, by simp⟩
    simp only [found, reads_ite, reads_finish, reads_pure]
    exact .inl ⟨clean, trivial, _, ⟨rfl, trivial, trivial⟩, rfl, built⟩

/-- A file without comments that holds nothing but a class. -/
theorem exists_runs_of_compilationUnit {node : ClassDecl}
    (clear : ∀ token ∈ tokens, token.isComment = false) (package : node.package = none)
    (imports : node.imports = []) (h : compilationUnit.Reads tokens node rest skipped) :
    ∃ front blanks, tokens = front ++ (blanks ++ rest) ∧
      Runs front [.declaration (.classDecl node)] ∧ Trails blanks rest := by
  obtain ⟨state, outer, run, found, clean, built⟩ := reads_compilationUnit.1 h
  have plain : FileState.Plain {} := rfl
  obtain ⟨front, blanks, items, rfl, runs, trails, rfl⟩ := JavaUnit.exists_runs clear plain run
  have reported := @FileState.allDefects_foldl {} [] items FileState.follows_nil
  rw [FileState.allDefects, clean, found] at reported
  obtain ⟨package', imports', outer', rfl⟩ := FileItem.violations_eq_nil_iff.1 reported.symm
  rw [FileState.foldl_inOrder] at found built
  obtain rfl := Option.some.inj found
  obtain ⟨bare, outside, editable⟩ := @Runs.bare_of_mem _ _ runs outer' (by simp [FileItem.inOrder])
  rw [FileState.attachFile_of_bare bare outside editable] at built
  obtain rfl := Except.ok.inj built
  obtain rfl : package' = none := package
  obtain rfl : imports' = [] := imports
  refine ⟨front, blanks, rfl, ?_, trails⟩
  rwa [bare.eq]

end Reading

/-- What a source text is read as is read from its tokens, with white space behind it. -/
theorem exists_reads_of_parseText {entry : Entry α} {name text : Text} {node : α}
    (h : entry.parseText name text = .ok node) :
    ∃ tokens rest skipped, lex text = .ok tokens ∧ entry.reading.Reads tokens node rest skipped ∧
      (currentToken (rest.dropWhile Token.isWhitespace)).isEnd = true := by
  obtain ⟨tokens, lexed, all⟩ := Entry.parseText_eq_ok_iff.1 h
  obtain ⟨rest, skipped, reads, ends⟩ := Entry.readAll_eq_ok_iff.1 all
  exact ⟨tokens, rest, skipped, lexed, reads, ends⟩

end JavaUnit
