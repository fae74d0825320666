/-
Module: JavaUnit.Proofs.ClassRules
Purpose: The rules that tie the comments, the file and the nested classes of a class together. A
  class that was built or read from a file obeys them. An edit keeps them exactly if what it brings
  in fits the class. The edits themselves ask for less; that part of the rules outlives every
  sequence of edits.
Main exports: ClassDecl.Sound, ClassDraft.sound_of_build, sound_of_parseText, ClassEdit,
  ClassDecl.Sound.apply_iff, ClassDecl.Sound.edited, ClassDecl.Guarded.edited,
  ClassDecl.rules_survive
-/
import JavaUnit.Proofs.FileOrder
import Mathlib.Logic.Relation

namespace JavaUnit

/-! ### The rules -/

/-- Whether a member has a place in a class body: a comment there is not doc-style, and a class is
an inner one. -/
def Member.HasPlace : Member → Prop
  | .comment node => node.isDoc = false
  | .classDecl head _ => head.inner = true
  | _ => True

namespace ClassDecl

/-- Whether a package or an import separates the header comments from the class. -/
def HasFileScope (node : ClassDecl) : Prop :=
  node.package.isSome = true ∨ node.imports ≠ []

/-- The rules that every change to a class asks for. -/
structure Guarded (node : ClassDecl) : Prop where
  plain : node.sectionComment.any Comment.isDoc = false
  scope : node.inner = true → ¬ node.HasFileScope

/-- The rules for classes. -/
structure Sound (node : ClassDecl) : Prop extends Guarded node where
  header : node.headerComments.any Comment.isDoc = true → node.HasFileScope
  trailing : node.trailingComments.any Comment.isDoc = false
  file : node.inner = true → node.headerComments = [] ∧ node.trailingComments = []
  members : ∀ member ∈ node.members, member.HasPlace

end ClassDecl

/-! ### Building -/

theorem plainComment_eq_nil {comment : Comment} :
    plainComment comment = [] ↔ comment.isDoc = false := by
  simp [plainComment]

theorem ClassDraft.memberDefects_eq_nil {member : Member} :
    memberDefects member = [] ↔ member.HasPlace := by
  cases member <;> simp [memberDefects, Member.HasPlace, plainComment_eq_nil]

theorem ClassDraft.hasFileScope_iff {draft : ClassDraft} :
    draft.hasFileScope = true ↔ draft.node.HasFileScope := by
  simp [hasFileScope, ClassDecl.HasFileScope, node]

/-- Whatever is built obeys the rules. -/
theorem ClassDraft.sound_of_build {draft : ClassDraft} {built : ClassDecl}
    (h : draft.build = .ok built) : built.Sound := by
  obtain ⟨clean, rfl⟩ := settle_eq_ok_iff.1 h
  simp only [defects, List.append_eq_nil_iff, and_assoc] at clean
  obtain ⟨plain, trailing, header, -, -, -, -, inner, -, -, -, -, members⟩ := clean
  have nested : draft.inner = true → draft.hasFileScope = false ∧
      draft.headerComments = [] ∧ draft.trailingComments = [] := by
    intro nested
    simpa [innerDefects, nested] using inner
  refine ⟨⟨?_, fun inner => ?_⟩, fun doc => ?_, ?_, fun inner => (nested inner).2, ?_⟩
  · cases comment : draft.sectionComment with
    | none => simp [node, LeadDraft.lead, comment]
    | some found =>
        simpa [LeadDraft.commentDefects, comment, plainComment, node, LeadDraft.lead] using plain
  · rw [← hasFileScope_iff, (nested inner).1]
    decide
  · have doc : draft.headerComments.any Comment.isDoc = true := doc
    rw [requirement_eq_nil, doc] at header
    exact hasFileScope_iff.1 (by simpa using header)
  · rw [List.any_eq_false]
    intro comment mem
    simpa using plainComment_eq_nil.1 (List.flatMap_eq_nil_iff.1 trailing comment mem)
  · exact fun member mem => memberDefects_eq_nil.1 (List.flatMap_eq_nil_iff.1 members member mem)

/-! ### Edits -/

/-- A change to a class. -/
inductive ClassEdit where
  | sectionComment (comment : Option Comment)
  | javadoc (node : Option Javadoc)
  | annotations (nodes : List Annotation)
  | package (node : Option Package)
  | imports (nodes : List Import)
  | headerComments (comments : List Comment)
  | trailingComments (comments : List Comment)
  | member (added : Member)

namespace ClassEdit

/-- Makes the change, unless it is refused. -/
def apply (node : ClassDecl) : ClassEdit → Except BuildError ClassDecl
  | .sectionComment comment => node.setSectionComment comment
  | .javadoc doc => node.setJavadoc doc
  | .annotations uses => node.setAnnotations uses
  | .package statement => node.setPackage statement
  | .imports statements => node.setImports statements
  | .headerComments comments => node.setHeaderComments comments
  | .trailingComments comments => node.setTrailingComments comments
  | .member added => node.pushMember added

/-- The class with the change. -/
def result (node : ClassDecl) : ClassEdit → ClassDecl
  | .sectionComment comment => { node with sectionComment := comment }
  | .javadoc doc => { node with javadoc := doc }
  | .annotations uses => { node with annotations := uses }
  | .package statement => { node with package := statement }
  | .imports statements => { node with imports := statements }
  | .headerComments comments => { node with headerComments := comments }
  | .trailingComments comments => { node with trailingComments := comments }
  | .member added => { node with members := node.members ++ [added] }

/-- What a class is asked for before the change is made. -/
def Guard (node : ClassDecl) : ClassEdit → Prop
  | .sectionComment comment => comment.any Comment.isDoc = false
  | .package _ | .imports _ => node.inner = false
  | _ => True

/-- What it would have to be asked for so that the change keeps the rules. -/
def Fits (node : ClassDecl) : ClassEdit → Prop
  | .package statement =>
    node.headerComments.any Comment.isDoc = true →
      ClassDecl.HasFileScope { node with package := statement }
  | .imports statements =>
    node.headerComments.any Comment.isDoc = true →
      ClassDecl.HasFileScope { node with imports := statements }
  | .headerComments comments =>
    (comments.any Comment.isDoc = true → node.HasFileScope) ∧ (node.inner = true → comments = [])
  | .trailingComments comments =>
    comments.any Comment.isDoc = false ∧ (node.inner = true → comments = [])
  | .member added => added.HasPlace
  | _ => True

variable {node node' : ClassDecl} {edit : ClassEdit}

/-- A change is made to a class that can be changed and meets what it is asked for. -/
theorem apply_eq_ok_iff :
    edit.apply node = .ok node' ↔
      node.editable = true ∧ edit.Guard node ∧ node' = edit.result node := by
  cases edit with
  | sectionComment comment =>
      rw [apply, ClassDecl.setSectionComment, ifEditable_eq_ok_iff, ifPlain_eq_ok_iff,
        Except.ok.injEq, eq_comm (b := node')]
      rfl
  | package | imports =>
      rw [apply]
      refine ClassDecl.ifOuter_eq_ok_iff.trans ?_
      rw [Except.ok.injEq, eq_comm (b := node')]
      rfl
  | _ =>
      rw [apply]
      refine ifEditable_eq_ok_iff.trans ?_
      rw [Except.ok.injEq, eq_comm (b := node')]
      exact and_congr_right fun _ => (iff_of_eq (true_and _)).symm

end ClassEdit

namespace ClassDecl

variable {node node' : ClassDecl} {edit : ClassEdit}

/-- No change that is made breaks what every change asks for. -/
theorem Guarded.apply (h : node.Guarded) (made : edit.apply node = .ok node') : node'.Guarded := by
  obtain ⟨-, guard, rfl⟩ := ClassEdit.apply_eq_ok_iff.1 made
  cases edit with
  | sectionComment comment => exact ⟨guard, h.scope⟩
  | package package =>
      have outside : node.inner = false := guard
      exact ⟨h.plain, fun inner => by simp [ClassEdit.result, outside] at inner⟩
  | imports imports =>
      have outside : node.inner = false := guard
      exact ⟨h.plain, fun inner => by simp [ClassEdit.result, outside] at inner⟩
  | _ => exact ⟨h.plain, h.scope⟩

/-- A change keeps the rules exactly if what it brings in fits the class. -/
theorem Sound.apply_iff (h : node.Sound) (made : edit.apply node = .ok node') :
    node'.Sound ↔ edit.Fits node := by
  have guarded := h.toGuarded.apply made
  obtain ⟨-, guard, rfl⟩ := ClassEdit.apply_eq_ok_iff.1 made
  cases edit with
  | package package | imports imports =>
      exact ⟨fun sound => sound.header, fun fits => ⟨guarded, fits, h.trailing, h.file, h.members⟩⟩
  | headerComments comments =>
      exact ⟨fun sound => ⟨sound.header, fun inner => (sound.file inner).1⟩,
        fun fits => ⟨guarded, fits.1, h.trailing, fun inner => ⟨fits.2 inner, (h.file inner).2⟩,
          h.members⟩⟩
  | trailingComments comments =>
      exact ⟨fun sound => ⟨sound.trailing, fun inner => (sound.file inner).2⟩,
        fun fits => ⟨guarded, h.header, fits.1, fun inner => ⟨(h.file inner).1, fits.2 inner⟩,
          h.members⟩⟩
  | member added =>
      constructor
      · exact fun sound => sound.members added (List.mem_append_right _ (List.mem_singleton_self _))
      · refine fun fits => ⟨guarded, h.header, h.trailing, h.file, fun other mem => ?_⟩
        rcases List.mem_append.1 mem with mem | mem
        · exact h.members other mem
        · rwa [List.mem_singleton.1 mem]
  | _ => exact iff_of_true ⟨guarded, h.header, h.trailing, h.file, h.members⟩ trivial

/-- One class comes from another one by a change that is made. -/
def Edited (node node' : ClassDecl) : Prop :=
  ∃ edit : ClassEdit, edit.apply node = .ok node'

/-- The change fits, too. -/
def FitlyEdited (node node' : ClassDecl) : Prop :=
  ∃ edit : ClassEdit, edit.Fits node ∧ edit.apply node = .ok node'

/-- What every change asks for outlives every sequence of changes. -/
theorem Guarded.edited (h : node.Guarded) (edits : Relation.ReflTransGen Edited node node') :
    node'.Guarded := by
  induction edits with
  | refl => exact h
  | tail _ last ih =>
      obtain ⟨edit, made⟩ := last
      exact ih.apply made

/-- The rules outlive every sequence of changes that fit. -/
theorem Sound.edited (h : node.Sound) (edits : Relation.ReflTransGen FitlyEdited node node') :
    node'.Sound := by
  induction edits with
  | refl => exact h
  | tail _ last ih =>
      obtain ⟨edit, fits, made⟩ := last
      exact (ih.apply_iff made).2 fits

end ClassDecl

/-! ### Reading -/

namespace Reading

variable {tokens rest skipped : List Token}

/-- A comment is doc-style exactly if its token is. -/
theorem isDoc_of_comment {node : Comment} (h : comment.Reads tokens node rest skipped) :
    ∃ token, tokens.dropWhile Token.isWhitespace = token :: rest ∧
      node.isDoc = decide (token.kind = .docComment) := by
  obtain ⟨-, token, draft, ahead, found, built⟩ := reads_comment.1 h
  obtain ⟨-, rfl⟩ := settle_eq_ok_iff.1 built
  refine ⟨token, ahead, ?_⟩
  rw [commentDraft?] at found
  split at found
  · next kind =>
      obtain rfl := Option.some.inj found
      simp [kind, Comment.isDoc, CommentDraft.node, CommentDraft.addText]
  · next kind =>
      obtain rfl := Option.some.inj found
      simp [kind, Comment.isDoc, CommentDraft.node, CommentDraft.addText]
  · next kind =>
      obtain rfl := Option.some.inj found
      simp [kind, Comment.isDoc, CommentDraft.node, CommentDraft.addText]
  · cases found

/-- The next token that matters begins a package declaration or an import. -/
def Announces (tokens : List Token) : Prop :=
  (currentToken (significantFrom 0 tokens)).keyword? ∈ [some Keyword.package, some Keyword.import]

/-- A comment that stands here and is not doc-style. -/
theorem plain_of_comment {node : Comment} (h : comment.Reads tokens node rest skipped)
    (plain : (currentToken tokens).isPlainComment = true) :
    node.isDoc = false ∧ ∃ token, token.isPlainComment = true ∧ tokens = token :: rest := by
  obtain ⟨token, ahead, doc⟩ := isDoc_of_comment h
  have ink : (currentToken tokens).isWhitespace = false := by
    by_contra blank
    rw [Token.isPlainComment_eq_false_of_isWhitespace (by simpa using blank)] at plain
    cases plain
  rw [dropWhile_of_current ink] at ahead
  have plain : token.isPlainComment = true := by simpa [ahead, currentToken] using plain
  refine ⟨?_, token, plain, ahead⟩
  rw [doc, decide_eq_false_iff_not]
  intro kind
  simp [Token.isPlainComment, kind] at plain

/-- What has been read of a file, in front of the tokens that are left, can only become a class that
obeys the rules: behind a doc-style comment at the head of the file stands a package declaration or
an import, or else the file is out of order. -/
structure Promising (state : FileState) (tokens : List Token) : Prop where
  outer : ∀ node, state.outer = some node → node.Sound ∧ node.inner = false ∧ node.editable = true
  waiting : state.sectionComment.any Comment.isDoc = false
  trailing : state.trailingComments.any Comment.isDoc = false
  header : state.headerComments.any Comment.isDoc = true →
    state.package.isSome = true ∨ state.imports ≠ [] ∨ state.defects ≠ [] ∨ Announces tokens

theorem any_toList {comment : Option Comment} (plain : comment.any Comment.isDoc = false) :
    comment.toList.any Comment.isDoc = false := by
  cases comment with
  | none => rfl
  | some node => simpa using plain

namespace Promising

variable {state : FileState}

theorem start : Promising {} tokens :=
  ⟨by simp, rfl, rfl, by simp⟩

theorem moved (h : Promising state tokens) (announces : Announces tokens → Announces rest) :
    Promising state rest :=
  ⟨h.outer, h.waiting, h.trailing, fun doc =>
    (h.header doc).imp_right (.imp_right (.imp_right announces))⟩

theorem report (h : Promising state tokens) (defect : Defect) :
    Promising (state.report defect) rest :=
  ⟨h.outer, h.waiting, h.trailing, fun _ => .inr (.inr (.inl (by simp [FileState.report])))⟩

theorem addPackage (h : Promising state tokens) (node : Package) :
    Promising (state.addPackage node) rest := by
  rw [FileState.addPackage]
  split_ifs
  · exact h.report _
  · exact h.report _
  · exact h.report _
  · exact ⟨h.outer, h.waiting, h.trailing, fun _ => .inl rfl⟩

theorem addImport (h : Promising state tokens) (node : Import) :
    Promising (state.addImport node) rest := by
  rw [FileState.addImport]
  split_ifs
  · exact h.report _
  · exact ⟨h.outer, h.waiting, h.trailing, fun _ => .inr (.inl (by simp))⟩

theorem addDeclaration (h : Promising state tokens) {declared : Declaration} {preface : Preface}
    {start mid : List Token} (silent : ¬ Announces tokens)
    (reads : (declaration preface false).Reads start declared mid skipped) :
    Promising (state.addDeclaration declared) rest := by
  cases declared with
  | classDecl node =>
      rw [FileState.addDeclaration]
      split_ifs
      · exact h.report _
      · obtain ⟨draft, built, same⟩ := exists_draft_of_declaration reads
        obtain ⟨-, outside, editable⟩ := ClassDraft.bare_of_build built same
        refine ⟨fun outer found => ?_, h.waiting, h.trailing, (h.moved (absurd · silent)).header⟩
        obtain rfl := Option.some.inj found
        exact ⟨ClassDraft.sound_of_build built, outside, editable⟩
  | field => exact h.report _
  | method => exact h.report _

/-- A comment that is not doc-style may go to the head of the file. -/
theorem addHeader (h : Promising state tokens) {comments : List Comment}
    (plain : comments.any Comment.isDoc = false) :
    Promising { state with headerComments := state.headerComments ++ comments } tokens :=
  ⟨h.outer, h.waiting, h.trailing, fun doc =>
    h.header (by simpa only [List.any_append, plain, Bool.or_false] using doc)⟩

theorem releaseComment (h : Promising state tokens) : Promising state.releaseComment tokens := by
  have headed := h.addHeader (any_toList h.waiting)
  exact ⟨headed.outer, rfl, headed.trailing, headed.header⟩

theorem addComment (h : Promising state tokens) (attaches : Bool) {comment : Comment}
    (plain : comment.isDoc = false) : Promising (state.addComment attaches comment) tokens := by
  have plains : [comment].any Comment.isDoc = false := by simp [plain]
  rw [FileState.addComment]
  split_ifs
  · exact ⟨h.outer, h.waiting, by rw [List.any_append, h.trailing, plains]; rfl, h.header⟩
  · exact ⟨h.outer, plain, h.trailing, h.releaseComment.header⟩
  · exact h.releaseComment.addHeader plains

theorem prefaceComment (h : Promising state tokens) {preface : Preface} {start mid : List Token}
    {turn : Turn (FileState × Preface)} (plain : preface.sectionComment.any Comment.isDoc = false)
    (reads : (prefaceComment (state, preface)).Reads start turn mid skipped) :
    Promising turn.state.1 tokens ∧ turn.state.2.sectionComment.any Comment.isDoc = false := by
  rw [Reading.prefaceComment, reads_skipWhitespace_bind, reads_current_bind] at reads
  split_ifs at reads with comments
  · obtain ⟨node, _, _, _, commented, same, -⟩ := reads_bind.1 reads
    obtain ⟨rfl, -⟩ := reads_pure.1 same
    exact ⟨h.addHeader (any_toList plain), (plain_of_comment commented comments).1⟩
  · obtain ⟨rfl, -⟩ := reads_pure.1 reads
    exact ⟨h, plain⟩

theorem outerDeclaration (h : Promising state tokens) {start mid : List Token} {last : FileState}
    (silent : ¬ Announces tokens)
    (reads : (outerDeclaration state).Reads start last mid skipped) : Promising last rest := by
  have bare : Promising { state with sectionComment := none } tokens :=
    ⟨h.outer, rfl, h.trailing, h.header⟩
  simp only [Reading.outerDeclaration, reads_emptyPreface_bind, reads_current_bind] at reads
  -- with or without a Javadoc, the comment in front of the declaration is the one that waits
  have behind : ∀ {preface : Preface} {start skipped},
      preface.sectionComment.any Comment.isDoc = false →
      (iterate Reading.prefaceComment ({ state with sectionComment := none }, preface) >>=
        fun both => declaration both.2 false >>= fun declared =>
          pure (both.1.addDeclaration declared)).Reads start last mid skipped →
      Promising last rest := by
    intro preface start skipped plain reads
    obtain ⟨both, _, _, _, comments, reads, -⟩ := reads_bind.1 reads
    obtain ⟨declared, _, _, _, declares, same, -⟩ := reads_bind.1 reads
    obtain ⟨rfl, -⟩ := reads_pure.1 same
    obtain ⟨before, _, _, _, ⟨promising, waits⟩, -, ends⟩ := reads_iterate comments
      (fun both _ _ => Promising both.1 tokens ∧ both.2.sectionComment.any Comment.isDoc = false)
      ⟨bare, plain⟩ (fun ⟨promising, waits⟩ one => promising.prefaceComment waits one)
    have last : Promising both.1 tokens := by
      rcases ends with ends | ⟨ends, -⟩
      · exact (promising.prefaceComment waits ends).1
      · exact (promising.prefaceComment waits ends).1
    exact last.addDeclaration silent declares
  split_ifs at reads with doc
  · obtain ⟨node, _, _, _, -, reads, -⟩ := reads_bind.1 reads
    exact behind h.waiting (reads_pure_bind.1 reads)
  · exact behind h.waiting (reads_pure_bind.1 reads)

/-- One more step, from a token on that is not white space. -/
theorem step (h : Promising state tokens) (ink : (currentToken tokens).isWhitespace = false)
    {turn : Turn FileState} (step : FileStep state tokens turn rest) :
    Promising turn.state rest := by
  -- in front of a token that is no plain comment, that token is the next one that matters
  have next : (currentToken tokens).isPlainComment = false →
      currentToken (significantFrom 0 tokens) = currentToken tokens := by
    intro plain
    rw [significantFrom_zero_eq, dropWhile_of_current
      (by rw [Token.isTrivia, ink, Bool.false_or, plain])]
  cases step with
  | ends => exact h
  | semicolon kind =>
      refine h.moved fun announces => absurd announces ?_
      rw [Announces, next (by simp [currentToken, Token.isPlainComment, kind])]
      simp [currentToken, Token.keyword?, kind]
  | comment plain reads =>
      obtain ⟨kept, token, comments, rfl⟩ := plain_of_comment reads plain
      refine (h.addComment _ kept).moved fun announces => ?_
      rwa [Announces, significantFrom, if_pos (Token.isTrivia_iff.2 (.inr comments))] at announces
  | header heads reads =>
      obtain ⟨doc, announced⟩ := heads
      obtain ⟨token, ahead, -⟩ := isDoc_of_comment reads
      rw [dropWhile_of_current ink] at ahead
      subst ahead
      have kind : token.kind = .docComment := doc
      have released := h.releaseComment
      refine ⟨released.outer, released.waiting, released.trailing, fun _ => .inr (.inr (.inr ?_))⟩
      rw [significantFrom, if_neg (by simp [Token.isTrivia, Token.isWhitespace,
        Token.isPlainComment, kind]), if_neg (by simp [Token.isEnd, kind])] at announced
      exact announced
  | packageStatement => exact h.addPackage _
  | importStatement => exact h.addImport _
  | declaration starts plain _ reads =>
      refine h.outerDeclaration (fun announces => ?_) reads
      rw [Announces, next plain, List.mem_cons, List.mem_singleton] at announces
      rcases announces with word | word
      · simp [startsOther, Token.kind_of_keyword? word] at starts
      · simp [startsOther, Token.kind_of_keyword? word] at starts

/-- One more item of a file. -/
theorem fileItem (h : Promising state tokens) {turn : Turn FileState}
    (reads : (fileItem state).Reads tokens turn rest skipped) : Promising turn.state rest := by
  have here : Promising state (tokens.dropWhile Token.isWhitespace) := h.moved fun announces => by
    rwa [Announces, significantFrom_dropWhile]
  exact here.step (isWhitespace_of_dropWhile tokens) (reads_fileItem.1 reads).2

end Promising

/-- The items of a file keep what is read of it promising. -/
theorem promising_of_items {state : FileState}
    (run : (iterate fileItem {}).Reads tokens state rest skipped) : Promising state rest := by
  obtain ⟨before, mid, _, _, promising, -, last⟩ := reads_iterate run
    (fun state tokens _ => Promising state tokens) .start
    (fun promising one => promising.fileItem one)
  rcases last with last | ⟨last, -⟩
  · exact promising.fileItem last
  · exact promising.fileItem last

/-- A file is read as an outermost class. -/
theorem outermost_of_compilationUnit {node : ClassDecl}
    (h : compilationUnit.Reads tokens node rest skipped) : node.inner = false := by
  obtain ⟨state, outer, run, found, -, built⟩ := reads_compilationUnit.1 h
  obtain ⟨-, outside, editable⟩ := (promising_of_items run).outer outer found
  rw [FileState.attachFile_eq state outside editable] at built
  obtain rfl := Except.ok.inj built
  exact outside

/-- A file is read as a class that obeys the rules. -/
theorem sound_of_compilationUnit {node : ClassDecl}
    (h : compilationUnit.Reads tokens node rest skipped)
    (ends : (currentToken (rest.dropWhile Token.isWhitespace)).isEnd = true) : node.Sound := by
  obtain ⟨state, outer, run, found, clean, built⟩ := reads_compilationUnit.1 h
  have promising := promising_of_items run
  obtain ⟨sound, outside, editable⟩ := promising.outer outer found
  rw [FileState.attachFile_eq state outside editable] at built
  obtain rfl := Except.ok.inj built
  have silent : ¬ Announces rest := by
    have kind : (currentToken (rest.dropWhile Token.isWhitespace)).kind = .eof := by
      simpa [Token.isEnd] using ends
    rw [Announces, ← significantFrom_dropWhile, significantFrom_zero_eq,
      dropWhile_of_current
        (by simp [Token.isTrivia, Token.isWhitespace, Token.isPlainComment, kind])]
    simp [Token.keyword?, kind]
  have inner : ∀ {p : Prop}, outer.inner = true → p := fun inner => by simp [outside] at inner
  refine ⟨⟨sound.plain, inner⟩, fun doc => ?_, promising.trailing, inner, sound.members⟩
  have plain := any_toList promising.waiting
  rcases promising.header (by simpa only [List.any_append, plain, Bool.or_false] using doc) with
    package | imports | disordered | announces
  · exact .inl package
  · exact .inr imports
  · exact absurd clean disordered
  · exact absurd announces silent

end Reading

/-- Whatever is read from a file obeys the rules. -/
theorem sound_of_parseText {name source : Text} {node : ClassDecl}
    (h : Entry.file.parseText name source = .ok node) : node.Sound := by
  obtain ⟨tokens, rest, skipped, -, reads, ends⟩ := exists_reads_of_parseText h
  exact Reading.sound_of_compilationUnit reads ends

/-! ### Classes that come about by changes -/

/-- However a class that was built or read is changed, what every change asks for holds of it. The
rules hold of it as long as every change fits, and the first one that does not breaks them. -/
theorem ClassDecl.rules_survive {node node' : ClassDecl}
    (origin : (∃ draft : ClassDraft, draft.build = .ok node) ∨
      ∃ name source, Entry.file.parseText name source = .ok node) :
    (Relation.ReflTransGen Edited node node' → node'.Guarded) ∧
    (Relation.ReflTransGen FitlyEdited node node' → node'.Sound ∧
      ∀ (edit : ClassEdit) after, edit.apply node' = .ok after →
        (after.Sound ↔ edit.Fits node')) := by
  have sound : node.Sound := by
    rcases origin with ⟨draft, built⟩ | ⟨name, source, parsed⟩
    · exact ClassDraft.sound_of_build built
    · exact sound_of_parseText parsed
  refine ⟨sound.toGuarded.edited, fun edits => ?_⟩
  have kept := sound.edited edits
  exact ⟨kept, fun edit after made => kept.apply_iff made⟩

/-- A class of a name alone. -/
def bareSample (name : Text) : ClassDraft where
  name := some name

/-- A class that is not an inner one is added as a member, which the rules forbid. -/
theorem ClassDecl.rules_survive_bareSample :
    ∃ node other after, (bareSample ['A']).build = .ok node ∧
      (bareSample ['B']).build = .ok other ∧
      (ClassEdit.member (.ofClass other)).apply node = .ok after ∧
      after.Guarded ∧ ¬ after.Sound := by
  have built : (bareSample ['A']).build = .ok (bareSample ['A']).node :=
    settle_eq_ok_iff.2 ⟨by decide, rfl⟩
  have built' : (bareSample ['B']).build = .ok (bareSample ['B']).node :=
    settle_eq_ok_iff.2 ⟨by decide, rfl⟩
  have made := @ClassEdit.apply_eq_ok_iff (bareSample ['A']).node _
    (.member (.ofClass (bareSample ['B']).node)) |>.2 ⟨rfl, trivial, rfl⟩
  refine ⟨_, _, _, built, built', made, ?_, fun sound => ?_⟩
  · exact (rules_survive (.inl ⟨_, built⟩)).1 (.single ⟨_, made⟩)
  · obtain ⟨-, fits⟩ := (rules_survive (.inl ⟨_, built⟩)).2 .refl
    have inner : (bareSample ['B']).node.inner = true := (fits _ _ made).1 sound
    cases inner

end JavaUnit
