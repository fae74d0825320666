/-
Module: JavaUnit.Proofs.Stepping
Purpose: Members that are read one after another. A text that reads as a member on its own does so
  in a row of such texts with blank lines between them as well: no declaration looks further than
  its semicolon or its closing brace, and no comment is taken by what stands behind a blank line.
  What looks across blank lines is the search for a static block: it passes over comments, and the
  block has no place for those. So the steps stop short exactly where comments stand in front of a
  static block, although a class with such members is read.
Main exports: Reading.ReadsMember, Reading.reads_member, Alone, Row, stepped, Row.memberSteps,
  memberSteps_join
-/
import JavaUnit.Proofs.FileText
import JavaUnit.Proofs.Lookahead

namespace JavaUnit

/-! ### Reading one member -/

/-- Whether a static block begins behind white space and comments. -/
def blockAhead (tokens : List Token) : Bool :=
  (currentToken (significantFrom 0 tokens)).keyword? = some .static
    && (currentToken (significantFrom 1 tokens)).kind = .openBrace

/-- Whether a comment stands here that no declaration behind it takes. -/
def commentAhead (tokens : List Token) : Bool :=
  (currentToken tokens).isPlainComment && !precedesDeclaration true (tokens.drop 1)

theorem blockAhead_cons {token : Token} (trivia : token.isTrivia = true) (tokens : List Token) :
    blockAhead (token :: tokens) = blockAhead tokens := by
  simp [blockAhead, significantFrom, trivia]

theorem blockAhead_append {blanks : List Token} (blank : ∀ token ∈ blanks, token.isTrivia = true)
    (tokens : List Token) : blockAhead (blanks ++ tokens) = blockAhead tokens := by
  induction blanks with
  | nil => rfl
  | cons token others ih =>
      rw [List.cons_append, blockAhead_cons (blank token List.mem_cons_self),
        ih fun token mem => blank token (List.mem_cons_of_mem _ mem)]

/-- Looking for a static block ends where a statement does. -/
theorem Closed.blockAhead_append {front : List Token} (closed : Closed front) (x y : List Token) :
    blockAhead (front ++ x) = blockAhead (front ++ y) := by
  obtain ⟨first, same, second⟩ := peek_append closed.any
  simp only [blockAhead, same]
  by_cases ends : first.closes = true
  · have other : first.keyword? ≠ some .static := by
      rcases Token.closes_iff.1 ends with kind | kind | kind | kind | kind <;>
        simp [kind, Token.keyword?]
    simp [other]
  · obtain ⟨second, same'⟩ := second (by simpa using ends)
    rw [same', same']

theorem Closed.commentAhead_append {front : List Token} (closed : Closed front)
    (x y : List Token) : commentAhead (front ++ x) = commentAhead (front ++ y) := by
  obtain ⟨token, others, rfl⟩ := List.exists_cons_of_ne_nil closed.ne_nil
  by_cases plain : token.isPlainComment = true
  · have later : others.any Token.closes = true := by
      have any := closed.any
      rwa [List.any_cons, Token.closes_eq_false_of_isTrivia (Token.isTrivia_iff.2 (.inr plain)),
        Bool.false_or] at any
    have same := Reading.precedesDeclaration_append later true x y
    simp [commentAhead, currentToken, same]
  · simp [commentAhead, currentToken, plain]

namespace Reading

/-- What is read as a member of a class behind white space. -/
inductive ReadsMember (here : List Token) : Member → List Token → List Token → Prop where
  | staticBlock {node rest skipped} (block : blockAhead here = true)
      (reads : Reading.staticBlock.Reads here node rest skipped) :
      ReadsMember here (.staticBlock node) rest skipped
  | comment {node rest skipped} (noBlock : blockAhead here = false)
      (alone : commentAhead here = true) (reads : Reading.comment.Reads here node rest skipped) :
      ReadsMember here (.comment node) rest skipped
  | declared {declared rest skipped} (noBlock : blockAhead here = false)
      (noComment : commentAhead here = false)
      (reads : (preface >>= fun preface => declaration preface true).Reads here declared rest
        skipped) :
      ReadsMember here declared.toMember rest skipped

variable {tokens here rest skipped : List Token} {x y : List Token} {node : Member}

theorem reads_bind_pure {reading : Reading α} {f : α → β} {result : β} :
    (reading >>= fun value => pure (f value)).Reads tokens result rest skipped ↔
      ∃ value, result = f value ∧ reading.Reads tokens value rest skipped := by
  rw [reads_bind]
  constructor
  · rintro ⟨value, mid, first, second, one, two, rfl⟩
    obtain ⟨rfl, rfl, rfl⟩ := reads_pure.1 two
    exact ⟨value, rfl, by rwa [List.append_nil]⟩
  · rintro ⟨value, rfl, reads⟩
    exact ⟨value, rest, skipped, [], reads, reads_pure.2 ⟨rfl, rfl, rfl⟩, by simp⟩

theorem reads_member :
    member.Reads tokens node rest skipped ↔
      ReadsMember (tokens.dropWhile Token.isWhitespace) node rest skipped := by
  have led : ∀ {here}, (preface >>= fun preface => declaration preface true >>= fun declared =>
      pure declared.toMember).Reads here node rest skipped ↔
      ∃ declared, node = declared.toMember ∧
        (preface >>= fun preface => declaration preface true).Reads here declared rest skipped := by
    intro here
    constructor
    · intro reads
      obtain ⟨start, mid, first, second, one, both, rfl⟩ := reads_bind.1 reads
      obtain ⟨declared, rfl, two⟩ := reads_bind_pure.1 both
      exact ⟨declared, rfl, reads_bind.2 ⟨start, mid, first, second, one, two, rfl⟩⟩
    · rintro ⟨declared, rfl, reads⟩
      obtain ⟨start, mid, first, second, one, two, rfl⟩ := reads_bind.1 reads
      exact reads_bind.2
        ⟨start, mid, first, second, one, reads_bind_pure.2 ⟨declared, rfl, two⟩, rfl⟩
  rw [member, reads_skipWhitespace_bind, reads_atStaticBlock_bind, reads_ite, reads_bind_pure,
    reads_current_bind, reads_left_bind, reads_ite, reads_bind_pure, led]
  generalize tokens.dropWhile Token.isWhitespace = here
  change blockAhead here = true ∧ _ ∨ ¬ blockAhead here = true ∧ (commentAhead here = true ∧ _ ∨
    ¬ commentAhead here = true ∧ _) ↔ _
  simp only [Bool.not_eq_true]
  constructor
  · rintro (⟨block, node, rfl, reads⟩ | ⟨noBlock, ⟨alone, node, rfl, reads⟩ |
      ⟨noComment, declared, rfl, reads⟩⟩)
    · exact .staticBlock block reads
    · exact .comment noBlock alone reads
    · exact .declared noBlock noComment reads
  · intro h
    cases h with
    | staticBlock block reads => exact .inl ⟨block, _, rfl, reads⟩
    | comment noBlock alone reads => exact .inr ⟨noBlock, .inl ⟨alone, _, rfl, reads⟩⟩
    | declared noBlock noComment reads => exact .inr ⟨noBlock, .inr ⟨noComment, _, rfl, reads⟩⟩

theorem steady_preface : Steady x y Preface.Alike preface preface := by
  have documented : ∀ start start' : Preface, start.Alike start' →
      Steady x y Preface.Alike
        (do
          if (← current).kind = .docComment then
            return { start with javadoc := some (← javadoc) }
          else
            return start : Reading Preface)
        (do
          if (← current).kind = .docComment then
            return { start' with javadoc := some (← javadoc) }
          else
            return start' : Reading Preface) := by
    intro start start' alike
    refine .current fun token => .ite (fun _ => ?_) fun _ => steady_pure alike
    exact steady_javadoc.bind fun node => steady_pure (by rw [alike]; rfl)
  refine steady_skipWhitespace.bind fun _ => ?_
  refine steady_emptyPreface.bind_of fun start start' alike => ?_
  refine .current fun token => .ite (fun _ => ?_) fun _ => ?_
  · refine steady_comment.bind fun node => steady_skipWhitespace.bind fun _ => ?_
    exact (steady_pure (by rw [alike]; rfl)).bind_of documented
  · exact (steady_pure alike).bind_of documented

/-- A member that is no comment is read up to its last token, whatever stands behind it. -/
theorem ReadsMember.swap {passed : List Token} (h : ReadsMember (passed ++ x) node x skipped)
    (code : node.kind ≠ .comment) (y : List Token) :
    Closed passed ∧ ReadsMember (passed ++ y) node y skipped := by
  cases h with
  | staticBlock block reads =>
      obtain ⟨closed, _, rfl, reads'⟩ := @ends_staticBlock x y passed [] _ _ reads
      exact ⟨closed, .staticBlock (closed.blockAhead_append x y ▸ block) reads'⟩
  | comment => exact absurd rfl code
  | declared noBlock noComment reads =>
      have ends : Ends x y Eq (preface >>= fun preface => declaration preface true)
          (preface >>= fun preface => declaration preface true) :=
        steady_preface.ends_of (fun preface => ⟨preface, .refl preface⟩)
          fun _ _ alike => ends_declaration alike true
      obtain ⟨closed, _, rfl, reads'⟩ := @ends passed [] _ _ reads
      exact ⟨closed, .declared (closed.blockAhead_append x y ▸ noBlock)
        (closed.commentAhead_append x y ▸ noComment) reads'⟩

/-- No static block is read from a comment on. -/
theorem not_reads_staticBlock {token : Token} (plain : token.isPlainComment = true)
    {block : StaticBlock} : ¬ staticBlock.Reads (token :: tokens) block rest skipped := by
  have ink : token.isWhitespace = false :=
    isWhitespace_eq_false_of_isComment (by simp [Token.isComment, plain])
  intro reads
  rw [staticBlock, reads_scopeHere_bind, List.dropWhile_cons, if_neg (by simp [ink]),
    reads_finish] at reads
  obtain ⟨-, attempt, reads, -⟩ := reads
  obtain ⟨first, mid, passed, later, -, passes, -, none⟩ :=
    (reads_expect_bind (.keyword .static) (by decide)).1 reads
  obtain rfl := (List.append_eq_nil_iff.1 none.symm).1
  cases passes with
  | token matters => simp [Token.isTrivia, plain] at matters
  | whitespace blank => simp [ink] at blank

end Reading

/-! ### Members in a row of tokens -/

/-- The tokens of a member without white space at either end: a comment, or code that is read
whatever stands behind it. -/
inductive Alone : List Token → Member → Prop where
  | comment {token : Token} {draft : CommentDraft} {node : Comment}
      (plain : token.isPlainComment = true) (draws : commentDraft? token = some draft)
      (built : draft.build = .ok node) : Alone [token] (.comment node)
  | code {tokens skipped : List Token} {node : Member} (code : node.kind ≠ .comment)
      (closed : Closed tokens) (ink : (currentToken tokens).isWhitespace = false)
      (inside : (currentToken tokens).isEnd = false)
      (reads : ∀ behind, Reading.ReadsMember (tokens ++ behind) node behind skipped) :
      Alone tokens node

/-- The tokens of members in a row, with white space between them. No comment is taken by what
stands behind it. -/
inductive Row : List Member → List Token → Prop where
  | last {node : Member} {blanks core rest : List Token}
      (blank : ∀ token ∈ blanks, token.isWhitespace = true) (alone : Alone core node)
      (finished : isFinished rest = true) : Row [node] (blanks ++ (core ++ rest))
  | cons {node : Member} {nodes : List Member} {blanks core rest : List Token}
      (blank : ∀ token ∈ blanks, token.isWhitespace = true) (alone : Alone core node)
      (apart : precedesDeclaration true rest = false) (row : Row nodes rest) :
      Row (node :: nodes) (blanks ++ (core ++ rest))

/-- Whether a static block comes next, comments in front of it aside. -/
def blockNext : List Member → Bool
  | .staticBlock _ :: _ => true
  | .comment _ :: rest => blockNext rest
  | _ => false

/-- The members up to the first comment that stands in front of a static block, with at most other
comments in between. -/
def stepped : List Member → List Member
  | [] => []
  | node :: rest => if node.kind = .comment ∧ blockNext rest then [] else node :: stepped rest

namespace Alone

variable {core : List Token} {node : Member}

theorem exists_last (h : Alone core node) :
    ∃ token, core.getLast? = some token ∧ token.isWhitespace = false := by
  cases h with
  | @comment token _ _ _ draws =>
      have comment := Reading.isComment_of_commentDraft? draws
      exact ⟨token, rfl, Reading.isWhitespace_eq_false_of_isComment comment⟩
  | code _ closed =>
      obtain ⟨token, last, closes⟩ := (Option.any_eq_true _ _).1 closed
      refine ⟨token, last, ?_⟩
      rcases Token.closes_iff.1 closes with kind | kind | kind | kind | kind <;>
        simp [Token.isWhitespace, kind]

theorem ne_nil (h : Alone core node) : core ≠ [] := by
  rintro rfl
  obtain ⟨_, last, -⟩ := h.exists_last
  cases last

/-- A member begins with a token that is neither white space nor the end. -/
theorem currentToken_spec (h : Alone core node) :
    (currentToken core).isWhitespace = false ∧ (currentToken core).isEnd = false := by
  cases h with
  | comment _ draws =>
      have comment := Reading.isComment_of_commentDraft? draws
      exact ⟨Reading.isWhitespace_eq_false_of_isComment comment,
        Reading.isEnd_eq_false_of_isComment comment⟩
  | code _ _ ink inside => exact ⟨ink, inside⟩

theorem dropWhile_eq (h : Alone core node) {blanks : List Token}
    (blank : ∀ token ∈ blanks, token.isWhitespace = true) (rest : List Token) :
    (blanks ++ (core ++ rest)).dropWhile Token.isWhitespace = core ++ rest := by
  obtain ⟨token, others, rfl⟩ := List.exists_cons_of_ne_nil h.ne_nil
  have ink : token.isWhitespace = false := h.currentToken_spec.1
  rw [List.dropWhile_append_of_pos blank, List.cons_append,
    List.dropWhile_cons_of_neg (by simp [ink])]

end Alone

/-- A member is read behind white space, unless it is a comment and the search for a static block
finds one behind it. -/
theorem Alone.exists_reads {core : List Token} {node : Member} (h : Alone core node)
    {blanks rest : List Token} (blank : ∀ token ∈ blanks, token.isWhitespace = true)
    (apart : precedesDeclaration true rest = false)
    (noBlock : node.kind = .comment → blockAhead rest = false) :
    ∃ skipped, Reading.member.Reads (blanks ++ (core ++ rest)) node rest skipped := by
  have behind := h.dropWhile_eq blank rest
  have ink := h.currentToken_spec.1
  cases h with
  | @comment token draft node plain draws built =>
      refine ⟨[], Reading.reads_member.2 ?_⟩
      rw [behind]
      have here : (token :: rest).dropWhile Token.isWhitespace = token :: rest :=
        List.dropWhile_cons_of_neg (by simpa [currentToken] using ink)
      refine .comment ?_ ?_ (Reading.reads_comment.2 ⟨rfl, token, draft, here, draws, built⟩)
      · exact (blockAhead_cons (Token.isTrivia_iff.2 (.inr plain)) rest).trans (noBlock rfl)
      · simp [commentAhead, currentToken, plain, apart]
  | @code _ skipped _ _ _ _ _ reads =>
      refine ⟨skipped, Reading.reads_member.2 ?_⟩
      rw [behind]
      exact reads rest

/-- A comment is not read where a static block is found behind it, and nothing else is. -/
theorem Alone.not_reads {core : List Token} {node value : Member} (h : Alone core node)
    {blanks rest left skipped : List Token} (blank : ∀ token ∈ blanks, token.isWhitespace = true)
    (comment : node.kind = .comment) (block : blockAhead rest = true) :
    ¬ Reading.member.Reads (blanks ++ (core ++ rest)) value left skipped := by
  intro reads
  have here := Reading.reads_member.1 reads
  rw [h.dropWhile_eq blank] at here
  cases h with
  | code code => exact code comment
  | comment plain =>
      have found := (blockAhead_cons (Token.isTrivia_iff.2 (.inr plain)) rest).trans block
      cases here with
      | staticBlock _ reads => exact Reading.not_reads_staticBlock plain reads
      | comment noBlock | declared noBlock => exact Bool.false_ne_true (noBlock.symm.trans found)

/-- What is found behind a member does not matter unless the member is a comment. -/
theorem Alone.blockAhead_eq {core : List Token} {node : Member} (h : Alone core node)
    {nodes : List Member} {rest : List Token} (behind : blockAhead rest = blockNext nodes) :
    blockAhead (core ++ rest) = blockNext (node :: nodes) := by
  cases h with
  | comment plain => exact (blockAhead_cons (Token.isTrivia_iff.2 (.inr plain)) rest).trans behind
  | code code _ _ _ reads =>
      cases reads rest with
      | staticBlock block => exact block
      | comment => exact absurd rfl code
      | @declared declared _ _ noBlock =>
          rw [noBlock]
          cases declared <;> rfl

/-! ### The end of a row -/

theorem startsDeclaration_eq_false {token : Token}
    (h : token.isWhitespace = true ∨ token.isEnd = true) (inBody : Bool) :
    startsDeclaration inBody token = false := by
  have kinds : token.kind = .whitespace ∨ token.kind = .eof := by
    simpa [Token.isWhitespace, Token.isEnd] using h
  rcases kinds with kind | kind <;> simp [startsDeclaration, kind]

theorem blockAhead_of_isFinished {tokens : List Token} (finished : isFinished tokens = true) :
    blockAhead tokens = false := by
  rw [← List.takeWhile_append_dropWhile (p := Token.isWhitespace) (l := tokens),
    blockAhead_append fun token mem =>
      Token.isTrivia_iff.2 (.inl (List.all_eq_true.1 List.all_takeWhile token mem))]
  rw [isFinished] at finished
  cases behind : tokens.dropWhile Token.isWhitespace with
  | nil => rfl
  | cons token rest =>
      rw [behind] at finished
      have kind : token.kind = .eof := of_decide_eq_true finished
      simp [blockAhead, significantFrom, Token.isTrivia, Token.isWhitespace, Token.isPlainComment,
        currentToken, Token.keyword?, kind]

theorem precedesDeclaration_of_isFinished {tokens : List Token}
    (finished : isFinished tokens = true) : precedesDeclaration true tokens = false := by
  cases tokens with
  | nil => rfl
  | cons token rest =>
      rw [precedesDeclaration]
      by_cases blank : token.isWhitespace = true
      · rw [if_pos blank, Bool.and_eq_false_iff]
        refine .inr ?_
        rw [isFinished, List.dropWhile_cons_of_pos blank] at finished
        cases rest with
        | nil => rfl
        | cons next later =>
            refine startsDeclaration_eq_false ?_ true
            by_cases blank' : next.isWhitespace = true
            · exact .inl blank'
            · rw [List.dropWhile_cons_of_neg blank'] at finished
              exact .inr finished
      · rw [if_neg blank]
        rw [isFinished, List.dropWhile_cons_of_neg blank] at finished
        exact startsDeclaration_eq_false (.inr finished) true

/-! ### Stepping through a row -/

theorem memberSteps_of_read {tokens rest : List Token} {node : Member}
    (read : Entry.member.read tokens = .ok (node, rest)) :
    memberSteps tokens =
      if isFinished rest then ([(node, rest)], none)
      else if rest.length < tokens.length then
        ((node, rest) :: (memberSteps rest).1, (memberSteps rest).2)
      else ([(node, rest)], none) := by
  rw [memberSteps, read]

theorem memberSteps_of_error {tokens : List Token} {failure : Failure}
    (read : Entry.member.read tokens = .error failure) :
    memberSteps tokens = ([], some failure) := by
  rw [memberSteps, read]

namespace Row

variable {nodes : List Member} {tokens : List Token}

theorem isFinished_eq_false (h : Row nodes tokens) : isFinished tokens = false := by
  cases h with
  | last blank alone | cons blank alone =>
      rw [isFinished, alone.dropWhile_eq blank, currentToken_append alone.ne_nil]
      exact alone.currentToken_spec.2

/-- A static block is found behind comments. -/
theorem blockAhead_eq (h : Row nodes tokens) : blockAhead tokens = blockNext nodes := by
  have trivia : ∀ {blanks : List Token}, (∀ token ∈ blanks, token.isWhitespace = true) →
      ∀ token ∈ blanks, token.isTrivia = true :=
    fun blank token mem => Token.isTrivia_iff.2 (.inl (blank token mem))
  induction h with
  | last blank alone finished =>
      rw [blockAhead_append (trivia blank)]
      exact alone.blockAhead_eq (blockAhead_of_isFinished finished)
  | cons blank alone _ _ ih =>
      rw [blockAhead_append (trivia blank)]
      exact alone.blockAhead_eq ih

/-- Stepping through members in a row gives them one by one, up to the first comment in front of a
static block, which cannot be read. -/
theorem memberSteps (h : Row nodes tokens) :
    (memberSteps tokens).1.map Prod.fst = stepped nodes ∧
      ((JavaUnit.memberSteps tokens).2 = none ↔ stepped nodes = nodes) := by
  induction h with
  | @last node blanks core rest blank alone finished =>
      obtain ⟨skipped, reads⟩ := alone.exists_reads blank
        (precedesDeclaration_of_isFinished finished)
        fun _ => blockAhead_of_isFinished finished
      have steps := memberSteps_of_read (Entry.read_eq_ok_iff.2 ⟨skipped, reads⟩)
      rw [steps, if_pos finished]
      simp [stepped, blockNext]
  | @cons node nodes blanks core rest blank alone apart row ih =>
      by_cases lost : node.kind = .comment ∧ blockNext nodes = true
      · -- the step begins at the comment and finds the static block, which has no place for it
        rw [stepped, if_pos lost]
        cases read : Entry.member.read (blanks ++ (core ++ rest)) with
        | ok result =>
            obtain ⟨skipped, reads⟩ := Entry.read_eq_ok_iff.1 read
            exact absurd reads (alone.not_reads blank lost.1 (row.blockAhead_eq.trans lost.2))
        | error failure =>
            rw [memberSteps_of_error read]
            simp
      · have noBlock : node.kind = .comment → blockAhead rest = false := by
          intro comment
          rw [row.blockAhead_eq]
          simpa [comment] using lost
        obtain ⟨skipped, reads⟩ := alone.exists_reads blank apart noBlock
        have steps := memberSteps_of_read (Entry.read_eq_ok_iff.2 ⟨skipped, reads⟩)
        have shorter : rest.length < (blanks ++ (core ++ rest)).length := by
          have some := List.length_pos_iff.2 alone.ne_nil
          simp only [List.length_append]
          omega
        rw [row.isFinished_eq_false, if_neg Bool.false_ne_true, if_pos shorter] at steps
        rw [steps, stepped, if_neg lost, List.map_cons, ih.1, ih.2]
        simp

end Row

/-! ### Members in a row of texts -/

/-- Tokens that a member is read from begin with white space; the member is alone behind it. -/
theorem exists_alone {tokens rest skipped : List Token} {node : Member}
    (h : Reading.member.Reads tokens node rest skipped) :
    ∃ core, tokens.dropWhile Token.isWhitespace = core ++ rest ∧ Alone core node ∧
      ∀ token ∈ core, token.isEnd = false := by
  have here := Reading.reads_member.1 h
  have ink := Reading.isWhitespace_of_dropWhile tokens
  obtain ⟨core, split, inside⟩ : Advances (tokens.dropWhile Token.isWhitespace) rest := by
    cases here with
    | staticBlock _ reads | comment _ _ reads | declared _ _ reads => exact reads.advances
  rw [split] at here ink
  refine ⟨core, split, ?_, inside⟩
  by_cases comment : node.kind = .comment
  · cases here with
    | staticBlock => cases comment
    | @comment node _ _ noBlock alone reads =>
        obtain ⟨-, token, draft, behind, draws, built⟩ := Reading.reads_comment.1 reads
        rw [Reading.dropWhile_of_current ink] at behind
        obtain rfl : core = [token] := by
          rwa [← List.singleton_append, List.append_cancel_right_eq] at behind
        have plain := (Bool.and_eq_true_iff.1 alone).1
        exact .comment plain draws built
    | @declared declared => cases declared <;> cases comment
  · obtain ⟨closed, -⟩ := here.swap comment []
    rw [currentToken_append closed.ne_nil] at ink
    obtain ⟨token, others, rfl⟩ := List.exists_cons_of_ne_nil closed.ne_nil
    exact .code comment closed ink (inside token List.mem_cons_self)
      fun behind => (here.swap comment behind).2

/-- The tokens of a member are the same if lines follow. -/
theorem Alone.cuts_append {core : List Token} {node : Member} (h : Alone core node)
    {text trail more : Text} (cuts : Cuts text core trail)
    (feed : more.head?.all (· = '\n') = true) :
    Cuts (textOf core ++ (trail ++ more)) core (trail ++ more) := by
  have separated : Separated more := by
    cases more with
    | nil => rfl
    | cons c rest =>
        obtain rfl : c = '\n' := by simpa using feed
        exact separated_cons.2 (by decide)
  have alike : Alike trail (trail ++ more) := by
    have behind : Alike [] more := .of_separated separated_nil separated
    simpa using behind.append trail
  refine cuts.swap alike fun token last => ⟨fun kind => ?_, fun kind => ?_⟩
  · have ends := (cuts.head_of_getLast? last).1 kind
    cases trail with
    | nil =>
        cases more with
        | nil => rfl
        | cons c rest =>
            obtain rfl : c = '\n' := by simpa using feed
            rfl
    | cons => exact ends
  · obtain ⟨_, last', ink⟩ := h.exists_last
    obtain rfl := Option.some.inj (last.symm.trans last')
    simp [Token.isWhitespace, kind] at ink

/-- A text that reads as a member is the text of the member's tokens with white space around it. -/
theorem exists_around_of_parseText {name text : Text} {node : Member}
    (h : Entry.member.parseText name text = .ok node) :
    ∃ lead core trail, text = lead ++ (textOf core ++ trail) ∧ Text.isBlank lead = true ∧
      Text.isBlank trail = true ∧ Alone core node ∧ Cuts (textOf core ++ trail) core trail := by
  obtain ⟨tokens, rest, skipped, lexed, reads, finished⟩ := exists_reads_of_parseText h
  obtain ⟨core, split, alone, inside⟩ := exists_alone reads
  rw [lex_eq_ok_iff, ← List.takeWhile_append_dropWhile (p := Token.isWhitespace) (l := tokens),
    split] at lexed
  obtain ⟨lead, trail, whole, blank, blank', cuts⟩ := lexed.exists_around
    (fun token mem => List.all_eq_true.1 List.all_takeWhile token mem) inside finished
  exact ⟨lead, core, trail, whole, blank, blank', alone, cuts⟩

theorem Alone.cuts_blanks {core : List Token} {node : Member} (h : Alone core node)
    {blanks text rest : Text} (blank : blanks.isBlank = true) (cuts : Cuts text core rest) :
    Cuts (blanks ++ text) (blankTokens blanks ++ core) rest :=
  (JavaUnit.cuts_blanks blank (cuts.head_of_ink h.ne_nil h.currentToken_spec.1)).append cuts

/-- No declaration is looked for behind a blank line. -/
theorem precedesDeclaration_blanks {blanks : Text} (lines : 2 ≤ blanks.count '\n') (lead : Text)
    (rest : List Token) :
    precedesDeclaration true (blankTokens (blanks ++ lead) ++ rest) = false := by
  have some : blanks ++ lead ≠ [] := by
    intro none
    rw [(List.append_eq_nil_iff.1 none).1] at lines
    cases lines
  rw [blankTokens, if_neg some, List.singleton_append, precedesDeclaration]
  simp only [Token.isWhitespace, decide_true, if_true, List.count_append]
  rw [decide_eq_false (by omega), Bool.false_and]

/-- Texts that each read as a member, with blank lines between them, are members in a row. -/
theorem exists_row {name : Text} {texts : List Text} {nodes : List Member}
    (each : List.Forall₂ (fun text node => Entry.member.parseText name text = .ok node) texts nodes)
    (some : nodes ≠ []) {blanks : Text} (blank : blanks.isBlank = true) :
    ∃ tokens, Cuts (blanks ++ Text.join "\n\n".toList texts) tokens [] ∧
      Row nodes (tokens ++ [Token.endOfInput]) ∧
      (2 ≤ blanks.count '\n' →
        precedesDeclaration true (tokens ++ [Token.endOfInput]) = false) := by
  -- the white space in front is what the text before leaves over, with the blank line behind it
  induction each generalizing blanks with
  | nil => exact absurd rfl some
  | @cons text node texts nodes parsed others ih =>
      obtain ⟨lead, core, trail, rfl, leads, trails, alone, cuts⟩ :=
        exists_around_of_parseText parsed
      have before : Text.isBlank (blanks ++ lead) = true := by
        rw [Text.isBlank_append, blank, leads]
        rfl
      have white : ∀ {blanks : Text}, ∀ token ∈ blankTokens blanks, token.isWhitespace = true :=
        fun _ mem => isWhitespace_of_mem_blankTokens mem
      cases others with
      | nil =>
          have own := alone.cuts_blanks before cuts
          have behind : Cuts trail (blankTokens trail) [] := by
            simpa using cuts_blanks trails (show ([] : Text).head?.all (!isBlank ·) = true from rfl)
          refine ⟨blankTokens (blanks ++ lead) ++ (core ++ blankTokens trail), ?_, ?_, ?_⟩
          · simpa [Text.join] using own.append behind
          · rw [List.append_assoc, List.append_assoc]
            refine .last white alone ?_
            rw [isFinished, List.dropWhile_append_of_pos white]
            rfl
          · rw [List.append_assoc]
            exact fun lines => precedesDeclaration_blanks lines lead _
      | @cons text' node' texts nodes parsed' others' =>
          have blank' : Text.isBlank (trail ++ "\n\n".toList) = true := by
            rw [Text.isBlank_append, trails]
            rfl
          obtain ⟨tokens, later, row, apart⟩ := ih (List.cons_ne_nil _ _) blank'
          have apart := apart (by rw [List.count_append]; exact Nat.le_add_left 2 _)
          rw [List.append_assoc] at later
          have own := alone.cuts_blanks before (alone.cuts_append cuts
            (show ("\n\n".toList ++ Text.join "\n\n".toList (text' :: texts)).head?.all
              (· = '\n') = true from rfl))
          refine ⟨blankTokens (blanks ++ lead) ++ (core ++ tokens), ?_, ?_, ?_⟩
          · simpa [Text.join, List.intercalate_cons_cons] using own.append later
          · rw [List.append_assoc, List.append_assoc]
            exact .cons white alone apart row
          · rw [List.append_assoc]
            exact fun lines => precedesDeclaration_blanks lines lead _

/-- Texts that each read as a member are stepped through where they stand in a row with blank lines
between them: the steps give their members one by one, up to the first comment in front of a static
block. So they reach the end exactly if there is no such comment. -/
theorem memberSteps_join {name : Text} {texts : List Text} {nodes : List Member}
    (each : List.Forall₂ (fun text node => Entry.member.parseText name text = .ok node) texts nodes)
    (some : nodes ≠ []) :
    ∃ tokens, lex (Text.join "\n\n".toList texts) = .ok tokens ∧
      (memberSteps tokens).1.map Prod.fst = stepped nodes ∧
      ((memberSteps tokens).2 = none ↔ stepped nodes = nodes) := by
  obtain ⟨tokens, cuts, row, -⟩ := exists_row each some (show Text.isBlank [] = true from rfl)
  exact ⟨tokens ++ [Token.endOfInput], lex_eq_ok_iff.2 (cuts.lexed .nil), row.memberSteps⟩

/-- The comment and the static block read on their own, but stepping stops at the field. -/
theorem memberSteps_join_blocked :
    ∃ field tokens, Entry.member.parseText [] "int x;".toList = .ok field ∧
      lex "int x;\n\n// c\n\nstatic \x7b \x7d".toList = .ok tokens ∧
      (memberSteps tokens).1.map Prod.fst = [field] ∧ (memberSteps tokens).2 ≠ none := by
  have reads : ["int x;".toList, "// c".toList, "static \x7b \x7d".toList].map
      (fun text => (Entry.member.parseText [] text).toOption.map Member.kind) =
        [some .field, some .comment, some .staticBlock] := by
    decide +kernel
  simp only [List.map_cons, List.map_nil, List.cons.injEq, Option.map_eq_some_iff] at reads
  obtain ⟨⟨field, first, plain⟩, ⟨comment, second, isComment⟩, ⟨block, third, isBlock⟩, -⟩ := reads
  have each : List.Forall₂ (fun text node => Entry.member.parseText [] text = .ok node)
      ["int x;".toList, "// c".toList, "static \x7b \x7d".toList] [field, comment, block] :=
    .cons (eq_ok_of_toOption first) (.cons (eq_ok_of_toOption second)
      (.cons (eq_ok_of_toOption third) .nil))
  obtain ⟨tokens, lexed, steps, ends⟩ := memberSteps_join each (List.cons_ne_nil _ _)
  have stops : stepped [field, comment, block] = [field] := by
    cases block with
    | staticBlock => simp [stepped, plain, isComment, blockNext]
    | field | method | classDecl | comment => cases isBlock
  refine ⟨field, tokens, eq_ok_of_toOption first, lexed, steps.trans stops, fun none => ?_⟩
  have whole := ends.1 none
  rw [stops] at whole
  cases whole

end JavaUnit
