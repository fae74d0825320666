/-
Module: JavaUnit.Proofs.TypeGrammar
Purpose: The grammar of types, as far as they are looked at: a name or a primitive type, then
  further names behind dots, groups in angle brackets, pairs of brackets, and dots at the end. What
  stands in a group is only balanced. The tokens of a type are read as its canonical spelling with
  whatever white space in front of each, and so is the spelling itself.
Main exports: AngleTokens, TypeTokens, SpelledAs, Reading.takes_type, Reading.takes_typeList,
  Reading.takes_typeParameters
-/
import JavaUnit.Proofs.Progress
import JavaUnit.Proofs.RawText
import JavaUnit.Proofs.StatementGrammar
import JavaUnit.Proofs.Takes
import JavaUnit.Proofs.TypeText

namespace JavaUnit

/-! ### The grammar -/

/-- A balanced group in angle brackets. -/
inductive AngleTokens : List Token → Prop where
  | intro {opening inner closing} (less : opening.kind = .less)
      (matters : ∀ token ∈ inner, token.isTrivia = false ∧ token.isEnd = false)
      (balanced : through Reading.insideAngles 1 inner = some 1)
      (greater : closing.kind = .greater) : AngleTokens (opening :: (inner ++ [closing]))

/-- What may stand behind the first name of a type. -/
inductive TypeTail : List Token → Prop where
  | nil : TypeTail []
  | name {dot part row} (mark : dot.kind = .dot) (word : part.kind = .identifier)
      (later : TypeTail row) : TypeTail (dot :: part :: row)
  | brackets {opening closing row} (opens : opening.kind = .openBracket)
      (closes : closing.kind = .closeBracket) (later : TypeTail row) :
      TypeTail (opening :: closing :: row)
  | arguments {group row} (balanced : AngleTokens group) (later : TypeTail row) :
      TypeTail (group ++ row)
  | variadic {dots} (mark : dots.kind = .ellipsis) : TypeTail [dots]

/-- The tokens of a type. -/
inductive TypeTokens : List Token → Prop where
  | intro {first tail} (starts : Reading.startsType first = true) (parts : TypeTail tail) :
      TypeTokens (first :: tail)

/-! ### Reading -/

theorem byKind_insideAngles : ByKind Reading.insideAngles := by
  constructor
  · intro depth left right same
    rw [Reading.insideAngles, Reading.insideAngles, Reading.endsAngleGroup, Reading.endsAngleGroup,
      same]
  · intro depth token blank
    have kind : token.kind = .whitespace := by simpa [Token.isWhitespace] using blank
    simp [Reading.insideAngles, Reading.endsAngleGroup, kind]

/-- The first of some tokens with white space in front of each can be passed. -/
theorem Spread.exists_passes {token : Token} {row tokens : List Token}
    (h : Spread (token :: row) tokens) (matters : token.isTrivia = false)
    (inside : token.isEnd = false) :
    ∃ front, Spread row front ∧ ∀ later, Passes (tokens ++ later) token (front ++ later) [] := by
  cases h with
  | @cons blanks _ _ front blank spread =>
      refine ⟨front, spread, fun later => ?_⟩
      rw [List.append_assoc, List.cons_append]
      exact passes_append blank matters inside

namespace Reading

variable {scope : Scope} {tokens front later row : List Token}

theorem reads_angleGroup {group : List Token} (h : AngleTokens group) (spread : Spread group front)
    (later : List Token) : (angleGroup scope).Reads (front ++ later) group later [] := by
  obtain ⟨less, matters, balanced, greater⟩ := h
  rename_i opening inner closing
  have first : opening.isTrivia = false ∧ opening.isEnd = false := by
    simp [Token.isTrivia, Token.isWhitespace, Token.isPlainComment, Token.isEnd, less]
  obtain ⟨behind, spread, opens⟩ := spread.exists_passes first.1 first.2
  obtain ⟨inside, _, rfl, inner', closes⟩ := spread.exists_append
  cases closes with
  | @cons blanks _ _ _ blank none =>
      cases none
      have ink : inkOf (inside ++ blanks) = inner := by
        rw [inkOf_append, inner'.inkOf_eq fun token mem =>
          (Bool.or_eq_false_iff.1 (matters token mem).1).1]
        simpa [inkOf] using blank
      have each : ∀ token ∈ inside ++ blanks, token.isWhitespace = false → token ∈ inner :=
        fun token mem inked => ink ▸ List.mem_filter.2 ⟨mem, by simp [inked]⟩
      have trivia : ∀ token ∈ inside ++ blanks, token.isTrivia = token.isWhitespace := by
        intro token mem
        cases white : token.isWhitespace with
        | true => rw [Token.isTrivia, white, Bool.true_or]
        | false => exact (matters token (each token mem white)).1
      have stops : scanTokens insideAngles 1 (inside ++ blanks ++ closing :: later) =
          (inside ++ blanks, closing :: later) := by
        refine scanTokens_of_through (by rw [← byKind_insideAngles.through_inkOf, ink, balanced])
          (fun token mem => ?_) (by simp [insideAngles, greater])
        cases white : token.isWhitespace with
        | true => exact Token.isEnd_eq_false_of_isTrivia (by rw [trivia token mem, white])
        | false => exact (matters token (each token mem white)).2
      have plain : (inside ++ blanks).filter Token.isPlainComment = [] := by
        refine List.filter_eq_nil_iff.2 fun token mem comment => ?_
        have white := trivia token mem
        rw [Token.isTrivia, comment, Bool.or_true] at white
        simp [Token.isPlainComment_eq_false_of_isWhitespace white.symm] at comment
      have kept : (inside ++ blanks).filter (!·.isTrivia) = inner := by
        rw [← ink, inkOf]
        exact List.filter_congr fun token mem => by rw [trivia token mem]
      have here : inside ++ (blanks ++ [closing]) ++ later =
          inside ++ blanks ++ closing :: later := by simp
      rw [angleGroup, reads_bump_bind (opens later), here]
      refine ⟨[], ?_, rfl⟩
      rw [reads_scan_bind, stops, reads_skip_bind, plain]
      refine ⟨[], ?_, rfl⟩
      have last : closing.isEnd = false := by simp [Token.isEnd, greater]
      have current : currentToken (closing :: later) = closing := rfl
      rw [reads_advance_bind, current, if_pos greater, kept, if_neg (by simp [last])]
      exact reads_pure.2 ⟨rfl, rfl, rfl⟩

/-- What does not go on with a type. -/
def StopsType (tokens : List Token) : Prop :=
  (currentToken (significantFrom 0 tokens)).kind ∉ [.dot, .openBracket, .less, .ellipsis]

theorem reads_typePart_last {parts : List Token} (stops : StopsType tokens) :
    (typePart scope parts).Reads tokens (.last parts) tokens [] := by
  simp only [StopsType, List.mem_cons, List.not_mem_nil, or_false, not_or] at stops
  obtain ⟨dot, bracket, less, ellipsis⟩ := stops
  rw [typePart, reads_peek_bind, reads_peek_bind, if_neg (by simp [dot, bracket]), if_neg less,
    if_neg ellipsis]
  exact reads_pure.2 ⟨rfl, rfl, rfl⟩

/-- The kinds of tokens that a type goes on with are neither trivia nor the end. -/
theorem matters_of_typePart {token : Token}
    (kind : token.kind ∈ [.dot, .identifier, .openBracket, .closeBracket, .less, .ellipsis]) :
    token.isTrivia = false ∧ token.isEnd = false := by
  simp only [List.mem_cons, List.not_mem_nil, or_false] at kind
  rcases kind with kind | kind | kind | kind | kind | kind <;>
    simp [Token.isTrivia, Token.isWhitespace, Token.isPlainComment, Token.isEnd, kind]

/-- A name behind a dot or a pair of brackets goes on with a type. -/
theorem exists_typePart_pair {first second : Token} (spread : Spread (first :: second :: row) front)
    (pair : first.kind = .dot ∧ second.kind = .identifier ∨
      first.kind = .openBracket ∧ second.kind = .closeBracket) (later : List Token) :
    ∃ behind, Spread row behind ∧ (behind ++ later).length < (front ++ later).length ∧
      ∀ parts, (typePart scope parts).Reads (front ++ later) (.again (parts ++ [first, second]))
        (behind ++ later) [] := by
  have matters := @matters_of_typePart first (by
    rcases pair with ⟨kind, -⟩ | ⟨kind, -⟩ <;> simp [kind])
  have matters' := @matters_of_typePart second (by
    rcases pair with ⟨-, kind⟩ | ⟨-, kind⟩ <;> simp [kind])
  obtain ⟨mid, spread, one⟩ := spread.exists_passes matters.1 matters.2
  obtain ⟨behind, spread, two⟩ := spread.exists_passes matters'.1 matters'.2
  have one := one later
  have two := two later
  refine ⟨behind, spread, Nat.lt_trans two.length_lt one.length_lt, fun parts => ?_⟩
  rw [typePart, reads_peek_bind, reads_peek_bind, one.currentToken_zero, one.currentToken_one two,
    if_pos pair, reads_bump_bind one]
  exact ⟨[], (reads_bump_bind two).2 ⟨[], reads_pure.2 ⟨rfl, rfl, rfl⟩, rfl⟩, rfl⟩

/-- A group in angle brackets goes on with a type. -/
theorem reads_typePart_group {group : List Token} (balanced : AngleTokens group)
    (spread : Spread group front) (later parts : List Token) :
    (typePart scope parts).Reads (front ++ later) (.again (parts ++ group)) later [] ∧
      later.length < (front ++ later).length := by
  have reads := @reads_angleGroup scope _ _ balanced spread later
  obtain ⟨less, -, -, -⟩ := balanced
  rename_i opening inner closing
  have matters := @matters_of_typePart opening (by simp [less])
  obtain ⟨behind, -, passes⟩ := spread.exists_passes matters.1 matters.2
  have passes := passes later
  have shorter := passes.length_lt
  rw [List.length_append] at shorter
  refine ⟨?_, by omega⟩
  rw [typePart, reads_peek_bind, reads_peek_bind, passes.currentToken_zero, if_neg (by simp [less]),
    if_pos less]
  exact reads_bind_nil.2 ⟨_, later, reads, reads_pure.2 ⟨rfl, rfl, rfl⟩⟩

theorem reads_typeTail (h : TypeTail row) (spread : Spread row front) (stops : StopsType later)
    (parts : List Token) :
    (iterate (typePart scope) parts).Reads (front ++ later) (parts ++ row) later [] := by
  induction h generalizing front parts with
  | nil =>
      cases spread
      rw [List.append_nil]
      exact reads_iterate_last (reads_typePart_last stops)
  | name dot word _ ih =>
      obtain ⟨behind, spread, moved, one⟩ := exists_typePart_pair spread (.inl ⟨dot, word⟩) later
      simpa using reads_iterate_again (one parts) moved (ih spread _)
  | brackets opens closes _ ih =>
      obtain ⟨behind, spread, moved, one⟩ :=
        exists_typePart_pair spread (.inr ⟨opens, closes⟩) later
      simpa using reads_iterate_again (one parts) moved (ih spread _)
  | @arguments group row balanced _ ih =>
      obtain ⟨front, behind, rfl, own, spread⟩ := spread.exists_append
      obtain ⟨one, moved⟩ := @reads_typePart_group scope _ _ balanced own (behind ++ later) parts
      rw [List.append_assoc]
      simpa using reads_iterate_again one moved (ih spread _)
  | @variadic dots kind =>
      have matters := @matters_of_typePart dots (by simp [kind])
      obtain ⟨behind, spread, passes⟩ := spread.exists_passes matters.1 matters.2
      cases spread
      refine reads_iterate_last ?_
      rw [typePart, reads_peek_bind, reads_peek_bind, (passes later).currentToken_zero,
        if_neg (by simp [kind]), if_neg (by simp [kind]), if_pos kind,
        reads_bump_bind (passes later)]
      exact ⟨[], reads_pure.2 ⟨rfl, rfl, rfl⟩, rfl⟩

/-- The tokens of a type are read as its canonical spelling, with white space in front of each. -/
theorem reads_type (h : TypeTokens row) (spread : Spread row front) (stops : StopsType later) :
    (type scope).Reads (front ++ later) (joinTokens row) later [] := by
  obtain ⟨starts, parts⟩ := h
  rename_i first tail
  have matters : first.isTrivia = false ∧ first.isEnd = false := by
    rw [startsType, Bool.or_eq_true] at starts
    rcases starts with word | word
    · exact matters_of_typePart (by simp [of_decide_eq_true word])
    · obtain ⟨keyword, found, -⟩ := (Option.any_eq_true _ _).1 word
      simp [Token.isTrivia, Token.isWhitespace, Token.isPlainComment, Token.isEnd,
        Token.kind_of_keyword? found]
  obtain ⟨behind, spread, passes⟩ := spread.exists_passes matters.1 matters.2
  have passes := passes later
  have current : currentToken (first :: (behind ++ later)) = first := rfl
  rw [type, reads_skipTrivia_bind]
  refine ⟨[], ?_, by rw [passes.leadingComments_eq, List.append_nil]⟩
  rw [passes.significantFrom_zero, reads_current_bind, current, if_pos starts, reads_advance_bind,
    current, if_neg (by simp [matters.2]), List.tail_cons]
  exact reads_bind_nil.2 ⟨first :: tail, later, reads_typeTail parts spread stops [first],
    reads_pure.2 ⟨rfl, rfl, rfl⟩⟩

end Reading

/-! ### Texts -/

/-- The text is the canonical spelling of some tokens of a sort. -/
def SpelledAs (sort : List Token → Prop) (text : Text) : Prop :=
  ∃ row, sort row ∧ TypeRow row ∧ (∀ token ∈ row, token.IsLexeme) ∧ text = joinTokens row

namespace SpelledAs

variable {sort : List Token → Prop} {text rest : Text}

/-- The tokens of a canonical spelling, in front of anything that does not go on with them. -/
theorem exists_cuts (h : SpelledAs sort text) (ends : Separated rest) :
    ∃ row cut, sort row ∧ text = joinTokens row ∧ Cuts (text ++ rest) cut rest ∧
      Spread row cut := by
  obtain ⟨row, sorted, spelled, lexemes, rfl⟩ := h
  obtain ⟨cut, cuts, spread⟩ := exists_cuts_joinTokens
    (fun token mem => typeToken_of_isLexeme (spelled.parts token mem) (lexemes token mem))
    spelled.apart ends
  exact ⟨row, cut, sorted, rfl, cuts, spread⟩

theorem normalize_eq (h : SpelledAs sort text) : normalizeType text = some text := by
  obtain ⟨row, -, spelled, lexemes, rfl⟩ := h
  exact normalizeType_joinTokens spelled fun token mem =>
    typeToken_of_isLexeme (spelled.parts token mem) (lexemes token mem)

/-- No white space stands at either end of a canonical spelling. -/
theorem inked (h : SpelledAs sort text) : Text.StartsInked text ∧ Text.EndsInked text := by
  obtain ⟨row, -, spelled, lexemes, rfl⟩ := h
  have starts : ∀ token ∈ row, token.text ≠ [] ∧ Text.StartsInked token.text := by
    intro token mem
    obtain ⟨c, others, spelling, ink, -⟩ :=
      (typeToken_of_isLexeme (spelled.parts token mem) (lexemes token mem)).exists_first
    rw [spelling]
    exact ⟨List.cons_ne_nil _ _, startsOff_cons.2 ink⟩
  have ends : ∀ token ∈ row, Text.EndsInked token.text := by
    intro token mem c last
    have part := spelled.parts token mem
    obtain ⟨first, body, spelling, -, written⟩ :=
      (Token.isLexeme_iff.1 (lexemes token mem)).exists_spelled
    rw [spelling] at last
    refine written.endsOff (fun kind => ?_) (fun kind => ?_) last
    · simp [Token.inType, Token.isOperator, kind] at part
    · simp [Token.inType, Token.isOperator, kind] at part
  clear lexemes
  have some := spelled.present
  clear spelled
  induction row using joinTokens.induct with
  | case1 => exact absurd rfl some
  | case2 token =>
      exact ⟨(starts token List.mem_cons_self).2, ends token List.mem_cons_self⟩
  | case3 left right others ih =>
      rw [List.forall_mem_cons] at starts ends
      obtain ⟨-, last⟩ := ih starts.2 ends.2 (List.cons_ne_nil _ _)
      obtain ⟨more, begins⟩ := exists_joinTokens right others
      have present : joinTokens (right :: others) ≠ [] := by
        rw [begins]
        exact List.append_ne_nil_of_left_ne_nil (starts.2 right List.mem_cons_self).1 _
      rw [joinTokens, Text.EndsInked, endsOff_append present, List.append_assoc, Text.StartsInked,
        startsOff_append starts.1.1]
      exact ⟨starts.1.2, last⟩

theorem ne_nil (h : SpelledAs sort text) : text ≠ [] := by
  obtain ⟨row, -, spelled, lexemes, rfl⟩ := h
  exact joinTokens_ne_nil spelled.present fun token mem =>
    typeToken_of_isLexeme (spelled.parts token mem) (lexemes token mem)

theorem trim_eq (h : SpelledAs sort text) : text.trim = text :=
  Text.trim_of_inked h.inked.1 h.inked.2

end SpelledAs

namespace Reading

variable {scope : Scope} {rest after text : Text} {types : List Text} {next : Token}

/-- Behind a space the canonical spelling of a type is read as that type. -/
theorem takes_type (h : SpelledAs TypeTokens text) (ends : Separated rest) (peeks : Peeks 0 rest next)
    (stops : next.kind ∉ [.dot, .openBracket, .less, .ellipsis]) :
    (type scope).Takes (' ' :: (text ++ rest)) text rest := by
  obtain ⟨row, cut, sorted, whole, cuts, spread⟩ := h.exists_cuts ends
  have space : Cut (' ' :: (text ++ rest)) ⟨.whitespace, [' ']⟩ (text ++ rest) := by
    refine @cut_whitespace [' '] _ (List.cons_ne_nil _ _) (List.forall_mem_singleton.2 rfl) ?_
    obtain ⟨c, others, same⟩ := List.exists_cons_of_ne_nil h.ne_nil
    have starts := h.inked.1
    rw [same] at starts ⊢
    simp [startsOff_cons.1 starts]
  have spread' : Spread row (⟨.whitespace, [' ']⟩ :: cut) := by
    cases sorted with
    | intro => exact spread.behind_blank rfl
  refine ⟨_, .cons space cuts, fun later lexed => ?_⟩
  subst whole
  refine reads_type sorted spread' ?_
  rwa [StopsType, peeks later lexed]

theorem join_comma_cons (first : Text) (others : List Text) :
    Text.join ", ".toList (first :: others) = first ++ others.flatMap (", ".toList ++ ·) := by
  induction others generalizing first with
  | nil => simp [Text.join]
  | cons second others ih =>
      have later := ih second
      rw [Text.join] at later ⊢
      rw [List.intercalate_cons_cons, later, List.flatMap_cons, List.append_assoc,
        List.append_assoc]

/-- The text behind a type in a list of types: further ones, and a space behind the last. -/
def behindType (others : List Text) (rest : Text) : Text :=
  others.flatMap (", ".toList ++ ·) ++ ' ' :: rest

/-- No type goes on with what stands behind it in a list. -/
theorem exists_behindType (cut : Cut rest next after) (matters : next.isTrivia = false)
    (stops : next.kind ∉ [.dot, .openBracket, .less, .ellipsis]) (others : List Text) :
    Separated (behindType others rest) ∧ ∃ token, Peeks 0 (behindType others rest) token ∧
      token.kind ∉ [.dot, .openBracket, .less, .ellipsis] := by
  have space : separates ' ' = true := by decide
  have mark : separates ',' = true := by decide
  cases others with
  | nil => exact ⟨separated_cons.2 space, next, (Ahead.of_space (.of_cut cut matters)).peeks, stops⟩
  | cons second others =>
      refine ⟨separated_cons.2 mark, ⟨.comma, [',']⟩, ?_, by simp⟩
      exact (Ahead.of_cut (cut_mark ',' .comma (by decide)) rfl).peeks

/-- The types behind the first one of a list. -/
theorem takes_moreTypes (each : ∀ type ∈ types, SpelledAs TypeTokens type)
    (cut : Cut rest next after) (matters : next.isTrivia = false)
    (stops : next.kind ∉ [.dot, .openBracket, .less, .ellipsis]) (other : next.kind ≠ .comma)
    (done : List Text) :
    (iterate (moreTypes scope) done).Takes (behindType types rest) (done ++ types) rest := by
  induction types generalizing done with
  | nil =>
      rw [List.append_nil]
      exact .last ((@takes_accept_other _ _ _ .comma [' '] rfl cut matters other).bind takes_pure)
  | cons second others ih =>
      rw [List.forall_mem_cons] at each
      obtain ⟨ends, token, peeks, kind⟩ := exists_behindType cut matters stops others
      have whole : behindType (second :: others) rest =
          ',' :: ' ' :: (second ++ behindType others rest) := by
        simp [behindType]
      have comma := @takes_accept _ _ ⟨.comma, [',']⟩
        (@cut_mark (' ' :: (second ++ behindType others rest)) ',' .comma (by decide)) rfl
      have moves : ',' :: ' ' :: (second ++ behindType others rest) ≠ behindType others rest := by
        intro same
        have lengths := congrArg List.length same
        simp only [List.length_cons, List.length_append] at lengths
        omega
      rw [whole]
      refine Takes.again (comma.bind ((takes_type each.1 ends peeks kind).bind takes_pure)) moves ?_
      simpa using ih each.2 (done ++ [second])

/-- Types with commas between them are read up to what stands behind the space at the end. -/
theorem takes_typeList (each : ∀ type ∈ types, SpelledAs TypeTokens type) (some : types ≠ [])
    (cut : Cut rest next after) (matters : next.isTrivia = false)
    (stops : next.kind ∉ [.dot, .openBracket, .less, .ellipsis]) (other : next.kind ≠ .comma) :
    (typeList scope).Takes (' ' :: (Text.join ", ".toList types ++ ' ' :: rest)) types rest := by
  obtain ⟨first, others, rfl⟩ := List.exists_cons_of_ne_nil some
  rw [List.forall_mem_cons] at each
  obtain ⟨ends, token, peeks, kind⟩ := exists_behindType cut matters stops others
  rw [join_comma_cons, List.append_assoc, typeList_eq]
  exact (takes_type each.1 ends peeks kind).bind
    (takes_moreTypes each.2 cut matters stops other [first])

/-- Type parameters are read back, if there are some. -/
theorem takes_typeParameters {parameters : Option Text}
    (each : ∀ text ∈ parameters, SpelledAs AngleTokens text) (cut : Cut rest next after)
    (matters : next.isTrivia = false) (other : next.kind ≠ .less) :
    (typeParameters scope).Takes (parameters.getD [] ++ ' ' :: rest) parameters (' ' :: rest) := by
  cases parameters with
  | none =>
      refine Takes.peek (Ahead.of_space (.of_cut cut matters)).peeks ?_
      rw [if_neg other]
      exact takes_pure
  | some text =>
      have space : separates ' ' = true := by decide
      obtain ⟨row, front, balanced, rfl, cuts, spread⟩ :=
        (each text rfl).exists_cuts (@separated_cons ' ' rest |>.2 space)
      refine takes_of_reads cuts fun later => ?_
      have reads := @reads_angleGroup scope _ _ balanced spread later
      obtain ⟨less, -, -, -⟩ := balanced
      rename_i opening inner closing
      have kind := @matters_of_typePart opening (by simp [less])
      obtain ⟨behind, -, passes⟩ := spread.exists_passes kind.1 kind.2
      rw [typeParameters, reads_peek_bind, (passes later).currentToken_zero, if_pos less]
      exact reads_bind_nil.2 ⟨_, later, reads, reads_pure.2 ⟨rfl, rfl, rfl⟩⟩

end Reading

end JavaUnit
