/-
Module: JavaUnit.Proofs.AnnotationText
Purpose: Which annotations are read back from their renderings: those none of whose values has a
  line comment in it. A value is kept on one line, so that such a comment takes along whatever
  stands behind it, up to the parenthesis that closes the annotation. Any other value is cut into
  the tokens that it was read from, between which only the width of white space is lost, so that it
  ends where it ended.
Main exports: Assigns, AnnotationParam.ReadFrom, AnnotationParam.SpelledBy,
  exists_sources_of_annotationUse, takes_annotationUse, annotation_survives_iff
-/
import JavaUnit.Proofs.BlockBodies
import JavaUnit.Proofs.Collapsing
import JavaUnit.Proofs.Copies
import JavaUnit.Proofs.FileStep
import JavaUnit.Proofs.OpenComments

namespace JavaUnit

/-! ### Where a value ends -/

/-- What stands behind the value of an annotation. -/
def EndsValue (rest : Text) : Prop :=
  rest.head? = some ',' ∨ rest.head? = some ')'

namespace EndsValue

variable {rest : Text}

theorem comma (rest : Text) : EndsValue (',' :: rest) := .inl rfl

theorem paren (rest : Text) : EndsValue (')' :: rest) := .inr rfl

theorem separated (h : EndsValue rest) : Separated rest := by
  rcases h with head | head
  · rw [Separated, head]
    decide
  · rw [Separated, head]
    decide

theorem inked (h : EndsValue rest) : rest.head?.all (!isBlank ·) = true := by
  rcases h with head | head
  · rw [head]
    decide
  · rw [head]
    decide

/-- A line comment ends at a line break, not here. -/
theorem goesOn (h : EndsValue rest) : rest.head?.all endsLine = false := by
  rcases h with head | head
  · rw [head]
    rfl
  · rw [head]
    rfl

end EndsValue

/-- Commas and closing parentheses are spelled by themselves. -/
theorem Cut.endsValue {text rest : Text} {token : Token} (h : Cut text token rest)
    (kind : token.kind = .comma ∨ token.kind = .closeParen) : EndsValue text := by
  obtain ⟨first, body, -, rfl, spelled⟩ := h.exists_spelled
  rcases kind with kind | kind
  · rw [kind] at spelled
    obtain ⟨rfl, known⟩ := spelled.mark_of_mem (by decide)
    exact .inl (by simpa [punctuation] using known)
  · rw [kind] at spelled
    obtain ⟨rfl, known⟩ := spelled.mark_of_mem (by decide)
    exact .inr (by simpa [punctuation] using known)

theorem Reading.byKind_insideAnnotationValue : ByKind insideAnnotationValue := by
  constructor
  · intro depth left right same
    rw [insideAnnotationValue, insideAnnotationValue, same]
  · intro depth token blank
    have kind : token.kind = .whitespace := by simpa [Token.isWhitespace] using blank
    simp [insideAnnotationValue, kind]

/-! ### Names of values -/

/-- A name and an equals sign come first. -/
def Assigns (tokens : List Token) : Prop :=
  (currentToken (significantFrom 0 tokens)).kind = .identifier ∧
    (currentToken (significantFrom 1 tokens)).kind = .equals

variable {token closing : Token} {tokens source later : List Token}

theorem significantFrom_cons_of_isTrivia (trivia : token.isTrivia = true) (n : Nat) :
    significantFrom n (token :: tokens) = significantFrom n tokens := by
  rw [significantFrom.eq_def]
  simp [trivia]

theorem significantFrom_zero_cons (matters : token.isTrivia = false) :
    significantFrom 0 (token :: tokens) = token :: tokens := by
  rw [significantFrom_zero_eq, List.dropWhile_cons_of_neg (by simp [matters])]

theorem assigns_cons (matters : token.isTrivia = false) (inside : token.isEnd = false) :
    Assigns (token :: tokens) ↔
      token.kind = .identifier ∧ (currentToken (significantFrom 0 tokens)).kind = .equals := by
  simp [Assigns, significantFrom, matters, inside, currentToken]

theorem significantFrom_significantFrom (n : Nat) (tokens : List Token) :
    significantFrom n (significantFrom 0 tokens) = significantFrom n tokens := by
  induction tokens with
  | nil => rfl
  | cons token others ih =>
      by_cases trivia : token.isTrivia = true
      · rw [significantFrom_cons_of_isTrivia trivia, significantFrom_cons_of_isTrivia trivia, ih]
      · rw [significantFrom_zero_cons (by simpa using trivia)]

/-- White space does not matter ahead. -/
theorem kind_significantFrom_inkOf (n : Nat) (tokens : List Token) :
    (currentToken (significantFrom n (inkOf tokens))).kind =
      (currentToken (significantFrom n tokens)).kind := by
  induction tokens generalizing n with
  | nil => rfl
  | cons token others ih =>
      rw [inkOf, List.filter_cons]
      cases blank : token.isWhitespace with
      | true =>
          have trivia : token.isTrivia = true := Token.isTrivia_iff.2 (.inl blank)
          rw [significantFrom_cons_of_isTrivia trivia]
          exact ih n
      | false =>
          rw [if_pos (by rfl)]
          by_cases trivia : token.isTrivia = true
          · rw [significantFrom_cons_of_isTrivia trivia, significantFrom_cons_of_isTrivia trivia]
            exact ih n
          · cases ends : token.isEnd with
            | true => simp [significantFrom, trivia, ends, currentToken]
            | false =>
                cases n with
                | zero => simp [significantFrom, trivia, ends, currentToken]
                | succ n =>
                    simp only [significantFrom, trivia, ends, Bool.false_eq_true, if_false]
                    exact ih n

theorem assigns_congr {left right : List Token} (same : inkOf left = inkOf right) :
    Assigns left ↔ Assigns right := by
  rw [Assigns, ← kind_significantFrom_inkOf, ← kind_significantFrom_inkOf 1, same,
    kind_significantFrom_inkOf, kind_significantFrom_inkOf, Assigns]

/-- A token behind some others is ahead of them only if none of them matters. -/
theorem kind_significantFrom_append {kind : Kind} (matters : closing.isTrivia = false)
    (other : closing.kind ≠ kind) (inside : kind ≠ .eof) :
    (currentToken (significantFrom 0 (source ++ closing :: later))).kind = kind ↔
      (currentToken (significantFrom 0 source)).kind = kind := by
  induction source with
  | nil =>
      rw [List.nil_append, significantFrom_zero_cons matters]
      exact iff_of_false other (Ne.symm inside)
  | cons token others ih =>
      by_cases trivia : token.isTrivia = true
      · rw [List.cons_append, significantFrom_cons_of_isTrivia trivia, ih,
          significantFrom_cons_of_isTrivia trivia]
      · have matters : token.isTrivia = false := by simpa using trivia
        rw [List.cons_append, significantFrom_zero_cons matters, significantFrom_zero_cons matters]
        rfl

theorem assigns_append (kind : closing.kind = .comma ∨ closing.kind = .closeParen)
    (inner : ∀ token ∈ source, token.isEnd = false) :
    Assigns (source ++ closing :: later) ↔ Assigns source := by
  have matters := Reading.isTrivia_of_endsValue kind
  have other : closing.kind ≠ .identifier ∧ closing.kind ≠ .equals := by
    rcases kind with kind | kind
    · simp [kind]
    · simp [kind]
  induction source with
  | nil =>
      refine iff_of_false (fun both => ?_) (fun both => absurd both.1 (by decide))
      have first := both.1
      rw [List.nil_append, significantFrom_zero_cons matters] at first
      exact other.1 first
  | cons token others ih =>
      have later := ih fun token mem => inner token (List.mem_cons_of_mem _ mem)
      by_cases trivia : token.isTrivia = true
      · rw [Assigns, List.cons_append, significantFrom_cons_of_isTrivia trivia,
          significantFrom_cons_of_isTrivia trivia, Assigns, significantFrom_cons_of_isTrivia trivia,
          significantFrom_cons_of_isTrivia trivia]
        exact later
      · have inside := inner token List.mem_cons_self
        rw [Bool.not_eq_true] at trivia
        rw [List.cons_append, assigns_cons trivia inside, assigns_cons trivia inside,
          kind_significantFrom_append matters other.2 (by decide)]

/-! ### Reading values -/

/-- A value is read from `tokens`, in front of what ends it. -/
structure AnnotationParam.ReadFrom (param : AnnotationParam) (tokens : List Token) : Prop where
  value : collapseTokens tokens = param.value
  cuts : ∃ text rest, Cuts text tokens rest ∧ EndsValue rest
  starts : (currentToken tokens).isTrivia = false
  pass : through Reading.insideAnnotationValue 0 tokens = some 0
  unnamed : param.name = none → ¬ Assigns tokens

theorem Advances.sublist {tokens rest : List Token} (h : Advances tokens rest) :
    rest.Sublist tokens := by
  obtain ⟨passed, rfl, -⟩ := h
  exact List.sublist_append_right _ _

theorem currentToken_isTrivia_of_dropWhile (h : significantFrom 0 tokens = source ++ later) :
    (currentToken source).isTrivia = false := by
  cases source with
  | nil => rfl
  | cons token others =>
      have stop := dropWhile_startsOff Token.isTrivia tokens
      rw [← significantFrom_zero_eq, h] at stop
      exact startsOff_cons.1 stop

namespace Reading

variable {scope : Scope} {text : Text} {rest skipped : List Token} {draft last : AnnotationDraft}

/-- A value is read from the tokens up to the comma or parenthesis that ends it. -/
theorem exists_source_of_annotationValue {value : Text} (lexed : Lexed text tokens)
    (h : (annotationValue scope).Reads tokens value rest skipped) :
    ∃ source closing later, significantFrom 0 tokens = source ++ closing :: later ∧
      rest = closing :: later ∧ (closing.kind = .comma ∨ closing.kind = .closeParen) ∧
      ∀ name, (name = none → ¬ Assigns tokens) → AnnotationParam.ReadFrom ⟨name, value⟩ source := by
  simp only [annotationValue, reads_skipTrivia_bind, reads_scan_bind, reads_current_bind, reads_ite,
    not_reads_fail, and_false, false_or, reads_pure, Bool.not_eq_true] at h
  obtain ⟨_, ⟨inside, rfl, rfl, rfl⟩, -⟩ := h
  obtain ⟨depth, pass, inner, stop⟩ :=
    through_of_scanTokens insideAnnotationValue 0 (significantFrom 0 tokens)
  have whole := scanTokens_append insideAnnotationValue 0 (significantFrom 0 tokens)
  generalize (scanTokens insideAnnotationValue 0 (significantFrom 0 tokens)).1 = source at *
  generalize (scanTokens insideAnnotationValue 0 (significantFrom 0 tokens)).2 = behind at *
  cases behind with
  | nil => cases inside
  | cons closing later =>
      have inside : closing.isEnd = false := inside
      obtain ⟨rfl, kind⟩ := insideAnnotationValue_eq_none_iff.1 (stop closing rfl inside)
      refine ⟨source, closing, later, whole.symm, rfl, kind, fun name unnamed =>
        ⟨rfl, ?_, currentToken_isTrivia_of_dropWhile whole.symm, pass, fun none => ?_⟩⟩
      · obtain ⟨left, lexed⟩ := lexed.exists_of_advances (advances_significantFrom_zero tokens)
        rw [← whole] at lexed
        obtain ⟨mid, cuts, lexed⟩ := lexed.exists_cuts inner
        obtain ⟨after, cut, -⟩ := lexed.exists_cut inside
        exact ⟨left, mid, cuts, cut.endsValue kind⟩
      · rw [← assigns_append kind inner, whole, Assigns, significantFrom_significantFrom,
          significantFrom_significantFrom]
        exact unnamed none

/-- The comma or parenthesis behind a value is passed over. -/
theorem reads_annotationParam_closing {turn : Turn AnnotationDraft}
    (kind : closing.kind = .comma ∨ closing.kind = .closeParen)
    (h : (bump >>= fun closing =>
      if closing.kind = .comma then pure (Turn.again draft)
      else if closing.kind = .closeParen then pure (.last draft)
      else unexpected scope .commaOrCloseParen).Reads (closing :: later) turn rest skipped) :
    turn.state = draft ∧ rest = later := by
  have passes : Passes (closing :: later) closing later [] := by
    refine .token (Reading.isTrivia_of_endsValue kind) ?_
    rcases kind with kind | kind
    · simp [Token.isEnd, kind]
    · simp [Token.isEnd, kind]
  rw [reads_bump_bind passes] at h
  obtain ⟨_, h, -⟩ := h
  rw [reads_ite, reads_ite, reads_pure, reads_pure] at h
  rcases h with ⟨-, rfl, rfl, -⟩ | ⟨-, ⟨-, rfl, rfl, -⟩ | ⟨-, h⟩⟩
  · exact ⟨rfl, rfl⟩
  · exact ⟨rfl, rfl⟩
  · exact absurd h not_reads_unexpected

/-- One more value is read, from tokens of its own. -/
theorem exists_source_of_annotationParam {turn : Turn AnnotationDraft} (lexed : Lexed text tokens)
    (h : (annotationParam scope draft).Reads tokens turn rest skipped) :
    ∃ param source, turn.state = { draft with params := draft.params ++ [param] } ∧
      param.ReadFrom source ∧ (source ++ rest).Sublist tokens ∧ rest.length < tokens.length := by
  have own : ∀ {mid : List Token} {source closing later}, Advances tokens mid →
      significantFrom 0 mid = source ++ closing :: later →
      (source ++ later).Sublist tokens ∧ later.length < tokens.length := by
    intro mid source closing later moved whole
    have all := (moved.trans (advances_significantFrom_zero mid)).sublist
    rw [whole] at all
    have length := all.length_le
    rw [List.length_append, List.length_cons] at length
    exact ⟨((List.sublist_cons_self closing later).append_left source).trans all, by omega⟩
  simp only [annotationParam, reads_peek_bind, reads_ite] at h
  rcases h with ⟨⟨is, is'⟩, h⟩ | ⟨nameless, h⟩
  · obtain ⟨word, _, _, equals, mid, _, -, passes, -, passes'⟩ :=
      exists_passes_of_kinds is is' (by decide) (by decide)
    rw [reads_bump_bind passes] at h
    obtain ⟨_, h, -⟩ := h
    rw [reads_bump_bind passes'] at h
    obtain ⟨_, h, -⟩ := h
    obtain ⟨value, mid', _, _, reads, h, -⟩ := reads_bind.1 h
    rw [reads_pure_bind] at h
    have moved := passes.advances.trans passes'.advances
    obtain ⟨left, lexed⟩ := lexed.exists_of_advances moved
    obtain ⟨source, closing, later, whole, rfl, kind, from_⟩ :=
      exists_source_of_annotationValue lexed reads
    obtain ⟨state, rfl⟩ := reads_annotationParam_closing kind h
    exact ⟨_, source, state, from_ (some word.text.trim) nofun, own moved whole⟩
  · obtain ⟨value, mid, _, _, reads, h, -⟩ := reads_bind.1 h
    rw [reads_pure_bind] at h
    obtain ⟨source, closing, later, whole, rfl, kind, from_⟩ :=
      exists_source_of_annotationValue lexed reads
    obtain ⟨state, rfl⟩ := reads_annotationParam_closing kind h
    exact ⟨_, source, state, from_ none fun _ => nameless, own (.refl tokens) whole⟩

/-- All values are read, from tokens in order. -/
theorem exists_sources_of_annotationParams (lexed : Lexed text tokens)
    (h : (iterate (annotationParam scope) draft).Reads tokens last rest skipped) :
    ∃ params sources, last = { draft with params := draft.params ++ params } ∧
      List.Forall₂ AnnotationParam.ReadFrom params sources ∧
      sources.flatten.Sublist tokens := by
  let Inv (state : AnnotationDraft) (mid : List Token) : Prop :=
    (∃ left, Lexed left mid) ∧ ∃ params sources,
      state = { draft with params := draft.params ++ params } ∧
        List.Forall₂ AnnotationParam.ReadFrom params sources ∧
        (sources.flatten ++ mid).Sublist tokens
  have more : ∀ {state mid turn after passed}, Inv state mid →
      (annotationParam scope state).Reads mid turn after passed →
      Inv turn.state after ∧ after.length < mid.length := by
    rintro state mid turn after passed ⟨⟨left, lexed⟩, params, sources, rfl, read, within⟩ one
    obtain ⟨param, source, state, from_, within', shorter⟩ :=
      exists_source_of_annotationParam lexed one
    refine ⟨⟨lexed.exists_of_advances one.advances, params ++ [param], sources ++ [source], ?_,
      List.rel_append read (.cons from_ .nil), ?_⟩, shorter⟩
    · rw [state, List.append_assoc]
    · rw [List.flatten_append, List.flatten_singleton, List.append_assoc]
      exact (within'.append_left sources.flatten).trans within
  have front : ∀ {state mid}, Inv state mid → ∃ params sources,
      state = { draft with params := draft.params ++ params } ∧
        List.Forall₂ AnnotationParam.ReadFrom params sources ∧
        sources.flatten.Sublist tokens := by
    rintro state mid ⟨-, params, sources, same, read, within⟩
    exact ⟨params, sources, same, read, (List.sublist_append_left _ _).trans within⟩
  obtain ⟨before, mid, _, _, inv, -, ends⟩ := reads_iterate h (fun state mid _ => Inv state mid)
    ⟨⟨text, lexed⟩, [], [], by rw [List.append_nil], .nil, List.Sublist.refl _⟩
    (fun inv one => (more inv one).1)
  rcases ends with ends | ⟨ends, stalled⟩
  · exact front (more inv ends).1
  · exact absurd (more inv ends).2 stalled

/-- An annotation is built from its name and its values, which are read from tokens in order. -/
theorem exists_sources_of_annotationUse {node : Annotation} (lexed : Lexed text tokens)
    (h : annotationUse.Reads tokens node rest skipped) :
    ∃ name params sources,
      (⟨some (Text.trim name), [], params⟩ : AnnotationDraft).build = .ok node ∧
        List.Forall₂ AnnotationParam.ReadFrom params sources ∧
        sources.flatten.Sublist tokens := by
  simp only [annotationUse, reads_scopeHere_bind, reads_finish] at h
  obtain ⟨rfl, attempt, h, -, built⟩ := h
  rw [reads_expect_bind .atSign (by decide)] at h
  obtain ⟨_, first, _, _, -, passes, h, -⟩ := h
  have moved := (advances_skipWhitespace tokens).trans passes.advances
  simp only [reads_peek_bind, reads_ite, not_reads_fail_bind, and_false, false_or] at h
  obtain ⟨name, mid, _, _, reads, h, -⟩ := reads_bind.1 h.2
  have moved := moved.trans reads.advances
  simp only [reads_peek_bind, reads_ite, reads_pure_bind] at h
  rcases h with ⟨opens, h⟩ | ⟨-, h⟩
  · obtain ⟨paren, behind, _, -, passes⟩ := exists_passes_of_kind opens (by decide)
    rw [reads_bump_bind passes] at h
    obtain ⟨_, h, -⟩ := h
    rw [reads_accept_bind .closeParen (by decide)] at h
    rcases h with ⟨_, _, _, _, -, -, h, -⟩ | ⟨-, _, h, -⟩
    · simp only [if_true, reads_pure_bind] at h
      obtain ⟨rfl, -, -⟩ := reads_pure.1 h
      exact ⟨name, [], [], built, .nil, List.nil_sublist _⟩
    · rw [if_neg (by decide)] at h
      obtain ⟨draft, _, _, _, reads, h, -⟩ := reads_bind.1 h
      obtain ⟨rfl, -, -⟩ := reads_pure.1 h
      have moved := (moved.trans passes.advances).trans (advances_significantFrom_zero behind)
      obtain ⟨left, lexed⟩ := lexed.exists_of_advances moved
      obtain ⟨params, sources, rfl, read, within⟩ := exists_sources_of_annotationParams lexed reads
      exact ⟨name, params, sources, built, read, within.trans moved.sublist⟩
  · obtain ⟨rfl, -, -⟩ := reads_pure.1 h
    exact ⟨name, [], [], built, .nil, List.nil_sublist _⟩

end Reading

/-! ### Reading renderings -/

/-- A value is spelled by `tokens` in front of whatever ends it. -/
structure AnnotationParam.SpelledBy (param : AnnotationParam) (tokens : List Token) : Prop where
  cuts : ∀ rest, EndsValue rest → Cuts (param.value ++ rest) tokens rest
  value : collapseTokens tokens = param.value
  starts : ∃ first others, tokens = first :: others ∧ first.isTrivia = false
  pass : through Reading.insideAnnotationValue 0 tokens = some 0
  unnamed : param.name = none → ¬ Assigns tokens

namespace AnnotationParam.ReadFrom

variable {param : AnnotationParam}

/-- A value that is read from tokens on one line is what they are tidied to. -/
theorem textOf_tidied (h : param.ReadFrom source) (inline : Inline source) :
    textOf (tidied source) = param.value := by
  obtain ⟨text, rest, cuts, -⟩ := h.cuts
  exact (collapseTokens_eq cuts inline).symm.trans h.value

theorem collapseWhitespace_eq (h : param.ReadFrom source) (inline : Inline source) :
    collapseWhitespace param.value = some param.value := by
  obtain ⟨text, rest, cuts, ends⟩ := h.cuts
  rw [← h.textOf_tidied inline]
  exact collapseWhitespace_tidied cuts inline ends.separated

theorem isInline (h : param.ReadFrom source) (inline : Inline source) : IsInline param.value := by
  obtain ⟨text, rest, cuts, ends⟩ := h.cuts
  rw [← h.textOf_tidied inline]
  exact cuts.isInline_tidied inline ends.separated

/-- The tokens of a value may all stand on one line if those of its canonical spelling may. -/
theorem inline (h : param.ReadFrom source) {value : Text}
    (collapsed : collapseWhitespace param.value = some value) (inline : IsInline value) :
    Inline source := by
  obtain ⟨text, rest, cuts, ends⟩ := h.cuts
  obtain ⟨all, lexed, inline⟩ := inline
  rw [collapseWhitespace, Option.map_eq_some_iff] at collapsed
  obtain ⟨tokens, lexed', rfl⟩ := collapsed
  have lexed' := lex_eq_ok_iff.1 (eq_ok_of_toOption lexed')
  obtain ⟨lexemes, rfl, cuts'⟩ := lexed_iff_cuts.1 lexed'
  have starts : Text.StartsInked param.value := by
    rw [← h.value, collapseTokens_eq_trim]
    exact (Text.trim_spec _).1
  rw [collapseTokens_concat_end] at lexed
  have inline' := inline_of_collapseTokens cuts' (cuts'.startsOff starts) (lex_eq_ok_iff.1 lexed)
    inline
  rw [← h.value] at lexed'
  refine inline_of_collapseTokens cuts (fun token first => ?_) lexed' inline'.concat_end
  have matters := h.starts
  rw [currentToken, first, Option.getD_some, Token.isTrivia, Bool.or_eq_false_iff] at matters
  exact matters.1

/-- A value that is read from tokens on one line is spelled by the same tokens, tidied. -/
theorem spelledBy (h : param.ReadFrom source) (inline : Inline source)
    (present : param.value ≠ []) : param.SpelledBy (tidied source) := by
  obtain ⟨text, rest, cuts, ends⟩ := h.cuts
  have same := h.textOf_tidied inline
  have spelled : ∀ rest, EndsValue rest → Cuts (param.value ++ rest) (tidied source) rest :=
    fun rest ends' => by
      rw [← same]
      exact cuts.tidied inline ends.separated ends'.separated ends'.inked
  refine ⟨spelled, ?_, ?_, ?_, fun none => ?_⟩
  · rw [collapseTokens_eq (spelled _ (.paren [])) inline.tidied, tidied_tidied, same]
  · obtain ⟨first, others, rfl⟩ : ∃ first others, source = first :: others := by
      refine List.exists_cons_of_ne_nil ?_
      rintro rfl
      exact present h.value.symm
    have matters : first.isTrivia = false := h.starts
    have ink : first.isWhitespace = false := by
      rw [Token.isTrivia, Bool.or_eq_false_iff] at matters
      exact matters.1
    obtain ⟨others', whole⟩ := List.head?_eq_some_iff.1 (head?_tidied (startsOff_cons.2 ink))
    exact ⟨first, others', whole, matters⟩
  · rw [← Reading.byKind_insideAnnotationValue.through_inkOf, inkOf_tidied,
      Reading.byKind_insideAnnotationValue.through_inkOf, h.pass]
  · rw [assigns_congr (inkOf_tidied source)]
    exact h.unnamed none

end AnnotationParam.ReadFrom

theorem EndsValue.exists_cut {rest : Text} (h : EndsValue rest) :
    ∃ closing after, Cut rest closing after ∧
      (closing.kind = .comma ∨ closing.kind = .closeParen) := by
  rcases h with head | head
  · obtain ⟨after, rfl⟩ := List.head?_eq_some_iff.1 head
    exact ⟨_, after, cut_mark ',' .comma (by decide), .inl rfl⟩
  · obtain ⟨after, rfl⟩ := List.head?_eq_some_iff.1 head
    exact ⟨_, after, cut_mark ')' .closeParen (by decide), .inr rfl⟩

/-- The equals sign between a name and a value. -/
theorem cut_equals (rest : Text) : Cut ('=' :: ' ' :: rest) ⟨.equals, ['=']⟩ (' ' :: rest) :=
  @Cut.intro '=' [] _ _ (.equals (by simp))

/-- What is ahead of some tokens in front of one that matters. -/
theorem peeks_of_cuts {text rest after : Text} (cuts : Cuts text source rest)
    (cut : Cut rest closing after) (matters : closing.isTrivia = false) :
    Peeks 0 text (currentToken (significantFrom 0 (source ++ [closing]))) := by
  intro tokens lexed
  obtain ⟨later, rfl, -⟩ := (cuts.append (.cons cut .nil)).lexed_iff.1 lexed
  rw [significantFrom_zero_eq, significantFrom_zero_eq, List.append_assoc, List.singleton_append,
    List.dropWhile_append, List.dropWhile_append]
  split
  · rw [List.dropWhile_cons_of_neg (by simp [matters]),
      List.dropWhile_cons_of_neg (by simp [matters])]
    rfl
  · cases others : source.dropWhile Token.isTrivia with
    | nil => simp_all
    | cons => rfl

theorem join_render_cons (param second : AnnotationParam) (others : List AnnotationParam)
    (rest : Text) :
    Text.join ", ".toList ((param :: second :: others).map AnnotationParam.render) ++ rest =
      param.render ++ ',' :: ' ' ::
        (Text.join ", ".toList ((second :: others).map AnnotationParam.render) ++ rest) := by
  rw [List.map_cons, Text.join, List.map_cons, List.intercalate_cons_cons, Text.join]
  simp

/-- Behind the first value stands what ends it. -/
theorem exists_join_render (param : AnnotationParam) (others : List AnnotationParam) (rest : Text) :
    ∃ behind, EndsValue behind ∧
      Text.join ", ".toList ((param :: others).map AnnotationParam.render) ++ ')' :: rest =
        param.render ++ behind := by
  cases others with
  | nil => exact ⟨_, .paren rest, by rw [List.map_singleton, Text.join_singleton]⟩
  | cons second others => exact ⟨_, .comma _, join_render_cons param second others _⟩

namespace Reading

variable {scope : Scope} {blanks text rest after : Text} {draft : AnnotationDraft}
  {param : AnnotationParam}

theorem takes_annotationValue (h : param.SpelledBy tokens) (blank : blanks.isBlank = true)
    (ends : EndsValue rest) :
    (annotationValue scope).Takes (blanks ++ (param.value ++ rest)) param.value rest := by
  obtain ⟨closing, after, cut, kind⟩ := ends.exists_cut
  have cuts := h.cuts rest ends
  have scans : (scan insideAnnotationValue 0).Takes (param.value ++ rest) tokens rest := by
    refine ⟨tokens, cuts, fun later lexed => ?_⟩
    obtain ⟨behind, rfl, -⟩ := cut.lexed_iff.1 lexed
    have stops : scanTokens insideAnnotationValue 0 (tokens ++ closing :: behind) = _ :=
      scanTokens_of_through h.pass (fun token mem => cuts.isEnd_eq_false mem)
        (insideAnnotationValue_eq_none_iff.2 ⟨rfl, kind⟩)
    rw [reads_scan, stops]
    exact ⟨rfl, rfl, rfl⟩
  obtain ⟨first, others, whole, matters⟩ := h.starts
  rw [whole] at cuts
  cases cuts with
  | cons head _ =>
      refine (takes_skipTrivia blank head matters).bind ?_
      refine scans.bind (Takes.current (begins_of_cut cut) ?_)
      rw [if_neg (by simp [cut.isEnd_eq_false]), h.value]
      exact takes_pure

/-- The comma or parenthesis behind a value tells whether another one follows. -/
theorem takes_annotationParam_closing (cut : Cut rest closing after)
    (kind : closing.kind = .comma ∨ closing.kind = .closeParen) :
    (bump >>= fun closing =>
      if closing.kind = .comma then pure (Turn.again draft)
      else if closing.kind = .closeParen then pure (.last draft)
      else unexpected scope .commaOrCloseParen).Takes rest
        (if closing.kind = .comma then .again draft else .last draft) after := by
  refine (takes_bump (.of_cut cut (Reading.isTrivia_of_endsValue kind))).bind ?_
  rcases kind with kind | kind
  · rw [if_pos kind, if_pos kind]
    exact takes_pure
  · rw [if_neg (by simp [kind]), if_pos kind, if_neg (by simp [kind])]
    exact takes_pure

/-- One more value is read from its rendering. -/
theorem takes_annotationParam (h : param.SpelledBy tokens)
    (known : ∀ name, param.name = some name → isIdentifier name = true)
    (blank : blanks.isBlank = true) (cut : Cut rest closing after)
    (kind : closing.kind = .comma ∨ closing.kind = .closeParen) :
    (annotationParam scope draft).Takes (blanks ++ (param.render ++ rest))
      (if closing.kind = .comma then .again { draft with params := draft.params ++ [param] }
        else .last { draft with params := draft.params ++ [param] }) after := by
  have ends := cut.endsValue kind
  obtain ⟨name, value⟩ := param
  rw [annotationParam]
  cases name with
  | some name =>
      have known := known name rfl
      have whole : AnnotationParam.render ⟨some name, value⟩ ++ rest =
          name ++ (' ' :: '=' :: ' ' :: (value ++ rest)) := by
        simp [AnnotationParam.render]
      have word : Ahead (blanks ++ (name ++ (' ' :: '=' :: ' ' :: (value ++ rest))))
          ⟨.identifier, name⟩ _ :=
        .of_blanks blank (.of_cut (cut_identifier known (stops_cons (by decide) _)) rfl)
      have equals : Ahead (' ' :: '=' :: ' ' :: (value ++ rest)) ⟨.equals, ['=']⟩ _ :=
        .of_space (.of_cut (cut_equals _) rfl)
      rw [whole]
      refine .peek word.peeks (.peek (word.peeks_succ equals.peeks) ?_)
      rw [if_pos ⟨rfl, rfl⟩]
      refine (takes_bump word).bind ((takes_bump equals).bind ?_)
      refine (@takes_annotationValue _ _ [' '] _ _ h rfl ends).bind (takes_pure.bind ?_)
      have same : draft.addParam name value =
          { draft with params := draft.params ++ [⟨some name, value⟩] } := by
        rw [AnnotationDraft.addParam, trim_of_isIdentifier known]
      rw [same]
      exact takes_annotationParam_closing cut kind
  | none =>
      obtain ⟨first, others, whole, matters⟩ := h.starts
      have cuts := h.cuts rest ends
      have nameless := h.unnamed rfl
      rw [whole] at cuts
      cases cuts with
      | cons head tail =>
          have here : Ahead (blanks ++ (value ++ rest)) first _ :=
            .of_blanks blank (.of_cut head matters)
          have next := peeks_of_cuts tail cut (Reading.isTrivia_of_endsValue kind)
          refine .peek here.peeks (.peek (here.peeks_succ next) ?_)
          rw [if_neg]
          · refine (takes_annotationValue h blank ends).bind (takes_pure.bind ?_)
            exact takes_annotationParam_closing cut kind
          · rintro ⟨is, is'⟩
            rw [whole, assigns_cons matters head.isEnd_eq_false] at nameless
            refine nameless ⟨is, (kind_significantFrom_append (Reading.isTrivia_of_endsValue kind)
              ?_ (by decide)).1 is'⟩
            rcases kind with kind | kind
            · simp [kind]
            · simp [kind]

/-- All values are read from their renderings, up to the closing parenthesis. -/
theorem takes_annotationParams {params : List AnnotationParam} (present : params ≠ [])
    (spelled : ∀ param ∈ params, ∃ tokens, param.SpelledBy tokens)
    (known : ∀ param ∈ params, ∀ name, param.name = some name → isIdentifier name = true)
    (blank : blanks.isBlank = true) :
    (iterate (annotationParam scope) draft).Takes
      (blanks ++ (Text.join ", ".toList (params.map AnnotationParam.render) ++ ')' :: rest))
      { draft with params := draft.params ++ params } rest := by
  induction params generalizing blanks draft with
  | nil => exact absurd rfl present
  | cons param others ih =>
      obtain ⟨tokens, own⟩ := spelled param List.mem_cons_self
      have known' := known param List.mem_cons_self
      cases others with
      | nil =>
          have cut : Cut (')' :: rest) _ _ := cut_mark ')' .closeParen (by decide)
          have one : (annotationParam scope draft).Takes (blanks ++ (param.render ++ ')' :: rest)) _
            rest := takes_annotationParam own known' blank cut (.inr rfl)
          rw [List.map_singleton, Text.join_singleton]
          exact Takes.last one
      | cons second others =>
          have cut : Cut (',' :: ' ' :: (Text.join ", ".toList
              ((second :: others).map AnnotationParam.render) ++ ')' :: rest)) _ _ :=
            cut_mark ',' .comma (by decide)
          have later := @ih [' '] { draft with params := draft.params ++ [param] }
            (List.cons_ne_nil _ _) (fun param mem => spelled param (List.mem_cons_of_mem _ mem))
            (fun param mem => known param (List.mem_cons_of_mem _ mem)) rfl
          rw [List.append_assoc, List.singleton_append] at later
          rw [join_render_cons]
          refine Takes.again (takes_annotationParam own known' blank cut (.inl rfl)) ?_ later
          intro same
          have lengths := congrArg List.length same
          simp only [List.length_append, List.length_cons] at lengths
          omega

/-- No value begins with a parenthesis that closes the annotation. -/
theorem exists_cut_of_spelledBy (h : param.SpelledBy tokens)
    (known : ∀ name, param.name = some name → isIdentifier name = true) (ends : EndsValue rest) :
    ∃ first after, Cut (param.render ++ rest) first after ∧ first.isTrivia = false ∧
      first.kind ≠ .closeParen := by
  obtain ⟨name, value⟩ := param
  cases name with
  | some name =>
      have whole : AnnotationParam.render ⟨some name, value⟩ ++ rest =
          name ++ (' ' :: '=' :: ' ' :: (value ++ rest)) := by
        simp [AnnotationParam.render]
      rw [whole]
      exact ⟨_, _, cut_identifier (known name rfl) (stops_cons (by decide) _), rfl, nofun⟩
  | none =>
      obtain ⟨first, others, rfl, matters⟩ := h.starts
      have cuts := h.cuts rest ends
      have pass := h.pass
      cases cuts with
      | @cons _ _ mid _ _ head _ =>
          refine ⟨first, mid, head, matters, fun kind => ?_⟩
          rw [through, insideAnnotationValue_eq_none_iff.2 ⟨rfl, .inr kind⟩] at pass
          cases pass

end Reading

theorem ahead_openParen (rest : Text) : Ahead ('(' :: rest) ⟨.openParen, ['(']⟩ rest :=
  .of_cut (cut_mark '(' .openParen (by decide)) rfl

namespace Annotation

/-- What stands behind the name of an annotation. -/
def valueList (node : Annotation) : Text :=
  if node.params = [] then []
  else '(' :: (Text.join ", ".toList (node.params.map AnnotationParam.render) ++ [')'])

theorem valueList_of_eq_nil (node : Annotation) (none : node.params = []) :
    node.valueList = [] := by
  rw [valueList, if_pos none]

theorem valueList_of_ne_nil (node : Annotation) (some : node.params ≠ []) :
    node.valueList =
      '(' :: (Text.join ", ".toList (node.params.map AnnotationParam.render) ++ [')']) := by
  rw [valueList, if_neg some]

theorem render_eq (node : Annotation) : node.render = '@' :: (node.name ++ node.valueList) := by
  rw [render, valueList]
  split
  · rfl
  · simp

theorem endsName_valueList (node : Annotation) : EndsName node.valueList := by
  by_cases none : node.params = []
  · rw [node.valueList_of_eq_nil none]
    exact ⟨rfl, _, peeks_nil 0, fun dot => by cases dot⟩
  · rw [node.valueList_of_ne_nil none]
    exact .of_ahead (stops_cons (by decide) _) (ahead_openParen _) (by decide)

end Annotation

/-- What is built has a name, the names of its values are words, and no value is blank. -/
theorem AnnotationDraft.rules_of_build {draft : AnnotationDraft} {node : Annotation}
    (h : draft.build = .ok node) :
    (∃ name, draft.name = some name ∧ isQualifiedName name = true) ∧
      (∀ param ∈ draft.params, ∀ name, param.name = some name → isIdentifier name = true) ∧
      ∀ param ∈ draft.params,
        ∃ value, collapseWhitespace param.value = some value ∧ value ≠ [] := by
  obtain ⟨clean, -⟩ := settle_eq_ok_iff.1 h
  simp only [defects, List.append_eq_nil_iff, List.flatMap_eq_nil_iff, paramDefects] at clean
  obtain ⟨⟨present, rule⟩, params⟩ := clean
  refine ⟨exists_name present rule, fun param mem name same => ?_, fun param mem =>
    valueDefects_eq_nil_iff.1 (params param mem).2⟩
  have own := (params param mem).1
  rw [same] at own
  exact requirement_eq_nil.1 own

namespace Reading

/-- An annotation that is built from its own name and values, each spelled by tokens, is read from
its rendering. -/
theorem takes_annotationUse {node : Annotation}
    (built : (⟨some node.name, [], node.params⟩ : AnnotationDraft).build = .ok node)
    (spelled : ∀ param ∈ node.params, ∃ tokens, param.SpelledBy tokens) :
    annotationUse.Takes node.render node [] := by
  obtain ⟨⟨name, same, known⟩, named, -⟩ := AnnotationDraft.rules_of_build built
  obtain rfl := Option.some.inj same
  let own : AnnotationDraft := ⟨some node.name, [], node.params⟩
  have sign : ∀ rest : Text, Cut ('@' :: rest) _ rest := fun _ => cut_mark '@' .atSign (by decide)
  have ends := node.endsName_valueList
  obtain ⟨part, _, ahead⟩ := ahead_qualifiedName known ends
  rw [node.render_eq]
  refine Takes.scopeHere (head_of_cut (sign _) rfl) fun scope => ?_
  refine Takes.finish { examined := own.examined, built := own.build } ?_ rfl built
  refine (takes_expect (.of_cut (sign _) rfl)).bind (.peek ahead.peeks ?_)
  rw [if_neg (by simp [Token.keyword?])]
  refine (takes_qualifiedName [] rfl known ends).bind ?_
  have draft : AnnotationDraft.withName {} node.name = ⟨some node.name, [], []⟩ := by
    rw [AnnotationDraft.withName, trim_of_isQualifiedName known]
  rw [draft]
  by_cases none : node.params = []
  · have same : own = ⟨some node.name, [], []⟩ := congrArg (AnnotationDraft.mk _ _) none
    rw [node.valueList_of_eq_nil none, same]
    refine .peek (peeks_nil 0) ?_
    rw [if_neg (by decide)]
    exact takes_pure.bind takes_pure
  · -- The first value does not begin with a parenthesis that would close the annotation.
    obtain ⟨param, others, whole⟩ := List.exists_cons_of_ne_nil none
    obtain ⟨rest, closes, joined⟩ := exists_join_render param others []
    have first : param ∈ node.params := whole ▸ List.mem_cons_self
    obtain ⟨tokens, spells⟩ := spelled param first
    obtain ⟨token, after, cut, matters, other⟩ :=
      exists_cut_of_spelledBy spells (named param first) closes
    rw [← joined, ← whole] at cut
    rw [node.valueList_of_ne_nil none]
    refine .peek (ahead_openParen _).peeks ?_
    rw [if_pos rfl]
    refine (takes_bump (ahead_openParen _)).bind
      ((@takes_accept_other _ _ _ _ [] rfl cut matters other).bind ?_)
    rw [if_neg (by decide)]
    have values := @takes_annotationParams scope [] [] ⟨some node.name, [], []⟩ _ none spelled named
      rfl
    exact values.bind takes_pure

end Reading

/-! ### Which annotations are read back -/

section Pointwise

variable {α β : Type} {left : List α} {right : List β}

theorem exists_of_forall₂ {R : α → β → Prop} (h : List.Forall₂ R left right) {x : α}
    (mem : x ∈ left) : ∃ y, R x y := by
  induction h with
  | nil => cases mem
  | @cons _ y _ _ head _ ih =>
      rcases List.mem_cons.1 mem with rfl | mem
      · exact ⟨y, head⟩
      · exact ih mem

/-- Texts that have no more line breaks than others, one by one, but no fewer in total, have as
many. -/
theorem forall₂_of_lineEnds_le {R : α → β → Prop} {f : α → Text} {g : β → Text}
    (fewer : ∀ x y, R x y → lineEnds (f x) ≤ lineEnds (g y)) (h : List.Forall₂ R left right) :
    lineEnds (left.flatMap f) ≤ lineEnds (right.flatMap g) ∧
      (lineEnds (right.flatMap g) ≤ lineEnds (left.flatMap f) →
        List.Forall₂ (fun x y => R x y ∧ lineEnds (g y) ≤ lineEnds (f x)) left right) := by
  induction h with
  | nil => exact ⟨Nat.le_refl _, fun _ => .nil⟩
  | cons head _ ih =>
      have less := fewer _ _ head
      obtain ⟨less', kept⟩ := ih
      rw [List.flatMap_cons, List.flatMap_cons, lineEnds_append, lineEnds_append]
      exact ⟨by omega, fun all => .cons ⟨head, by omega⟩ (kept (by omega))⟩

theorem lineEnds_flatMap_congr {f g : α → Text} (h : ∀ x ∈ left, lineEnds (f x) = lineEnds (g x)) :
    lineEnds (left.flatMap f) = lineEnds (left.flatMap g) := by
  induction left with
  | nil => rfl
  | cons x others ih =>
      rw [List.flatMap_cons, List.flatMap_cons, lineEnds_append, lineEnds_append,
        h x List.mem_cons_self, ih fun y mem => h y (List.mem_cons_of_mem _ mem)]

end Pointwise

theorem lineEnds_join {mark : Text} (none : lineEnds mark = 0) (parts : List Text) :
    lineEnds (Text.join mark parts) = lineEnds parts.flatten := by
  induction parts with
  | nil => rfl
  | cons first others ih =>
      cases others with
      | nil => simp
      | cons second others =>
          rw [Text.join] at ih ⊢
          rw [List.intercalate_cons_cons, lineEnds_append, lineEnds_append, ih, none, Nat.add_zero]
          exact (lineEnds_append first _).symm

/-- The line breaks in a rendering are those in the values. -/
theorem lineEnds_render {node : Annotation} (known : isQualifiedName node.name = true)
    (named : ∀ param ∈ node.params, ∀ name, param.name = some name → isIdentifier name = true) :
    lineEnds node.render = lineEnds (node.params.flatMap AnnotationParam.value) := by
  have each : ∀ param ∈ node.params, lineEnds param.render = lineEnds param.value := by
    rintro ⟨name, value⟩ mem
    cases name with
    | none => rfl
    | some name =>
        have known := named _ mem name rfl
        have none := lineEnds_of_ink fun c mem =>
          isBlank_eq_false_of_isWordPart ((isWordPart_of_isIdentifier known).2 c mem)
        have mark : lineEnds " = ".toList = 0 := by decide
        rw [AnnotationParam.render, lineEnds_append, lineEnds_append, none, mark, Nat.zero_add]
  have name := lineEnds_of_ink fun c mem => isBlank_of_isQualifiedName known mem
  have front : lineEnds ('@' :: node.name) = 0 := name
  rw [node.render_eq, ← List.cons_append, lineEnds_append, front, Nat.zero_add]
  by_cases none : node.params = []
  · rw [node.valueList_of_eq_nil none, none]
    rfl
  · have opening : lineEnds ['('] = 0 := by decide
    have closing : lineEnds [')'] = 0 := by decide
    have mark : lineEnds ", ".toList = 0 := by decide
    rw [node.valueList_of_ne_nil none, ← List.singleton_append, lineEnds_append, lineEnds_append,
      opening, closing, lineEnds_join mark, ← List.flatMap_def, Nat.zero_add, Nat.add_zero]
    exact lineEnds_flatMap_congr each

variable {name source : Text} {node : Annotation}

/-- Without a line comment in one of its values, the rendering of an annotation that is read is
taken for that annotation. -/
theorem takes_render_of_inline (parsed : Entry.annotationUse.parseText name source = .ok node)
    (inline : ∀ param ∈ node.params, IsInline param.value) :
    isQualifiedName node.name = true ∧ Reading.annotationUse.Takes node.render node [] := by
  obtain ⟨tokens, rest, skipped, lexed, reads, -⟩ := exists_reads_of_parseText parsed
  obtain ⟨given, params, sources, built, read, -⟩ :=
    Reading.exists_sources_of_annotationUse (lex_eq_ok_iff.1 lexed) reads
  obtain ⟨-, -, values⟩ := AnnotationDraft.rules_of_build built
  obtain ⟨-, rfl⟩ := settle_eq_ok_iff.1 built
  have settled : ∀ param ∈ params, collapseWhitespace param.value = some param.value ∧
      ∃ tokens, param.SpelledBy tokens := by
    intro param mem
    obtain ⟨source, from_⟩ := exists_of_forall₂ read mem
    obtain ⟨value, collapsed, some⟩ := values param mem
    have own := inline _ (List.mem_map_of_mem mem)
    rw [AnnotationDraft.canonicalParam, collapsed] at own
    have inline := from_.inline collapsed own
    have same := from_.collapseWhitespace_eq inline
    rw [collapsed, Option.some.injEq] at same
    rw [same] at some
    exact ⟨from_.collapseWhitespace_eq inline, _, from_.spelledBy inline some⟩
  have kept : params.map AnnotationDraft.canonicalParam = params := by
    refine map_eq_self_iff.2 fun param mem => ?_
    rw [AnnotationDraft.canonicalParam, (settled param mem).1]
    rfl
  have node_ : AnnotationDraft.node ⟨some (Text.trim given), [], params⟩ =
      ⟨Text.trim given, [], params, true⟩ :=
    congrArg (fun values => (⟨Text.trim given, [], values, true⟩ : Annotation)) kept
  rw [node_] at built ⊢
  obtain ⟨⟨_, same, known⟩, -⟩ := AnnotationDraft.rules_of_build built
  obtain rfl := Option.some.inj same
  exact ⟨known, @Reading.takes_annotationUse ⟨Text.trim given, [], params, true⟩ built
    fun param mem => (settled param mem).2⟩

/-- An annotation that is read is read from its rendering as well, unless one of its values has a
line comment in it. -/
theorem parseText_render_of_inline (parsed : Entry.annotationUse.parseText name source = .ok node)
    (inline : ∀ param ∈ node.params, IsInline param.value) (name' : Text) :
    Entry.annotationUse.parseText name' node.render = .ok node :=
  @Entry.parseText_of_takes _ Entry.annotationUse .annotationUse _ [] _ _ rfl rfl rfl
    (takes_render_of_inline parsed inline).2 name'

/-- An annotation that its rendering is read as has no line comment in its values. Reading a value
loses the line break that ends such a comment, and no value can have one more than before. -/
theorem isInline_of_parseText_render
    (again : Entry.annotationUse.parseText name node.render = .ok node) :
    ∀ param ∈ node.params, IsInline param.value := by
  obtain ⟨tokens, rest, skipped, lexed, reads, -⟩ := exists_reads_of_parseText again
  obtain ⟨given, params, sources, built, read, within⟩ :=
    Reading.exists_sources_of_annotationUse (lex_eq_ok_iff.1 lexed) reads
  obtain ⟨⟨_, same, known⟩, named, values⟩ := AnnotationDraft.rules_of_build built
  obtain rfl := Option.some.inj same
  obtain ⟨-, rfl⟩ := settle_eq_ok_iff.1 built
  have rendered := @lineEnds_render (AnnotationDraft.node ⟨some (Text.trim given), [], params⟩)
    known fun param mem => by
      obtain ⟨source, listed, rfl⟩ := List.mem_map.1 mem
      exact named source listed
  have fewer : ∀ param source, AnnotationParam.ReadFrom param source →
      lineEnds (AnnotationDraft.canonicalParam param).value ≤ lineEnds (textOf source) := by
    intro param source from_
    refine Nat.le_trans (lineEnds_collapseWhitespace_le _) ?_
    rw [← from_.value]
    exact Nat.le_trans (lineEnds_collapseTokens_le source) (lineEnds_map_collapsed source).1
  have total := lineEnds_textOf_le within
  rw [textOf_of_lex lexed, rendered, AnnotationDraft.node, List.flatMap_map, textOf_flatten]
    at total
  intro param mem
  obtain ⟨param, listed, rfl⟩ := List.mem_map.1 mem
  obtain ⟨source, from_, kept⟩ := exists_of_forall₂ ((forall₂_of_lineEnds_le fewer read).2 total) listed
  obtain ⟨text, rest, cuts, ends⟩ := from_.cuts
  have inline : Inline source := by
    refine cuts.inline_of_lineEnds ends.goesOn (Nat.le_trans kept ?_)
    rw [from_.value]
    exact lineEnds_collapseWhitespace_le _
  rw [AnnotationDraft.canonicalParam, from_.collapseWhitespace_eq inline]
  exact from_.isInline inline

/-- An annotation that is read is read from its rendering as well if and only if none of its values
has a line comment in it. -/
theorem annotation_survives_iff (parsed : Entry.annotationUse.parseText name source = .ok node) :
    Entry.annotationUse.parseText name node.render = .ok node ↔
      ∀ param ∈ node.params, IsInline param.value :=
  ⟨isInline_of_parseText_render, fun inline => parseText_render_of_inline parsed inline name⟩

/-- An annotation with brackets, commas and comments of other sorts inside its values. -/
def bracketedSample : Text :=
  "@a . B ( x = \x7b f (\"),\" ,\n1 ) , /* ) */ \x7d\n, y = \"\"\"\n // \"\"\" )".toList

theorem annotation_survives_iff_bracketedSample :
    ∃ node, Entry.annotationUse.parseText [] bracketedSample = .ok node ∧
      Entry.annotationUse.parseText [] node.render = .ok node ∧
      ∀ param ∈ node.params, IsInline param.value := by
  have reads : (Entry.annotationUse.parseText [] bracketedSample).toOption.any (fun node =>
      (Entry.annotationUse.parseText [] node.render).toOption = some node) = true := by
    decide +kernel
  obtain ⟨node, is, again⟩ := (Option.any_eq_true _ _).1 reads
  have parsed := eq_ok_of_toOption is
  have survives := eq_ok_of_toOption (of_decide_eq_true again)
  exact ⟨node, parsed, survives, (annotation_survives_iff parsed).1 survives⟩

/-- The parenthesis that closes an annotation becomes a part of a line comment in front of it. -/
example :
    ((Entry.annotationUse.parseText defaultName "@A(1 // c\n)".toList).toOption.map fun node =>
      (node.render, (Entry.annotationUse.parseText defaultName node.render).toOption)) =
        some ("@A(1 // c)".toList, none) := by
  decide +kernel

end JavaUnit
