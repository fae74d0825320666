/-
Module: JavaUnit.Proofs.LeadText
Purpose: The text in front of a declaration. Annotations that read back and modifiers are cut into
  the tokens of a lead, each with white space behind it, and a Javadoc is one token in front of
  them. So an outermost class is read back from its text, from its Javadoc on.
Main exports: Annotation.ReadsBack, frontText, exists_leadTokens_of_frontText,
  Reading.takes_outermost
-/
import JavaUnit.Proofs.AnnotationText
import JavaUnit.Proofs.ClassText

namespace JavaUnit

/-! ### Annotations -/

namespace Annotation

variable {node : Annotation}

/-- The rendering of an annotation is read as that annotation. -/
def ReadsBack (node : Annotation) : Prop :=
  Entry.annotationUse.parseText defaultName node.render = .ok node

instance (node : Annotation) : Decidable node.ReadsBack :=
  inferInstanceAs (Decidable (Entry.annotationUse.parseText defaultName node.render = .ok node))

theorem ReadsBack.takes (h : node.ReadsBack) :
    isQualifiedName node.name = true ∧ Reading.annotationUse.Takes node.render node [] :=
  takes_render_of_inline h (isInline_of_parseText_render h)

/-- An annotation ends with a name or with a parenthesis. -/
theorem endsInked_render (known : isQualifiedName node.name = true) :
    Text.EndsInked node.render := by
  rw [render_eq, ← List.cons_append]
  by_cases none : node.params = []
  · rw [valueList_of_eq_nil node none, List.append_nil, ← List.singleton_append, Text.EndsInked,
      endsOff_append (ne_nil_of_isQualifiedName known)]
    exact (inked_of_ink fun c mem => isBlank_of_isQualifiedName known mem).2
  · rw [valueList_of_ne_nil node none, Text.EndsInked, ← List.cons_append, ← List.append_assoc,
      endsOff_concat]
    rfl

/-- In front of a line break an annotation is cut into tokens that are read as it wherever they
stand. -/
theorem ReadsBack.exists_group (h : node.ReadsBack) (more : Text) :
    ∃ group, (currentToken group).kind = .atSign ∧ Reading.annotationUse.Reads group node [] [] ∧
      Cuts (node.render ++ '\n' :: more) group ('\n' :: more) := by
  obtain ⟨known, group, cuts, reads⟩ := h.takes
  have own := reads _ .nil
  have apart : Detached [] := by
    rw [Detached]
    decide
  have alone := Reading.annotationUse_swap own apart
  rw [List.append_nil] at alone
  have present : group ≠ [] := by
    rintro rfl
    rw [render_eq] at cuts
    cases cuts
  refine ⟨group, ?_, alone, ?_⟩
  · rw [render_eq] at cuts
    have sign := begins_of_cut (cut_mark '@' .atSign (by decide)) _ (cuts.lexed .nil)
    rw [currentToken_append present] at sign
    rw [sign]
  · have alike : Alike [] ('\n' :: more) :=
      .of_separated separated_nil (separated_cons.2 (by decide))
    have moved := cuts.swap alike fun token last => ⟨fun _ => rfl, fun kind => ?_⟩
    · have whole := cuts.text_eq
      rw [List.append_nil] at whole
      rwa [← whole] at moved
    · -- the text does not end with white space, so the last token is none
      have split := List.dropLast_append_getLast? token last
      rw [← split] at cuts
      obtain ⟨mid, front, tail⟩ := cuts.split
      cases tail with
      | cons cut tail =>
          cases tail
          have ends := endsInked_render known
          have blank := (cut.blank_of_whitespace kind).1
          rw [front.text_eq, cut.text_eq, List.append_nil, Text.EndsInked,
            endsOff_append cut.text_ne_nil] at ends
          have ink := Text.isBlank_eq_false_of_endsInked ends cut.text_ne_nil
          rw [Text.isBlank, List.all_eq_true.2 blank] at ink
          cases ink

end Annotation

/-! ### Annotations and modifiers -/

/-- The text of annotations on lines of their own and of modifiers behind them. -/
def frontText (annotations : List Annotation) (given : List Modifier) : Text :=
  annotations.flatMap (·.render ++ ['\n']) ++ given.flatMap (·.text ++ [' '])

/-- A lead is rendered as its comment, its Javadoc, and its annotations and modifiers. -/
theorem Lead.render_eq (lead : Lead) :
    lead.render = lead.sectionComment.toList.flatMap (·.render ++ ['\n']) ++
      (lead.javadoc.toList.flatMap (·.render ++ ['\n']) ++
        frontText lead.annotations lead.modifiers.toList) := by
  have spaced : ∀ given : List Modifier, (if given.isEmpty then [] else
      Text.join [' '] (given.map Modifier.text) ++ [' ']) = given.flatMap (·.text ++ [' ']) := by
    intro given
    induction given with
    | nil => rfl
    | cons first others ih =>
        cases others with
        | nil => simp [Text.join]
        | cons second others =>
            rw [if_neg (by simp)] at ih ⊢
            rw [List.flatMap_cons, ← ih, Text.join, List.map_cons, List.map_cons,
              List.intercalate_cons_cons]
            simp [Text.join]
  rw [render, frontText, ← spaced]
  simp [Modifiers.isEmpty, Modifiers.render, List.flatMap_append, List.flatMap_map]

section

variable {annotations : List Annotation} {given : List Modifier} {tokens : List Token}
  {text core after : Text} {word : Token}

/-- A lead and what is declared behind it do not begin with white space. -/
theorem LeadTokens.head_of_cuts (h : LeadTokens annotations given tokens)
    (cuts : Cuts text tokens core) (cut : Cut core word after) (leads : word.leads = true) :
    text.head?.all (!isBlank ·) = true := by
  have ink : ∀ {token : Token}, token.leads = true → token.isWhitespace = false := fun leads =>
    (Bool.or_eq_false_iff.1 (Token.isTrivia_of_leads leads)).1
  cases h with
  | nil =>
      cases cuts
      exact head_of_cut cut (ink leads)
  | used sign =>
      have present := Reading.ne_nil_of_sign sign
      refine cuts.head_of_ink (List.append_ne_nil_of_left_ne_nil present _) ?_
      rw [currentToken_append present]
      exact ink (Token.leads_of_atSign sign)
  | modifier spells =>
      exact cuts.head_of_ink (List.cons_ne_nil _ _) (ink (Token.leads_of_modifier spells))

/-- Annotations that read back and modifiers are cut into the tokens of a lead. -/
theorem exists_leadTokens_of_frontText (each : ∀ node ∈ annotations, node.ReadsBack)
    (given : List Modifier) (cut : Cut core word after) (leads : word.leads = true) :
    ∃ tokens, Cuts (frontText annotations given ++ core) tokens core ∧
      LeadTokens annotations given tokens := by
  have break_ : ∀ {text : Text} {tokens : List Token} (blank : Char), isBlank blank = true →
      text.head?.all (!isBlank ·) = true → Cuts text tokens core →
      Cuts (blank :: text) (blankTokens [blank] ++ tokens) core := by
    intro text tokens blank white head cuts
    exact (@cuts_blanks [blank] _ (by simpa [Text.isBlank] using white) head).append cuts
  have white : ∀ {blanks : Text}, ∀ token ∈ blankTokens blanks, token.isWhitespace = true :=
    fun _ mem => isWhitespace_of_mem_blankTokens mem
  induction annotations with
  | nil =>
      induction given with
      | nil => exact ⟨[], .nil, .nil⟩
      | cons modifier others ih =>
          obtain ⟨tokens, cuts, lead⟩ := ih
          obtain ⟨keyword, spelling, spells⟩ := modifier.exists_keyword
          have own := break_ ' ' (by decide) (lead.head_of_cuts cuts cut leads) cuts
          have first := @cut_keyword (' ' :: (frontText [] others ++ core)) keyword
            (stops_cons (by decide) _)
          have lead' := @LeadTokens.modifier [] modifier others ⟨.keyword keyword, keyword.text⟩
            (blankTokens [' ']) tokens (by simpa [Token.keyword?] using spells) white lead
          refine ⟨_, ?_, lead'⟩
          simpa [frontText, spelling] using Cuts.cons first own
  | cons node others ih =>
      obtain ⟨own, each⟩ := List.forall_mem_cons.1 each
      obtain ⟨tokens, cuts, lead⟩ := ih each
      obtain ⟨group, sign, reads, first⟩ := own.exists_group (frontText others given ++ core)
      have behind := break_ '\n' (by decide) (lead.head_of_cuts cuts cut leads) cuts
      have lead' := @LeadTokens.used node others given group (blankTokens ['\n']) tokens sign reads
        white lead
      refine ⟨_, ?_, lead'⟩
      simpa [frontText] using first.append behind

end

/-! ### The outermost class -/

namespace Reading

variable {tokens blanks : List Token}

theorem isTrivia_of_classWord {kind : ClassKind}
    (word : (currentToken tokens).kind = .keyword kind.keyword) :
    (currentToken tokens).isTrivia = false := by
  simp [Token.isTrivia, Token.isWhitespace, Token.isPlainComment, word]

theorem classifyTarget_of_classWord {kind : ClassKind}
    (word : (currentToken tokens).kind = .keyword kind.keyword) :
    classifyTarget tokens = some .classDecl := by
  apply classifyTarget_of_class
  rw [significantFrom_zero_eq, dropWhile_of_current (isTrivia_of_classWord word), word]
  cases kind <;> simp [ClassKind.keyword]

/-- The word that declares a class is the first token of a declaration. -/
theorem declares_of_class {kind : ClassKind}
    (word : (currentToken tokens).kind = .keyword kind.keyword) : Declares tokens where
  ink := (Bool.or_eq_false_iff.1 (isTrivia_of_classWord word)).1
  clear := by simp [Token.isComment, Token.isPlainComment, word]
  sign := by simp [word]
  word := by cases kind <;> simp [Token.keyword?, word, ClassKind.keyword, Keyword.modifier?]
  target := classifyTarget_of_classWord word ▸ rfl

end Reading

/-- The tokens of a Javadoc with white space behind it, or none. -/
inductive DocTokens : Option Javadoc → List Token → Prop where
  | absent : DocTokens none []
  | present {token node blanks} (kind : token.kind = .docComment)
      (reads : ∀ later, Reading.javadoc.Reads (token :: later) node later [])
      (blank : ∀ token ∈ blanks, token.isWhitespace = true) :
      DocTokens (some node) (token :: blanks)

/-- The text of a Javadoc on lines of its own, or no text, is cut into such tokens. -/
theorem exists_docTokens {javadoc : Option Javadoc} (canonical : ∀ doc ∈ javadoc, doc.Canonical)
    {text : Text} (ink : text.head?.all (!isBlank ·) = true) :
    ∃ front, Cuts (javadoc.toList.flatMap (·.render ++ ['\n']) ++ text) front text ∧
      DocTokens javadoc front ∧
      (javadoc.toList.flatMap (·.render ++ ['\n']) ++ text).head?.all (!isBlank ·) = true := by
  cases javadoc with
  | none => exact ⟨[], .nil, .absent, ink⟩
  | some node =>
      obtain ⟨token, cut, kind, clean, built⟩ :=
        Javadoc.cut_render (canonical node rfl) 0 ('\n' :: text)
      rw [Text.shift_zero] at cut
      have head := head_of_cut cut (by simp [Token.isWhitespace, kind])
      have breaks := @cuts_blanks ['\n'] _ (by decide) ink
      refine ⟨token :: blankTokens ['\n'], ?_, .present kind (fun later => ?_)
        fun _ mem => isWhitespace_of_mem_blankTokens mem, by simpa using head⟩
      · simpa using Cuts.cons cut breaks
      · refine Reading.reads_javadoc.2 ⟨rfl, token, ?_, kind, clean, built⟩
        exact List.dropWhile_cons_of_neg (by simp [Token.isWhitespace, kind])

namespace DocTokens

variable {javadoc : Option Javadoc} {front tokens : List Token}

/-- An outermost declaration begins with its Javadoc. -/
theorem beginsOuter (h : DocTokens javadoc front) (leads : (currentToken tokens).leads = true) :
    Reading.BeginsOuter (front ++ tokens) := by
  cases h with
  | absent => exact Reading.beginsOuter_of_leads leads
  | @present token node blanks kind _ blank =>
      have here : currentToken (token :: (blanks ++ tokens)) = token := rfl
      rw [List.cons_append]
      refine ⟨?_, ?_, ?_, fun heads => ?_⟩
      · simp [here, Token.isWhitespace, kind]
      · simp [here, Reading.startsOther, kind]
      · simp [here, Token.isPlainComment, kind]
      · exact Reading.not_announces_of_leads blank leads ((Reading.headsFile_cons _).1 heads).2

/-- The Javadoc is all that is read in front of an outermost declaration besides the comment that
waits for it. -/
theorem reads_outerPreface (h : DocTokens javadoc front)
    (leads : (currentToken tokens).leads = true) (state : FileState) :
    (Reading.outerPreface state).Reads (front ++ tokens)
      ({ state with sectionComment := none },
        { start := front ++ tokens, sectionComment := state.sectionComment, javadoc }) tokens
      [] := by
  have trivia := Bool.or_eq_false_iff.1 (Token.isTrivia_of_leads leads)
  have kinds := Token.not_leads_of_mem leads
  simp only [List.mem_cons, not_or] at kinds
  have last : ∀ {blanks : List Token} (both : FileState × Preface),
      (∀ token ∈ blanks, token.isWhitespace = true) →
      (Reading.iterate Reading.prefaceComment both).Reads (blanks ++ tokens) both tokens [] := by
    intro blanks both blank
    refine Reading.reads_iterate_last ?_
    rw [Reading.prefaceComment, Reading.reads_skipWhitespace_bind,
      List.dropWhile_append_of_pos blank, Reading.dropWhile_of_current trivia.1,
      Reading.reads_current_bind, if_neg (by simp [trivia.2])]
    exact Reading.reads_pure.2 ⟨rfl, rfl, rfl⟩
  rw [Reading.reads_outerPreface]
  cases h with
  | absent =>
      exact ⟨_, tokens, Reading.reads_documented.2 (.inr ⟨kinds.2.2.2.2.1, rfl, rfl⟩),
        @last [] _ (by simp)⟩
  | present kind reads blank =>
      exact ⟨_, _, Reading.reads_documented.2 (.inl ⟨kind, _, rfl, reads _⟩), last _ blank⟩

end DocTokens

namespace ClassDecl

/-- A class from its Javadoc on, with a text behind it. -/
def declaredText (node : ClassDecl) (rest : Text) : Text :=
  node.javadoc.toList.flatMap (·.render ++ ['\n']) ++
    (frontText node.annotations node.modifiers.toList ++
      node.openingText (bodyText node.members ++ rest))

/-- What it takes for the parts of a class in front of its body to be read back. -/
structure Written (node : ClassDecl) : Prop extends node.SpellsTypes where
  javadoc : ∀ doc ∈ node.javadoc, doc.Canonical
  annotations : ∀ used ∈ node.annotations, used.ReadsBack

end ClassDecl

/-- From its Javadoc on, a class begins with what a comment in front of it belongs to. -/
theorem ClassDecl.exists_cut_declaredText {node : ClassDecl}
    (javadoc : ∀ doc ∈ node.javadoc, doc.Canonical) (rest : Text) :
    ∃ token after, Cut (node.declaredText rest) token after ∧ token.isWhitespace = false ∧
      startsDeclaration false token = true := by
  rw [declaredText]
  cases doc : node.javadoc with
  | some doc' =>
      obtain ⟨token, cut, kind, -, -⟩ := Javadoc.cut_render (javadoc doc' doc) 0 ('\n' ::
        (frontText node.annotations node.modifiers.toList ++
          node.openingText (bodyText node.members ++ rest)))
      rw [Text.shift_zero] at cut
      refine ⟨token, _, by simpa using cut, ?_, ?_⟩
      · simp [Token.isWhitespace, kind]
      · simp [startsDeclaration, kind]
  | none =>
      rw [frontText]
      cases node.annotations with
      | cons used others =>
          refine ⟨_, _, cut_mark '@' .atSign (by decide), rfl, rfl⟩
      | nil =>
          cases node.modifiers.toList with
          | cons modifier others =>
              obtain ⟨word, spelling, spells⟩ := modifier.exists_keyword
              have cut := @cut_keyword (' ' :: (others.flatMap (·.text ++ [' ']) ++
                node.openingText (bodyText node.members ++ rest))) word (stops_cons (by decide) _)
              refine ⟨_, _, by simpa [spelling] using cut, rfl, ?_⟩
              simp [startsDeclaration, spells]
          | nil =>
              refine ⟨_, _, cut_keyword node.kind.keyword (stops_cons (by decide) _), rfl, ?_⟩
              cases node.kind <;> rfl

namespace Reading

variable {file : Text} {node : ClassDecl} {agains : List Member} {state : FileState}

/-- A class is the next item of a file where its Javadoc, its annotations and modifiers, and its
word, name and body stand in a row. -/
theorem fileStep_of_class {front lead tokens later : List Token}
    (waits : state.sectionComment = node.sectionComment) (first : state.outer = none)
    (outside : node.inner = false) (lawful : node.Lawful) (doc : DocTokens node.javadoc front)
    (before : LeadTokens node.annotations node.modifiers.toList lead)
    (word : (currentToken tokens).kind = .keyword node.kind.keyword)
    (reads : ∀ start, (classRest nestedDeclaration { LeadDraft.ofLead node.toLead with start }
      node.inner).Reads tokens ⟨node.alone, agains⟩ later []) :
    BeginsOuter (front ++ (lead ++ tokens)) ∧ FileStep state (front ++ (lead ++ tokens))
      (.again { state with sectionComment := none, outer := some ⟨node.alone, agains⟩ }) later := by
  have declares := declares_of_class word
  have leads := before.leads declares
  let start := front ++ (lead ++ tokens)
  let preface : Preface :=
    { start, sectionComment := state.sectionComment, javadoc := node.javadoc }
  let run : Preface := { LeadDraft.ofLead node.toLead with start }
  have modified : (modifierRun preface).Reads (lead ++ tokens) run tokens [] := by
    have modified := @LeadTokens.reads_modifierRun _ _ _ _ before declares [] (by simp) preface
    have same : { preface with
        annotations := preface.annotations ++ node.annotations
        modifiers := preface.modifiers ++ node.modifiers.toList } = run := by
      simp [preface, run, waits, LeadDraft.ofLead]
    rwa [same] at modified
  have clean : run.allDefects = [] := by
    have own := (List.append_eq_nil_iff.1 lawful.modifiers).1
    simpa [Preface.allDefects, run, LeadDraft.ofLead] using own
  have declared : (declaration preface false).Reads (lead ++ tokens)
      (.classDecl ⟨node.alone, agains⟩) later [] :=
    reads_declarationWith.2 ⟨run, _, [], [], .classDecl, modified,
      classifyTarget_of_classWord word, clean, reads_bind_pure.2 ⟨_, rfl, outside ▸ reads start⟩,
      rfl⟩
  have outer := reads_outerDeclaration_parts.2
    ⟨_, _, _, doc.reads_outerPreface leads state, declared, rfl⟩
  have begins := doc.beginsOuter leads
  have step := FileStep.declaration begins.starts begins.plain begins.alone outer
  simp only [FileState.addDeclaration, first] at step
  exact ⟨begins, step⟩

/-- With the comment that waits for it, an outermost class is read back from its Javadoc on. -/
theorem takes_outermost {blanks : Text} (blank : blanks.isBlank = true)
    (waits : state.sectionComment = node.sectionComment) (first : state.outer = none)
    (outside : node.inner = false) (sound : node.Sound) (lawful : node.Lawful)
    (written : node.Written) (each : List.Forall₂ (Member.Nests file) node.members agains)
    (rest : Text) :
    (fileItem state).Takes (blanks ++ node.declaredText rest)
      (.again { state with sectionComment := none, outer := some ⟨node.alone, agains⟩ }) rest := by
  -- where the declaration starts is not known yet, so its preface starts anywhere
  obtain ⟨core, cuts, reads⟩ := @Takes.uniform _ _ _ _ (List Token) _ (fun start =>
      classRest nestedDeclaration { LeadDraft.ofLead node.toLead with start } node.inner)
    fun start => takes_classRest rfl sound lawful written.toSpellsTypes each rest
  obtain ⟨after, word⟩ : ∃ after, Cut (node.openingText (bodyText node.members ++ rest))
      ⟨.keyword node.kind.keyword, node.kind.keyword.text⟩ after :=
    ⟨_, cut_keyword _ (stops_cons (by decide) _)⟩
  have leads : Token.leads ⟨.keyword node.kind.keyword, node.kind.keyword.text⟩ = true := by
    cases node.kind <;> rfl
  obtain ⟨lead, cuts', leadTokens⟩ :=
    exists_leadTokens_of_frontText written.annotations node.modifiers.toList word leads
  obtain ⟨front, cuts'', docTokens, head⟩ :=
    exists_docTokens written.javadoc (leadTokens.head_of_cuts cuts' word leads)
  refine ⟨_, (cuts_blanks blank head).append (cuts''.append (cuts'.append cuts)),
    fun later lexed => ?_⟩
  have here := begins_of_cut word _ (cuts.lexed lexed)
  obtain ⟨begins, step⟩ := fileStep_of_class waits first outside lawful docTokens leadTokens
    (by rw [here]) fun start => reads start later lexed
  have whole : blankTokens blanks ++ (front ++ (lead ++ core)) ++ later =
      blankTokens blanks ++ (front ++ (lead ++ (core ++ later))) := by simp
  rw [reads_fileItem, whole,
    List.dropWhile_append_of_pos fun token mem => isWhitespace_of_mem_blankTokens mem,
    dropWhile_of_current begins.ink]
  exact ⟨rfl, step⟩

end Reading

end JavaUnit
