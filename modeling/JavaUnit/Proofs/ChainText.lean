/-
Module: JavaUnit.Proofs.ChainText
Purpose: The text of a chain of builder calls tells the chain, although code is put into code with
  nothing but its line breaks changed. Every call stands behind a line break and one level of
  indentation, and no argument has a line of its own at that level that begins like a call: what
  is nested in it is at least one level deeper.
Main exports: Breaks, breaks_inj, deeper_append_eq, Chain.Regular, Chain.code_append_inj, Layout,
  Layout.Writes.inj, callWith_inj, nestedCall_inj
-/
import JavaUnit.BuilderCode
import JavaUnit.Proofs.Quoting

namespace JavaUnit

open Text

/-! ### Behind line breaks -/

/-- Behind each line break of a text stand some spaces, and then a character other than `mark`. -/
def Breaks (count : Nat) (mark : Char) (text : Text) : Prop :=
  ∀ front back, text = front ++ '\n' :: back →
    ∃ c rest, back = List.replicate count ' ' ++ c :: rest ∧ c ≠ mark

variable {count : Nat} {mark other : Char} {text left right rest rest' : Text}

/-- Text on one line has no line that begins like a call. -/
theorem breaks_of_notMem (line : '\n' ∉ text) : Breaks count mark text := by
  rintro front back rfl
  simp at line

theorem breaks_append (h : Breaks count mark left) (h' : Breaks count mark right) :
    Breaks count mark (left ++ right) := by
  intro front back whole
  rcases List.append_eq_append_iff.1 whole with ⟨more, -, inside⟩ | ⟨more, inside, behind⟩
  · exact h' more back inside
  · cases more with
    | nil => exact h' [] back behind.symm
    | cons d more =>
        simp only [List.cons_append, List.cons.injEq] at behind
        obtain ⟨rfl, rfl⟩ := behind
        obtain ⟨c, rest, rfl, next⟩ := h front more inside
        exact ⟨c, rest ++ right, by simp, next⟩

/-- Arguments on one line stay apart from the calls, whatever separates them there. -/
theorem breaks_join {parts : List Text} (h : ∀ part ∈ parts, Breaks count mark part)
    {separator : Text} (line : '\n' ∉ separator) : Breaks count mark (join separator parts) := by
  induction parts with
  | nil => exact breaks_of_notMem (by simp [join])
  | cons part more ih =>
      have first := h part List.mem_cons_self
      have later := ih fun part mem => h part (List.mem_cons_of_mem _ mem)
      cases more with
      | nil => simpa [join] using first
      | cons next more =>
          simp only [join, List.intercalate_cons_cons] at later ⊢
          exact breaks_append (breaks_append first (breaks_of_notMem line)) later

/-- A single line behind a line break. -/
theorem breaks_of_line {c : Char} (ink : c ≠ mark) (line : '\n' ∉ c :: text) :
    Breaks count mark ('\n' :: (List.replicate count ' ' ++ c :: text)) := by
  intro front back whole
  cases front with
  | nil =>
      simp only [List.nil_append, List.cons.injEq, true_and] at whole
      exact ⟨c, text, whole.symm, ink⟩
  | cons d front =>
      simp only [List.cons_append, List.cons.injEq] at whole
      have mem : '\n' ∈ List.replicate count ' ' ++ c :: text := by simp [whole.2]
      rcases List.mem_append.1 mem with mem | mem
      · simp at mem
      · exact absurd mem line

/-- What is indented at all has a space behind each line break. -/
theorem Breaks.indented (h : Breaks (count + 1) mark text) (ink : other ≠ ' ') :
    Breaks 0 other text := by
  intro front back whole
  obtain ⟨c, rest, rfl, -⟩ := h front back whole
  exact ⟨' ', List.replicate count ' ' ++ c :: rest, by simp [List.replicate_succ], Ne.symm ink⟩

theorem breaks_line (ink : mark ≠ ' ') (h : Breaks 0 mark text) :
    Breaks 0 mark ('\n' :: ' ' :: text) := by
  have space : Breaks 0 mark ['\n', ' '] := by
    intro front back whole
    cases front with
    | nil =>
        simp only [List.nil_append, List.cons.injEq, true_and] at whole
        exact ⟨' ', [], by simp [← whole], Ne.symm ink⟩
    | cons c front =>
        simp only [List.cons_append, List.cons.injEq] at whole
        cases front <;> simp at whole
  exact breaks_append space h

/-- Two texts are the same if the same line follows, which neither of them has. -/
theorem breaks_inj (h : Breaks count mark left) (h' : Breaks count mark right)
    (same : left ++ '\n' :: (List.replicate count ' ' ++ mark :: rest) =
      right ++ '\n' :: (List.replicate count ' ' ++ mark :: rest')) :
    left = right ∧ rest = rest' := by
  -- If one text goes on, it goes on with that line.
  have longer : ∀ {left more rest rest' : Text}, Breaks count mark (left ++ '\n' :: more) →
      List.replicate count ' ' ++ mark :: rest =
        more ++ '\n' :: (List.replicate count ' ' ++ mark :: rest') → False := by
    intro left more rest rest' breaks same
    obtain ⟨c, inside, rfl, next⟩ := breaks left more rfl
    simp only [List.append_assoc, List.append_cancel_left_eq, List.cons_append,
      List.cons.injEq] at same
    exact next same.1.symm
  rcases List.append_eq_append_iff.1 same with ⟨more, rfl, behind⟩ | ⟨more, rfl, behind⟩
  · cases more with
    | nil =>
        simp only [List.nil_append, List.cons.injEq, true_and, List.append_cancel_left_eq] at behind
        exact ⟨by simp, behind⟩
    | cons c more =>
        simp only [List.cons_append, List.cons.injEq] at behind
        obtain ⟨rfl, behind⟩ := behind
        exact (longer h' behind).elim
  · cases more with
    | nil =>
        simp only [List.nil_append, List.cons.injEq, true_and, List.append_cancel_left_eq] at behind
        exact ⟨by simp, behind.symm⟩
    | cons c more =>
        simp only [List.cons_append, List.cons.injEq] at behind
        obtain ⟨rfl, behind⟩ := behind
        exact (longer h behind).elim

/-! ### Code one level deeper -/

@[simp] theorem deeper_nil : deeper [] = [] := rfl

@[simp] theorem deeper_append (left right : Text) :
    deeper (left ++ right) = deeper left ++ deeper right := by
  simp [deeper]

theorem deeper_break (text : Text) : deeper ('\n' :: text) = '\n' :: (tab ++ deeper text) := by
  simp [deeper]

theorem deeper_cons {c : Char} (line : c ≠ '\n') (text : Text) :
    deeper (c :: text) = c :: deeper text := by
  simp [deeper, line]

theorem deeper_of_notMem (line : '\n' ∉ text) : deeper text = text := by
  induction text with
  | nil => rfl
  | cons c text ih =>
      simp only [List.mem_cons, not_or] at line
      rw [deeper_cons (Ne.symm line.1), ih line.2]

/-- Code that begins with other code does so before both are moved. -/
theorem deeper_append_eq (same : deeper left ++ rest = deeper right) :
    ∃ more, right = left ++ more ∧ rest = deeper more := by
  induction left generalizing right with
  | nil => exact ⟨right, rfl, same⟩
  | cons c left ih =>
      cases right with
      | nil => by_cases line : c = '\n' <;> simp [deeper, line] at same
      | cons d right =>
          by_cases line : c = '\n' <;> by_cases line' : d = '\n'
          · subst line line'
            simp only [deeper_break, List.cons_append, List.append_assoc, List.cons.injEq,
              true_and, List.append_cancel_left_eq] at same
            obtain ⟨more, whole, behind⟩ := ih same
            exact ⟨more, by simp [whole], behind⟩
          · subst line
            simp only [deeper_break, deeper_cons line', List.cons_append, List.cons.injEq] at same
            exact absurd same.1.symm line'
          · subst line'
            simp only [deeper_break, deeper_cons line, List.cons_append, List.cons.injEq] at same
            exact absurd same.1 line
          · simp only [deeper_cons line, deeper_cons line', List.cons_append,
              List.cons.injEq] at same
            obtain ⟨more, whole, behind⟩ := ih same.2
            exact ⟨more, by simp [same.1, whole], behind⟩

/-- Code is told by what it looks like one level deeper. -/
theorem deeper_inj (same : deeper left = deeper right) : left = right := by
  obtain ⟨more, whole, none⟩ := @deeper_append_eq left right [] (by simpa using same)
  cases more with
  | nil => simp [whole]
  | cons c more => by_cases line : c = '\n' <;> simp [deeper, line] at none

/-- Each line break of the deeper text is one of the text itself, and a level stands behind it. -/
theorem exists_break_of_deeper {front back : Text} (whole : deeper text = front ++ '\n' :: back) :
    ∃ front' back', text = front' ++ '\n' :: back' ∧ back = tab ++ deeper back' := by
  induction text generalizing front with
  | nil => simp at whole
  | cons c text ih =>
      by_cases line : c = '\n'
      · subst line
        rw [deeper_break] at whole
        cases front with
        | nil =>
            simp only [List.nil_append, List.cons.injEq, true_and] at whole
            exact ⟨[], text, rfl, whole.symm⟩
        | cons d front =>
            simp only [List.cons_append, List.cons.injEq] at whole
            -- the line break is not among the spaces
            rcases List.append_eq_append_iff.1 whole.2 with
              ⟨more, -, inside⟩ | ⟨more, inside, behind⟩
            · obtain ⟨front', back', rfl, same⟩ := ih inside
              exact ⟨'\n' :: front', back', rfl, same⟩
            · cases more with
              | nil =>
                  obtain ⟨front', back', rfl, same⟩ := @ih [] behind.symm
                  exact ⟨'\n' :: front', back', rfl, same⟩
              | cons e more =>
                  simp only [List.cons_append, List.cons.injEq] at behind
                  have plain : '\n' ∉ tab := by decide
                  exact absurd (by simp [inside, ← behind.1]) plain
      · rw [deeper_cons line] at whole
        cases front with
        | nil =>
            simp only [List.nil_append, List.cons.injEq] at whole
            exact absurd whole.1 line
        | cons d front =>
            simp only [List.cons_append, List.cons.injEq] at whole
            obtain ⟨front', back', rfl, same⟩ := ih whole.2
            exact ⟨c :: front', back', rfl, same⟩

/-- Text that is put one level deeper keeps to lines that are one level deeper. -/
theorem breaks_deeper (h : Breaks count mark text) : Breaks (4 + count) mark (deeper text) := by
  intro front back whole
  obtain ⟨front', back', rfl, rfl⟩ := exists_break_of_deeper whole
  obtain ⟨c, rest, rfl, next⟩ := h front' back' rfl
  have first : ∃ rest', deeper (c :: rest) = c :: rest' := by
    by_cases line : c = '\n'
    · exact ⟨_, by rw [line, deeper_break]⟩
    · exact ⟨_, deeper_cons line rest⟩
  obtain ⟨rest', first⟩ := first
  have spaces : deeper (List.replicate count ' ') = List.replicate count ' ' :=
    deeper_of_notMem (by simp)
  refine ⟨c, rest', ?_, next⟩
  rw [deeper_append, spaces, first, List.replicate_add, List.append_assoc]
  rfl

/-! ### Chains -/

/-- A call that can be told from those around it. -/
structure BuilderCall.Regular (call : BuilderCall) : Prop where
  word : '(' ∉ call.method
  line : '\n' ∉ call.method
  inner : call.method ≠ "build".toList
  arguments : Breaks 4 '.' call.arguments

structure Chain.Regular (chain : Chain) : Prop where
  head : '\n' ∉ chain.head
  calls : ∀ call ∈ chain.calls, call.Regular

/-- The text of some calls and of the one that builds the node, behind the first dot. -/
def callsText : List BuilderCall → Text
  | [] => "build()".toList
  | call :: others =>
    call.method ++ '(' :: (call.arguments ++ [')']
      ++ '\n' :: (List.replicate 4 ' ' ++ '.' :: callsText others))

theorem callsText_nil : callsText [] = "build".toList ++ '(' :: [')'] := rfl

theorem callsText_cons (call : BuilderCall) (others : List BuilderCall) :
    callsText (call :: others) = call.method ++ '(' :: (call.arguments ++ [')']
      ++ '\n' :: (List.replicate 4 ' ' ++ '.' :: callsText others)) := rfl

theorem Chain.code_eq (chain : Chain) :
    chain.code = chain.head ++ '\n' :: (List.replicate 4 ' ' ++ '.' :: callsText chain.calls) := by
  obtain ⟨head, calls⟩ := chain
  have lines : calls.flatMap BuilderCall.line ++ BuilderCall.line ⟨"build".toList, []⟩ =
      '\n' :: (List.replicate 4 ' ' ++ '.' :: callsText calls) := by
    induction calls with
    | nil => rfl
    | cons call others ih =>
        rw [List.flatMap_cons, List.append_assoc, ih, BuilderCall.line, callsText_cons]
        simp [tab, List.replicate_succ]
  rw [code, List.append_assoc, lines]

theorem callsText_cons_append (call : BuilderCall) (others : List BuilderCall) (rest : Text) :
    callsText (call :: others) ++ rest =
      call.method ++ '(' :: (call.arguments ++ [')']
        ++ '\n' :: (List.replicate 4 ' ' ++ '.' :: (callsText others ++ rest))) := by
  simp [callsText_cons]

/-- Calls are told one by one: the name of a method ends at its parenthesis, its arguments in front
of the next call. -/
theorem callsText_inj {calls others : List BuilderCall} (h : ∀ call ∈ calls, call.Regular)
    (h' : ∀ call ∈ others, call.Regular)
    (same : callsText calls ++ rest = callsText others ++ rest') :
    calls = others ∧ rest = rest' := by
  have word : '(' ∉ "build".toList := by decide
  induction calls generalizing others with
  | nil =>
      cases others with
      | nil => exact ⟨rfl, List.append_cancel_left same⟩
      | cons call others =>
          have own := h' call List.mem_cons_self
          simp only [callsText_nil, callsText_cons, List.append_assoc, List.cons_append] at same
          exact absurd (append_mark_inj word own.word same).1.symm own.inner
  | cons call calls ih =>
      have own := h call List.mem_cons_self
      cases others with
      | nil =>
          simp only [callsText_nil, callsText_cons, List.append_assoc, List.cons_append] at same
          exact absurd (append_mark_inj own.word word same).1 own.inner
      | cons call' others =>
          have own' := h' call' List.mem_cons_self
          have closed : Breaks 4 '.' [')'] := breaks_of_notMem (by decide)
          rw [callsText_cons_append, callsText_cons_append] at same
          obtain ⟨method, behind⟩ := append_mark_inj own.word own'.word same
          obtain ⟨arguments, later⟩ := breaks_inj (breaks_append own.arguments closed)
            (breaks_append own'.arguments closed) behind
          have first : call = call' := by
            cases call
            cases call'
            exact congr (congrArg BuilderCall.mk method) (List.append_cancel_right arguments)
          obtain ⟨behind, ends⟩ := ih (fun call mem => h call (List.mem_cons_of_mem _ mem))
            (fun call mem => h' call (List.mem_cons_of_mem _ mem)) later
          exact ⟨by rw [first, behind], ends⟩

namespace Chain

variable {chain chain' : Chain}

/-- The code of a chain tells the chain, and where it ends. -/
theorem code_append_inj (h : chain.Regular) (h' : chain'.Regular)
    (same : chain.code ++ rest = chain'.code ++ rest') : chain = chain' ∧ rest = rest' := by
  rw [code_eq, code_eq, List.append_assoc, List.append_assoc, List.cons_append,
    List.cons_append] at same
  obtain ⟨head, lines⟩ := append_mark_inj h.head h'.head same
  simp only [List.append_assoc, List.append_cancel_left_eq, List.cons_append, List.cons.injEq,
    true_and] at lines
  obtain ⟨calls, ends⟩ := callsText_inj h.calls h'.calls lines
  obtain ⟨head', calls'⟩ := chain
  subst head calls
  exact ⟨rfl, ends⟩

/-- Every line of code is indented but the first. -/
theorem breaks_code (h : chain.Regular) (ink : mark ≠ ' ') : Breaks 0 mark chain.code := by
  have line : ∀ text, Breaks 0 mark text →
      Breaks 0 mark ('\n' :: (List.replicate 4 ' ' ++ '.' :: text)) := by
    intro text inner
    have dot : Breaks 0 mark (List.replicate 3 ' ' ++ ['.']) := breaks_of_notMem (by decide)
    have whole := breaks_line ink (breaks_append dot inner)
    simpa [List.replicate_succ] using whole
  have lines : ∀ calls : List BuilderCall, (∀ call ∈ calls, call.Regular) →
      Breaks 0 mark (callsText calls) := by
    intro calls
    induction calls with
    | nil => exact fun _ => breaks_of_notMem (by decide)
    | cons call others ih =>
        intro regular
        have own := regular call List.mem_cons_self
        have later := ih fun call mem => regular call (List.mem_cons_of_mem _ mem)
        have opening : Breaks 0 mark (call.method ++ ['(']) :=
          breaks_of_notMem (by simp [own.line])
        have closing : Breaks 0 mark [')'] := breaks_of_notMem (by decide)
        have inside := own.arguments.indented ink
        have whole := breaks_append (breaks_append opening (breaks_append inside closing))
          (line _ later)
        simpa [callsText_cons] using whole
  rw [code_eq]
  exact breaks_append (breaks_of_notMem h.head) (line _ (lines _ h.calls))

end Chain

/-! ### Code as an argument -/

/-- The code of some chain. -/
def IsCode (text : Text) : Prop :=
  ∃ chain : Chain, chain.Regular ∧ text = chain.code

theorem prefixFree_code : PrefixFree IsCode := by
  rintro _ _ ⟨chain, regular, rfl⟩ ⟨chain', regular', rfl⟩ rest rest' same
  rw [(Chain.code_append_inj regular regular' same).1]

/-- Code that is an argument never goes on with the chain around it. -/
theorem breaks_nestedCode (h : IsCode text) (ink : mark ≠ ' ') :
    Breaks 4 mark (nestedCode text) := by
  obtain ⟨chain, regular, rfl⟩ := h
  have inside := breaks_deeper (Chain.breaks_code regular ink)
  exact breaks_append inside (breaks_of_notMem (by decide))

theorem nestedCode_inj (same : nestedCode left = nestedCode right) : left = right :=
  deeper_inj (List.append_cancel_right same)

/-- Codes of which none is the beginning of another one stay so one level deeper. -/
theorem prefixFree_nestedCode {P : Text → Prop} (free : PrefixFree P) :
    PrefixFree fun written => ∃ code, P code ∧ written = nestedCode code := by
  rintro _ _ ⟨code, known, rfl⟩ ⟨code', known', rfl⟩ rest rest' same
  have prefix_ : ∀ {code code' more : Text}, P code → P code' →
      deeper code ++ more = deeper code' → code = code' := by
    intro code code' more known known' whole
    obtain ⟨more', rfl, -⟩ := deeper_append_eq whole
    have ends : code ++ more' = (code ++ more') ++ [] := by simp
    exact free known known' ends
  simp only [nestedCode, List.append_assoc] at same
  rcases List.append_eq_append_iff.1 same with ⟨more, whole, -⟩ | ⟨more, whole, -⟩
  · rw [prefix_ known known' whole.symm]
  · rw [prefix_ known' known whole.symm]

/-! ### Layouts -/

/-- Whether `name` can be the method of a call in front of the last one. -/
def isMethod (name : Text) : Bool :=
  '(' ∉ name && '\n' ∉ name && name ≠ "build".toList

/-- The methods of a builder in the order in which they are called. Those in one place may be
mixed; none is called in two places. -/
structure Layout where
  methods : List (List Text)
  known : methods.flatten.all isMethod = true
  distinct : methods.flatten.Nodup

/-- Calls in segments, each with some methods of its own. -/
inductive Spells : List (List Text) → List (List BuilderCall) → Prop where
  | nil : Spells [] []
  | cons {names : List Text} {more : List (List Text)} {calls : List BuilderCall}
      {others : List (List BuilderCall)}
      (segment : ∀ call ∈ calls, call.method ∈ names ∧ Breaks 4 '.' call.arguments)
      (later : Spells more others) : Spells (names :: more) (calls :: others)

namespace Spells

variable {names names' : List (List Text)} {segments segments' : List (List BuilderCall)}

theorem append (h : Spells names segments) (h' : Spells names' segments') :
    Spells (names ++ names') (segments ++ segments') := by
  induction h with
  | nil => exact h'
  | cons segment _ ih => exact .cons segment ih

/-- Calls of the layout keep to its methods, and to their own lines. -/
theorem method_mem (h : Spells names segments) {call : BuilderCall}
    (mem : call ∈ segments.flatten) :
    call.method ∈ names.flatten ∧ Breaks 4 '.' call.arguments := by
  induction h with
  | nil => cases mem
  | cons segment later ih =>
      simp only [List.flatten_cons, List.mem_append] at mem ⊢
      cases mem with
      | inl here => exact ⟨.inl (segment call here).1, (segment call here).2⟩
      | inr there => exact ⟨.inr (ih there).1, (ih there).2⟩

/-- Calls one after another tell their segments: each of them ends where its methods do. -/
theorem inj (h : Spells names segments) (h' : Spells names segments')
    (distinct : names.flatten.Nodup) (same : segments.flatten = segments'.flatten) :
    segments = segments' := by
  induction h generalizing segments' with
  | nil =>
      cases h'
      rfl
  | @cons own more calls others segment later ih =>
      cases h' with
      | @cons _ _ calls' others' segment' later' =>
          simp only [List.flatten_cons, List.nodup_append] at distinct
          simp only [List.flatten_cons] at same
          -- A call is in one of the two parts, and not in the other.
          have apart : ∀ {call : BuilderCall} {others : List (List BuilderCall)},
              Spells more others → call.method ∈ own → call ∉ others.flatten := by
            intro call others spells here there
            exact distinct.2.2 _ here _ (spells.method_mem there).1 rfl
          have front : calls = calls' := by
            rcases List.append_eq_append_iff.1 same with
              ⟨rest, whole, behind⟩ | ⟨rest, whole, behind⟩
            · cases rest with
              | nil => simpa using whole.symm
              | cons call rest =>
                  have here := (segment' call (by simp [whole])).1
                  exact absurd (by simp [behind]) (apart later here)
            · cases rest with
              | nil => simpa using whole
              | cons call rest =>
                  have here := (segment call (by simp [whole])).1
                  exact absurd (by simp [behind]) (apart later' here)
          subst front
          rw [ih later' distinct.2.1 (List.append_cancel_left same)]

end Spells

/-- Code is written in a layout: it is that of a chain with some head and the calls of some
segments. -/
structure Layout.Writes (layout : Layout) (head : Text) (segments : List (List BuilderCall))
    (code : Text) : Prop where
  line : '\n' ∉ head
  spells : Spells layout.methods segments
  code : code = Chain.code ⟨head, segments.flatten⟩

namespace Layout.Writes

variable {layout : Layout} {head head' code code' : Text}
  {segments segments' : List (List BuilderCall)}

theorem regular (h : layout.Writes head segments code) :
    Chain.Regular ⟨head, segments.flatten⟩ := by
  refine ⟨h.line, fun call mem => ?_⟩
  obtain ⟨name, arguments⟩ := h.spells.method_mem mem
  have known := List.all_eq_true.1 layout.known _ name
  simp only [isMethod, Bool.and_eq_true, decide_eq_true_eq] at known
  exact ⟨known.1.1, known.1.2, known.2, arguments⟩

theorem isCode (h : layout.Writes head segments code) : IsCode code :=
  ⟨_, h.regular, h.code⟩

/-- Code in a layout tells its head and its segments. -/
theorem inj (h : layout.Writes head segments code) (h' : layout.Writes head' segments' code')
    (same : code = code') : head = head' ∧ segments = segments' := by
  have whole : Chain.code ⟨head, segments.flatten⟩ ++ [] =
      Chain.code ⟨head', segments'.flatten⟩ ++ [] := by
    rw [← h.code, ← h'.code, same]
  have chains := (Chain.code_append_inj h.regular h'.regular whole).1
  rw [Chain.mk.injEq] at chains
  exact ⟨chains.1, h.spells.inj h'.spells layout.distinct chains.2⟩

end Layout.Writes

/-! ### Calls -/

theorem breaks_callWith (method : Text) (texts : List Text) :
    Breaks 4 '.' (callWith method texts).arguments := by
  apply breaks_join _ (by decide)
  intro part mem
  obtain ⟨text, -, rfl⟩ := List.mem_map.1 mem
  exact breaks_of_notMem (notMem_quote text)

/-- Literals as arguments tell their texts. -/
@[simp] theorem callWith_inj {method method' : Text} {texts texts' : List Text} :
    callWith method texts = callWith method' texts' ↔ method = method' ∧ texts = texts' := by
  have each : ∀ texts : List Text, ∀ part ∈ texts.map quote,
      (∃ text, part = quote text) ∧ part ≠ [] := by
    intro texts part mem
    obtain ⟨text, -, rfl⟩ := List.mem_map.1 mem
    exact ⟨⟨text, rfl⟩, by simp [quote]⟩
  have injective : Function.Injective quote := by
    intro text other same
    have whole : quote text ++ [] = quote other ++ [] := by rw [same]
    exact (quote_append_inj whole).1
  simp only [callWith, BuilderCall.mk.injEq]
  constructor
  · rintro ⟨rfl, same⟩
    have parts := join_inj prefixFree_quote (by decide) (each texts) (each texts') same
    exact ⟨rfl, List.map_injective_iff.2 injective parts⟩
  · rintro ⟨rfl, rfl⟩
    exact ⟨rfl, rfl⟩

@[simp] theorem nestedCall_inj {method method' code code' : Text} :
    nestedCall method code = nestedCall method' code' ↔ method = method' ∧ code = code' := by
  simp only [nestedCall, BuilderCall.mk.injEq]
  constructor
  · rintro ⟨rfl, same⟩
    exact ⟨rfl, nestedCode_inj same⟩
  · rintro ⟨rfl, rfl⟩
    exact ⟨rfl, rfl⟩

@[simp] theorem rawCall_inj {method method' arguments arguments' : Text} :
    rawCall method arguments = rawCall method' arguments' ↔
      method = method' ∧ arguments = arguments' := by
  simp [rawCall]

section Segments

variable {α : Type _} {names : List Text} {method : Text} (values : List α)

/-- A call for each value of a part, all of one method, is a segment of the layout. -/
theorem segment_callWith (texts : α → List Text) (here : method ∈ names) :
    ∀ call ∈ values.map fun value => callWith method (texts value),
      call.method ∈ names ∧ Breaks 4 '.' call.arguments := by
  intro call mem
  obtain ⟨value, -, rfl⟩ := List.mem_map.1 mem
  exact ⟨here, breaks_callWith method (texts value)⟩

theorem segment_nestedCall {code : α → Text} (isCode : ∀ value ∈ values, IsCode (code value))
    (here : method ∈ names) :
    ∀ call ∈ values.map fun value => nestedCall method (code value),
      call.method ∈ names ∧ Breaks 4 '.' call.arguments := by
  intro call mem
  obtain ⟨value, listed, rfl⟩ := List.mem_map.1 mem
  exact ⟨here, breaks_nestedCode (isCode value listed) (by decide)⟩

end Segments

/-- A call without any text of its own. -/
theorem segment_rawCall {names : List Text} {method arguments : Text} (here : method ∈ names)
    (line : '\n' ∉ arguments) : ∀ call ∈ [rawCall method arguments],
      call.method ∈ names ∧ Breaks 4 '.' call.arguments := by
  intro call mem
  obtain rfl := List.mem_singleton.1 mem
  exact ⟨here, breaks_of_notMem line⟩

end JavaUnit
