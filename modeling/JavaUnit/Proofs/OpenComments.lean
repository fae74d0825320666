/-
Module: JavaUnit.Proofs.OpenComments
Purpose: Which comments of a source text a reader has to account for, told from the tokens alone:
  all but those in raw text. The regions of a file that are raw follow from the tokens in front of
  them; bodies, initializers and annotation values end where their brackets are balanced.
Main exports: Region, openComments, Reading.openComments_type, Reading.openComments_annotationUse,
  Reading.openComments_method
-/
import JavaUnit.Proofs.Reads

namespace JavaUnit

/-! ### Regions -/

/-- Whether a token is a comment of any style. -/
def Token.isComment (token : Token) : Bool :=
  token.isPlainComment || token.kind = .docComment

/-- Where a token stands in a file, as far as comments are concerned. -/
inductive Region where
  /-- Outside of all others; `classHead` tells whether the head of a class has begun, whose brace
  opens a class body and not a block. -/
  | code (classHead : Bool)
  /-- Between angle brackets, `depth` of which are open. -/
  | angles (classHead : Bool) (depth : Nat)
  /-- Behind an at sign, or a dot in the name behind it. -/
  | annotationName
  /-- Behind the name of an annotation that has values. -/
  | annotationParen
  /-- In front of an annotation value; `named` tells whether its name has been read. -/
  | valueStart (named : Bool)
  /-- Behind the name of an annotation value. -/
  | valueName
  /-- In an annotation value, where `depth` brackets are open. -/
  | value (depth : Nat)
  /-- In the initializer of a field. -/
  | initializer (depth : Nat)
  /-- In the body of a method or a static block. -/
  | block (depth : Nat)

namespace Region

/-- The region behind a token of an annotation value. A comma or a parenthesis ends the value. -/
def behindValue (depth : Nat) (token : Token) : Region :=
  match Reading.insideAnnotationValue depth token with
  | some depth => value depth
  | none => if token.kind = .comma then valueStart false else code false

/-- The region behind an identifier in the name of an annotation, in front of `rest`. -/
def behindName (rest : List Token) : Region :=
  let next := (currentToken (significantFrom 0 rest)).kind
  if next = .openParen then annotationParen
  else if next = .dot ∧ (currentToken (significantFrom 1 rest)).kind = .identifier then
    annotationName
  else code false

/-- The region behind a token, in front of `rest`. -/
def next : Region → Token → (rest : List Token) → Region
  | code classHead, token, _ =>
    match token.kind with
    | .keyword .class | .keyword .interface => code true
    | .less => angles classHead 1
    | .atSign => annotationName
    | .equals => initializer 0
    | .openBrace => if classHead then code false else block 0
    | .closeBrace | .semicolon => code false
    | _ => code classHead
  | angles classHead depth, token, _ =>
    match Reading.insideAngles depth token with
    | some depth => angles classHead depth
    | none => code classHead
  | annotationName, token, rest =>
    if token.kind = .identifier then behindName rest else annotationName
  | annotationParen, token, _ =>
    if token.kind = .openParen then valueStart false else annotationParen
  | valueStart named, token, rest =>
    if token.isTrivia then valueStart named
    else if named = false ∧ token.kind = .identifier
        ∧ (currentToken (significantFrom 0 rest)).kind = .equals then
      valueName
    else behindValue 0 token
  | valueName, token, _ => if token.kind = .equals then valueStart true else valueName
  | value depth, token, _ => behindValue depth token
  | initializer depth, token, _ =>
    match Reading.insideInitializer depth token with
    | some depth => initializer depth
    | none => code false
  | block depth, token, _ =>
    match Reading.insideBlock depth token with
    | some depth => block depth
    | none => code false

/-- Whether a token is a comment that is no part of raw text. Between angle brackets doc comments
are raw, and one in front of an annotation value is the beginning of the value. -/
def shows : Region → Token → Bool
  | code _, token | annotationName, token | annotationParen, token | valueName, token =>
    token.isComment
  | angles _ _, token | valueStart _, token => token.isPlainComment
  | value _, _ | initializer _, _ | block _, _ => false

/-- Whether trivia leave a region as it is, with all plain comments shown. -/
def waits : Region → Bool
  | value _ | initializer _ | block _ => false
  | _ => true

end Region

/-- The comments outside of raw text among the tokens of a region and those behind it. -/
def openComments : Region → List Token → List Token
  | _, [] => []
  | region, token :: rest =>
    if token.isEnd then []
    else
      let later := openComments (region.next token rest) rest
      if region.shows token then token :: later else later

namespace Region

theorem next_of_isTrivia {region : Region} {token : Token} (h : token.isTrivia = true)
    (waits : region.waits = true) (rest : List Token) : region.next token rest = region := by
  have kinds : token.kind = .whitespace ∨ token.kind = .lineComment ∨
      token.kind = .blockComment := by
    simpa [Token.isTrivia, Token.isWhitespace, Token.isPlainComment] using h
  cases region with
  | value => simp [Region.waits] at waits
  | initializer => simp [Region.waits] at waits
  | block => simp [Region.waits] at waits
  | valueStart => simp [next, h]
  | angles head depth =>
      rcases kinds with kind | kind | kind <;>
        simp [next, Reading.insideAngles, Reading.endsAngleGroup, kind]
  | code => rcases kinds with kind | kind | kind <;> simp [next, kind]
  | annotationName => rcases kinds with kind | kind | kind <;> simp [next, kind]
  | annotationParen => rcases kinds with kind | kind | kind <;> simp [next, kind]
  | valueName => rcases kinds with kind | kind | kind <;> simp [next, kind]

theorem shows_of_isPlainComment {region : Region} {token : Token}
    (h : token.isPlainComment = true) (waits : region.waits = true) :
    region.shows token = true := by
  cases region <;> simp_all [shows, Token.isComment, Region.waits]

theorem shows_of_isWhitespace {region : Region} {token : Token}
    (h : token.isWhitespace = true) : region.shows token = false := by
  have plain := Token.isPlainComment_eq_false_of_isWhitespace h
  have doc : token.kind ≠ .docComment := by
    simp_all [Token.isWhitespace]
  cases region <;> simp [shows, Token.isComment, plain, doc]

end Region

variable {region : Region} {tokens rest skipped : List Token} {token : Token}

theorem openComments_cons (inside : token.isEnd = false) (hidden : region.shows token = false) :
    openComments region (token :: rest) = openComments (region.next token rest) rest := by
  rw [openComments, if_neg (by simp [inside]), if_neg (by simp [hidden])]

theorem openComments_cons_of_isWhitespace (blank : token.isWhitespace = true)
    (waits : region.waits = true) :
    openComments region (token :: rest) = openComments region rest := by
  have trivia : token.isTrivia = true := Token.isTrivia_iff.2 (.inl blank)
  rw [openComments_cons (Token.isEnd_eq_false_of_isTrivia trivia)
    (Region.shows_of_isWhitespace blank), Region.next_of_isTrivia trivia waits]

theorem openComments_cons_of_isPlainComment (plain : token.isPlainComment = true)
    (waits : region.waits = true) :
    openComments region (token :: rest) = token :: openComments region rest := by
  have trivia : token.isTrivia = true := Token.isTrivia_iff.2 (.inr plain)
  rw [openComments, if_neg (by simp [Token.isEnd_eq_false_of_isTrivia trivia]),
    if_pos (Region.shows_of_isPlainComment plain waits), Region.next_of_isTrivia trivia waits]

/-- The comments in front of the next token that matters show. -/
theorem openComments_significantFrom (waits : region.waits = true) (tokens : List Token) :
    openComments region tokens =
      leadingComments tokens ++ openComments region (significantFrom 0 tokens) := by
  induction tokens with
  | nil => simp [openComments, leadingComments, significantFrom]
  | cons first others ih =>
      by_cases trivia : first.isTrivia = true
      · rw [leadingComments] at ih
        rcases Token.isTrivia_iff.1 trivia with blank | plain
        · rw [openComments_cons_of_isWhitespace blank waits, ih, leadingComments]
          simp [trivia, significantFrom, Token.isPlainComment_eq_false_of_isWhitespace blank]
        · rw [openComments_cons_of_isPlainComment plain waits, ih, leadingComments]
          simp [trivia, significantFrom, plain]
      · rw [leadingComments, List.takeWhile_cons_of_neg trivia, significantFrom_zero_eq,
          List.dropWhile_cons_of_neg trivia]
        rfl

theorem openComments_dropWhile_isWhitespace (waits : region.waits = true) (tokens : List Token) :
    openComments region (tokens.dropWhile Token.isWhitespace) = openComments region tokens := by
  induction tokens with
  | nil => rfl
  | cons first others ih =>
      by_cases blank : first.isWhitespace = true
      · rw [List.dropWhile_cons_of_pos blank, ih, openComments_cons_of_isWhitespace blank waits]
      · rw [List.dropWhile_cons_of_neg blank]

/-- Where a token is passed without stepping over comments, none shows up to behind it. -/
theorem Passes.openComments_eq (h : Passes tokens token rest []) (waits : region.waits = true)
    (hidden : region.shows token = false) :
    openComments region tokens = openComments (region.next token rest) rest := by
  rw [openComments_significantFrom waits, h.leadingComments_eq, h.significantFrom_zero,
    List.nil_append, openComments_cons h.isEnd_eq_false hidden]

/-! ### Raw text -/

/-- Scanning runs through regions `place state`. It shows the comments that pass, and it ends in a
region whose state does not let the next token pass. -/
theorem openComments_scanTokens (verdict : σ → Token → Option σ) (place : σ → Region)
    (comment : Token → Bool) (shows : ∀ state token, (place state).shows token = comment token)
    (next : ∀ {state token state'} (rest : List Token), verdict state token = some state' →
      (place state).next token rest = place state')
    (state : σ) (tokens : List Token) :
    ∃ last, openComments (place state) tokens =
        (Reading.scanTokens verdict state tokens).1.filter comment ++
          openComments (place last) (Reading.scanTokens verdict state tokens).2 ∧
      ((currentToken (Reading.scanTokens verdict state tokens).2).isEnd = false →
        verdict last (currentToken (Reading.scanTokens verdict state tokens).2) = none) := by
  induction tokens generalizing state with
  | nil =>
      refine ⟨state, rfl, fun inside => ?_⟩
      cases inside
  | cons first others ih =>
      rw [Reading.scanTokens]
      by_cases ends : first.isEnd = true
      · rw [if_pos ends]
        refine ⟨state, rfl, fun inside => ?_⟩
        rw [currentToken, List.head?_cons, Option.getD_some, ends] at inside
        cases inside
      · rw [if_neg ends]
        cases passes : verdict state first with
        | none => exact ⟨state, rfl, fun _ => passes⟩
        | some state' =>
            obtain ⟨last, same, stops⟩ := ih state'
            refine ⟨last, ?_, stops⟩
            rw [openComments, if_neg ends, shows, next others passes, same]
            by_cases shown : comment first = true
            · simp [shown]
            · simp [shown]

/-- Nothing shows in raw text. -/
theorem openComments_scanTokens_raw (verdict : σ → Token → Option σ) (place : σ → Region)
    (hidden : ∀ state token, (place state).shows token = false)
    (next : ∀ {state token state'} (rest : List Token), verdict state token = some state' →
      (place state).next token rest = place state')
    (state : σ) (tokens : List Token)
    (inside : (currentToken (Reading.scanTokens verdict state tokens).2).isEnd = false) :
    ∃ last, openComments (place state) tokens =
        openComments (place last) (Reading.scanTokens verdict state tokens).2 ∧
      verdict last (currentToken (Reading.scanTokens verdict state tokens).2) = none := by
  obtain ⟨last, same, stops⟩ :=
    openComments_scanTokens verdict place (fun _ => false) hidden next state tokens
  rw [List.filter_eq_nil_iff.2 (by simp), List.nil_append] at same
  exact ⟨last, same, stops inside⟩

/-- The region behind the token that ends raw text. -/
theorem openComments_tail (inside : (currentToken tokens).isEnd = false)
    (hidden : region.shows (currentToken tokens) = false) :
    openComments region tokens =
      openComments (region.next (currentToken tokens) tokens.tail) tokens.tail := by
  cases tokens with
  | nil => exact absurd inside (by decide)
  | cons first others => exact openComments_cons inside hidden

namespace Reading

variable {value : α} {scope : Scope} {classHead : Bool}

/-- A block is raw between its braces. -/
theorem openComments_block {text : Text} (opens : (currentToken tokens).kind = .openBrace)
    (h : (block scope).Reads tokens text rest skipped) :
    openComments (.code false) tokens = openComments (.code false) rest := by
  simp only [block, reads_advance_bind, reads_scan_bind, reads_current_bind, reads_ite,
    not_reads_fail, and_false, false_or, reads_pure, Bool.not_eq_true] at h
  obtain ⟨closing, rfl, rfl, rfl⟩ := h
  have opening : (currentToken tokens).isEnd = false := by simp [Token.isEnd, opens]
  rw [openComments_tail opening (by simp [Region.shows, Token.isComment, Token.isPlainComment, opens])]
  simp only [opening, Bool.false_eq_true, if_false] at closing ⊢
  obtain ⟨last, same, ends⟩ := openComments_scanTokens_raw insideBlock Region.block
    (fun _ _ => rfl)
    (fun rest passes => by simp only [Region.next, passes]) 0 tokens.tail closing
  simp only [Region.next, opens, Bool.false_eq_true, if_false, same, closing]
  rw [openComments_tail closing rfl]
  simp only [Region.next, ends]

/-- So is an initializer up to its semicolon. -/
theorem openComments_initializer {text : Text}
    (h : (initializer scope).Reads tokens text rest skipped) :
    openComments (.initializer 0) tokens = openComments (.code false) rest := by
  simp only [initializer, reads_scan_bind, reads_current_bind, reads_ite, reads_advance_bind,
    not_reads_fail, not_reads_unexpected, and_false, or_false, reads_pure] at h
  obtain ⟨closing, rfl, rfl, rfl⟩ := h
  have inside : (currentToken (scanTokens insideInitializer 0 tokens).2).isEnd = false := by
    simp [Token.isEnd, closing]
  obtain ⟨last, same, ends⟩ := openComments_scanTokens_raw insideInitializer
    Region.initializer (fun _ _ => rfl)
    (fun rest passes => by simp only [Region.next, passes]) 0 tokens inside
  rw [same, openComments_tail inside rfl]
  simp only [Region.next, ends, inside, Bool.false_eq_true, if_false]

/-- So is an annotation value up to what ends it; comments in front of it are stepped over. -/
theorem openComments_annotationValue {text : Text} {named : Bool}
    (nameless : named = true ∨ ¬ ((currentToken (significantFrom 0 tokens)).kind = .identifier ∧
      (currentToken (significantFrom 1 tokens)).kind = .equals))
    (h : (annotationValue scope).Reads tokens text rest []) :
    ∃ depth, openComments (.valueStart named) tokens = openComments (.value depth) rest ∧
      insideAnnotationValue depth (currentToken rest) = none ∧
      (currentToken rest).isEnd = false := by
  simp only [annotationValue, reads_skipTrivia_bind, reads_scan_bind, reads_current_bind,
    reads_ite, not_reads_fail, and_false, false_or, reads_pure, Bool.not_eq_true] at h
  obtain ⟨later, ⟨inside, rfl, rfl, rfl⟩, skips⟩ := h
  -- The first token of the value is there, since the scan does not end at the end of the input.
  have first : (currentToken (significantFrom 0 tokens)).isEnd = false := by
    cases ahead : significantFrom 0 tokens with
    | nil =>
        rw [ahead] at inside
        cases inside
    | cons token others =>
        by_cases ends : token.isEnd = true
        · rw [ahead, scanTokens, if_pos ends, currentToken, List.head?_cons, Option.getD_some,
            ends] at inside
          cases inside
        · simpa [currentToken] using ends
  obtain ⟨others, passed, passes⟩ := exists_passes first
  have begins : openComments (.valueStart named) tokens =
      openComments (.value 0) (significantFrom 0 tokens) := by
    rw [openComments_significantFrom rfl, passes.significantFrom_zero]
    rw [List.append_nil] at skips
    rw [← skips, List.nil_append]
    have matters := passes.isTrivia_eq_false
    have hidden : Region.shows (.valueStart named) (currentToken (significantFrom 0 tokens)) =
        false := by
      rw [Token.isTrivia, Bool.or_eq_false_iff] at matters
      exact matters.2
    rw [openComments_cons first hidden, openComments_cons first rfl]
    have next : ¬ (named = false ∧ (currentToken (significantFrom 0 tokens)).kind = .identifier ∧
        (currentToken (significantFrom 0 others)).kind = .equals) := by
      rintro ⟨unnamed, identifier, equals⟩
      rcases nameless with rfl | nameless
      · cases unnamed
      · rw [passes.significantFrom_succ] at nameless
        exact nameless ⟨identifier, equals⟩
    rw [Region.next, Region.next, if_neg (by simp [matters]), if_neg next]
  obtain ⟨last, same, ends⟩ := openComments_scanTokens_raw insideAnnotationValue
    Region.value (fun _ _ => rfl)
    (fun rest passes => by simp only [Region.next, Region.behindValue, passes]) 0
    (significantFrom 0 tokens) inside
  exact ⟨last, begins.trans same, ends, inside⟩

end Reading

/-! ### Code -/

/-- Whether tokens of a kind leave a region of code as it is and are no comments. -/
def Kind.isNeutral : Kind → Bool
  | .keyword word => word ≠ .class ∧ word ≠ .interface
  | .identifier | .dot | .comma | .openParen | .closeParen | .openBracket | .closeBracket
  | .ellipsis | .operator => true
  | _ => false

namespace Passes

/-- Passing a neutral token stays in the region of code. -/
theorem openComments_of_isNeutral {classHead : Bool} (h : Passes tokens token rest [])
    (neutral : token.kind.isNeutral = true) :
    openComments (.code classHead) tokens = openComments (.code classHead) rest := by
  have hidden : Region.shows (.code classHead) token = false := by
    have plain := h.isTrivia_eq_false
    rw [Token.isTrivia, Bool.or_eq_false_iff] at plain
    rw [Region.shows, Token.isComment, plain.2, Bool.false_or, decide_eq_false_iff_not]
    intro doc
    rw [doc] at neutral
    cases neutral
  have next : Region.next (.code classHead) token rest = .code classHead := by
    cases token with
    | mk kind text =>
        cases kind with
        | keyword word => cases word <;> first | rfl | cases neutral
        | _ => first | rfl | cases neutral
  rw [h.openComments_eq rfl hidden, next]

end Passes

namespace Reading

variable {scope : Scope} {classHead : Bool}

/-- What every step of a repetition leaves alone, the repetition leaves alone. -/
theorem openComments_iterate {step : σ → Reading (Turn σ)} {state last : σ}
    (law : ∀ {state turn tokens rest}, (step state).Reads tokens turn rest [] →
      openComments region tokens = openComments region rest)
    (h : (iterate step state).Reads tokens last rest []) :
    openComments region tokens = openComments region rest := by
  obtain ⟨before, mid, done, passed, inv, split, ends⟩ := reads_iterate h
    (fun _ mid done => done = [] → openComments region tokens = openComments region mid)
    (fun _ => rfl)
    (fun inv one clean => by
      rw [List.append_eq_nil_iff] at clean
      obtain ⟨rfl, rfl⟩ := clean
      exact (inv rfl).trans (law one))
  obtain ⟨rfl, rfl⟩ := List.append_eq_nil_iff.1 split.symm
  rcases ends with ends | ⟨ends, -⟩
  · exact (inv rfl).trans (law ends)
  · exact (inv rfl).trans (law ends)

theorem openComments_identifier {what : Expectation} {text : Text}
    (h : (identifier scope what).Reads tokens text rest []) :
    openComments (.code classHead) tokens = openComments (.code classHead) rest := by
  obtain ⟨token, kind, -, passes⟩ := reads_identifier.1 h
  exact passes.openComments_of_isNeutral (by rw [kind]; rfl)

/-- Between angle brackets no plain comment stands, and doc comments are raw. -/
theorem openComments_angleGroup {group : List Token}
    (opens : (currentToken (significantFrom 0 tokens)).kind = .less)
    (h : (angleGroup scope).Reads tokens group rest []) :
    openComments (.code classHead) tokens = openComments (.code classHead) rest := by
  obtain ⟨token, mid, passed, kind, passes⟩ := exists_passes_of_kind opens (by decide)
  simp only [angleGroup, reads_bump_bind passes, reads_scan_bind, reads_skip_bind,
    reads_advance_bind, reads_ite, reads_pure, not_reads_fail, and_false, or_false] at h
  obtain ⟨_, ⟨_, ⟨closing, -, rfl, rfl⟩, rfl⟩, skips⟩ := h
  simp only [List.append_nil, List.nil_eq, List.append_eq_nil_iff] at skips
  obtain ⟨rfl, clean⟩ := skips
  have inside : (currentToken (scanTokens insideAngles 1 mid).2).isEnd = false := by
    simp [Token.isEnd, closing]
  obtain ⟨last, same, stops⟩ := openComments_scanTokens insideAngles (Region.angles classHead)
    Token.isPlainComment (fun _ _ => rfl)
    (fun rest passes => by simp only [Region.next, passes]) 1 mid
  rw [passes.openComments_eq rfl (by simp [Region.shows, Token.isComment, Token.isPlainComment, kind])]
  simp only [Region.next, kind, same, clean, List.nil_append, inside, Bool.false_eq_true, if_false]
  rw [openComments_tail inside (by simp [Region.shows, Token.isPlainComment, closing])]
  simp only [Region.next, stops inside]

/-- Two neutral tokens in a row. -/
theorem openComments_bump_bump {first second : Kind} {next : Token → Token → Reading α}
    {value : α} (is : (currentToken (significantFrom 0 tokens)).kind = first)
    (is' : (currentToken (significantFrom 1 tokens)).kind = second)
    (neutral : first.isNeutral = true) (neutral' : second.isNeutral = true)
    (h : (bump >>= fun token => bump >>= next token).Reads tokens value rest []) :
    ∃ token token' mid, openComments (.code classHead) tokens =
      openComments (.code classHead) mid ∧ (next token token').Reads mid value rest [] := by
  have inside : first ≠ .eof := by
    rintro rfl
    cases neutral
  have inside' : second ≠ .eof := by
    rintro rfl
    cases neutral'
  obtain ⟨token, mid, passed, token', mid', passed', kind, passes, kind', passes'⟩ :=
    exists_passes_of_kinds is is' inside inside'
  simp only [reads_bump_bind passes, reads_bump_bind passes'] at h
  obtain ⟨_, ⟨later, reads, rfl⟩, skips⟩ := h
  simp only [List.nil_eq, List.append_eq_nil_iff] at skips
  obtain ⟨rfl, rfl, rfl⟩ := skips
  refine ⟨token, token', mid', ?_, reads⟩
  rw [passes.openComments_of_isNeutral (by rw [kind, neutral]),
    passes'.openComments_of_isNeutral (by rw [kind', neutral'])]

theorem openComments_typePart {parts : List Token} {turn : Turn (List Token)}
    (h : (typePart scope parts).Reads tokens turn rest []) :
    openComments (.code classHead) tokens = openComments (.code classHead) rest := by
  simp only [typePart, reads_peek_bind, reads_ite] at h
  rcases h with ⟨⟨is, is'⟩ | ⟨is, is'⟩, h⟩ | ⟨-, ⟨opens, h⟩ | ⟨-, ⟨dots, h⟩ | ⟨-, h⟩⟩⟩
  · obtain ⟨_, _, mid, same, ends⟩ := openComments_bump_bump is is' rfl rfl h
    obtain ⟨-, rfl, -⟩ := reads_pure.1 ends
    exact same
  · obtain ⟨_, _, mid, same, ends⟩ := openComments_bump_bump is is' rfl rfl h
    obtain ⟨-, rfl, -⟩ := reads_pure.1 ends
    exact same
  · rw [reads_bind_nil] at h
    obtain ⟨group, _, reads, ends⟩ := h
    obtain ⟨-, rfl, -⟩ := reads_pure.1 ends
    exact openComments_angleGroup opens reads
  · obtain ⟨token, mid, passed, kind, passes⟩ := exists_passes_of_kind dots (by decide)
    simp only [reads_bump_bind passes, reads_pure] at h
    obtain ⟨_, ⟨-, rfl, rfl⟩, skips⟩ := h
    rw [List.append_nil] at skips
    exact (skips ▸ passes).openComments_of_isNeutral (by rw [kind]; rfl)
  · obtain ⟨-, rfl, -⟩ := reads_pure.1 h
    rfl

theorem isNeutral_of_startsType {token : Token} (h : startsType token = true) :
    token.kind.isNeutral = true := by
  cases token with
  | mk kind text =>
      cases kind with
      | keyword word =>
          cases word <;> first | rfl | simp [startsType, Token.keyword?, Keyword.isType] at h
      | _ => first | rfl | simp [startsType, Token.keyword?] at h

theorem isEnd_eq_false_of_isNeutral {token : Token} (h : token.kind.isNeutral = true) :
    token.isEnd = false := by
  rw [Token.isEnd, decide_eq_false_iff_not]
  intro ends
  rw [ends] at h
  cases h

theorem openComments_type {text : Text} (h : (type scope).Reads tokens text rest []) :
    openComments (.code classHead) tokens = openComments (.code classHead) rest := by
  simp only [type, reads_skipTrivia_bind, reads_current_bind, reads_ite, reads_advance_bind,
    not_reads_unexpected, and_false, or_false] at h
  obtain ⟨later, ⟨starts, h⟩, skips⟩ := h
  have neutral := isNeutral_of_startsType starts
  obtain ⟨mid, passed, passes⟩ := exists_passes (isEnd_eq_false_of_isNeutral neutral)
  rw [passes.leadingComments_eq, List.nil_eq, List.append_eq_nil_iff] at skips
  obtain ⟨rfl, rfl⟩ := skips
  rw [isEnd_eq_false_of_isNeutral neutral, passes.significantFrom_zero, reads_bind_nil] at h
  obtain ⟨parts, behind, reads, ends⟩ := h
  obtain ⟨-, rfl, -⟩ := reads_pure.1 ends
  rw [passes.openComments_of_isNeutral neutral]
  exact openComments_iterate openComments_typePart reads

theorem openComments_typeList {types : List Text}
    (h : (typeList scope).Reads tokens types rest []) :
    openComments (.code classHead) tokens = openComments (.code classHead) rest := by
  rw [typeList, reads_bind_nil] at h
  obtain ⟨first, mid, reads, others⟩ := h
  refine (openComments_type reads).trans (openComments_iterate ?_ others)
  intro types turn tokens rest step
  rw [reads_accept_bind .comma (by decide)] at step
  rcases step with ⟨token, mid, passed, later, kind, passes, step, skips⟩ | ⟨-, later, step, skips⟩
  · obtain ⟨rfl, rfl⟩ := List.append_eq_nil_iff.1 skips.symm
    simp only [if_true] at step
    rw [reads_bind_nil] at step
    obtain ⟨type, _, reads, ends⟩ := step
    obtain ⟨-, rfl, -⟩ := reads_pure.1 ends
    rw [passes.openComments_of_isNeutral (by rw [kind]; rfl), openComments_type reads]
  · simp only [Bool.false_eq_true, if_false, reads_pure] at step
    obtain ⟨-, rfl, rfl⟩ := step
    rw [openComments_significantFrom rfl tokens, (List.append_eq_nil_iff.1 skips.symm).1,
      List.nil_append]

/-- A turn that reads on over two neutral tokens if they are next, and stops otherwise. -/
theorem openComments_pair {first second : Kind} {again : Token → Token → α} {last value : α}
    (neutral : first.isNeutral = true) (neutral' : second.isNeutral = true)
    (h : (peek 0 >>= fun token => peek 1 >>= fun token' =>
      if token.kind = first ∧ token'.kind = second then
        bump >>= fun token => bump >>= fun token' => pure (again token token')
      else pure last).Reads tokens value rest []) :
    openComments (.code classHead) tokens = openComments (.code classHead) rest := by
  simp only [reads_peek_bind, reads_ite] at h
  rcases h with ⟨⟨is, is'⟩, h⟩ | ⟨-, h⟩
  · obtain ⟨_, _, mid, same, ends⟩ := openComments_bump_bump is is' neutral neutral' h
    obtain ⟨-, rfl, -⟩ := reads_pure.1 ends
    exact same
  · obtain ⟨-, rfl, -⟩ := reads_pure.1 h
    rfl

theorem openComments_arrayDims {dims : Text} (h : arrayDims.Reads tokens dims rest []) :
    openComments (.code classHead) tokens = openComments (.code classHead) rest := by
  exact openComments_iterate (fun step => openComments_pair rfl rfl step) h

theorem openComments_qualifiedName {what : Expectation} {name : Text}
    (h : (qualifiedName scope what).Reads tokens name rest []) :
    openComments (.code classHead) tokens = openComments (.code classHead) rest := by
  rw [qualifiedName, reads_bind_nil] at h
  obtain ⟨first, mid, reads, others⟩ := h
  exact (openComments_identifier reads).trans
    (openComments_iterate (fun step => openComments_pair rfl rfl step) others)

/-! ### Statements -/

/-- A token of a kind that is neutral, and asked for. -/
theorem openComments_expect {kind : Kind} {what : Expectation} {value : Unit}
    (neutral : kind.isNeutral = true)
    (h : (expect scope kind what).Reads tokens value rest []) :
    openComments (.code classHead) tokens = openComments (.code classHead) rest := by
  have inside : kind ≠ .eof := by
    rintro rfl
    cases neutral
  obtain ⟨token, is, passes⟩ := (reads_expect kind inside).1 h
  exact passes.openComments_of_isNeutral (by rw [is, neutral])

theorem openComments_expect_semicolon {what : Expectation} {value : Unit}
    (h : (expect scope .semicolon what).Reads tokens value rest []) :
    openComments (.code classHead) tokens = openComments (.code false) rest := by
  obtain ⟨token, is, passes⟩ := (reads_expect .semicolon (by decide)).1 h
  rw [passes.openComments_eq rfl (by simp [Region.shows, Token.isComment, Token.isPlainComment, is])]
  simp only [Region.next, is]

theorem openComments_packageStatement {node : Package}
    (h : packageStatement.Reads tokens node rest skipped) :
    skipped = [] ∧ openComments (.code false) tokens = openComments (.code false) rest := by
  simp only [packageStatement, reads_scopeHere_bind, reads_finish, reads_bind_nil] at h
  obtain ⟨rfl, _, ⟨_, first, word, _, second, name, _, third, semicolon, ends⟩, -⟩ := h
  obtain ⟨-, rfl, -⟩ := reads_pure.1 ends
  refine ⟨rfl, ?_⟩
  rw [← openComments_dropWhile_isWhitespace rfl tokens, openComments_expect rfl word,
    openComments_qualifiedName name, openComments_expect_semicolon semicolon]

/-- A bump of a neutral token. -/
theorem openComments_bump {kind : Kind} {value : Token}
    (is : (currentToken (significantFrom 0 tokens)).kind = kind) (neutral : kind.isNeutral = true)
    (h : bump.Reads tokens value rest []) :
    openComments (.code classHead) tokens = openComments (.code classHead) rest := by
  have inside : kind ≠ .eof := by
    rintro rfl
    cases neutral
  obtain ⟨token, mid, passed, same, passes⟩ := exists_passes_of_kind is inside
  obtain ⟨rfl, rfl, rfl⟩ := (reads_bump passes).1 h
  exact passes.openComments_of_isNeutral (by rw [same, neutral])

theorem openComments_importStatement {node : Import}
    (h : importStatement.Reads tokens node rest skipped) :
    skipped = [] ∧ openComments (.code false) tokens = openComments (.code false) rest := by
  simp only [importStatement, reads_scopeHere_bind, reads_finish] at h
  obtain ⟨rfl, attempt, h, -⟩ := h
  refine ⟨rfl, ?_⟩
  rw [← openComments_dropWhile_isWhitespace rfl tokens]
  rw [reads_bind_nil] at h
  obtain ⟨_, first, word, h⟩ := h
  rw [openComments_expect rfl word]
  simp only [reads_peek_bind, reads_when, decide_eq_true_eq] at h
  obtain ⟨second, static, h⟩ := h
  have static : openComments (.code false) first = openComments (.code false) second := by
    rcases static with ⟨is, _, bumped⟩ | ⟨-, rfl⟩
    · exact openComments_bump (Token.kind_of_keyword? is) rfl bumped
    · rfl
  rw [static]
  rw [reads_bind_nil] at h
  obtain ⟨name, third, reads, h⟩ := h
  rw [openComments_qualifiedName reads]
  simp only [reads_peek_bind, reads_ite, Bool.and_eq_true, decide_eq_true_eq, Token.isOperator]
    at h
  rcases h with ⟨⟨is, is', -⟩, h⟩ | ⟨-, h⟩
  · obtain ⟨_, _, mid, same, ends⟩ := openComments_bump_bump is is' rfl rfl h
    simp only [reads_bind_nil, reads_pure] at ends
    obtain ⟨_, _, semicolon, -, rfl, -⟩ := ends
    rw [same, openComments_expect_semicolon semicolon]
  · simp only [reads_bind_nil, reads_pure] at h
    obtain ⟨_, _, semicolon, -, rfl, -⟩ := h
    rw [openComments_expect_semicolon semicolon]

/-! ### Annotations -/

/-- Behind its at sign the name of an annotation is followed to its end. -/
theorem openComments_annotationName {what : Expectation} {name : Text}
    (h : (qualifiedName scope what).Reads tokens name rest []) :
    openComments .annotationName tokens =
      openComments (if (currentToken (significantFrom 0 rest)).kind = .openParen then
        .annotationParen else .code false) rest := by
  rw [qualifiedName, reads_bind_nil] at h
  obtain ⟨first, mid, reads, others⟩ := h
  obtain ⟨token, kind, rfl, passes⟩ := reads_identifier.1 reads
  have start : openComments .annotationName tokens = openComments (Region.behindName mid) mid := by
    rw [passes.openComments_eq rfl (by simp [Region.shows, Token.isComment, Token.isPlainComment, kind]),
      Region.next, if_pos kind]
  -- A dot with an identifier behind it leads from the end of one part to that of the next.
  have part : ∀ {mid dot mid' word rest}, dot.kind = .dot → word.kind = .identifier →
      Passes mid dot mid' [] → Passes mid' word rest [] →
      openComments (Region.behindName mid) mid = openComments (Region.behindName rest) rest := by
    intro mid dot mid' word rest isDot isWord passes passes'
    have goesOn : Region.behindName mid = .annotationName := by
      simp [Region.behindName, passes.significantFrom_zero, passes.significantFrom_succ,
        passes'.significantFrom_zero, currentToken, isDot, isWord]
    rw [goesOn, passes.openComments_eq rfl (by simp [Region.shows, Token.isComment, Token.isPlainComment, isDot]),
      Region.next, if_neg (by simp [isDot]),
      passes'.openComments_eq rfl (by simp [Region.shows, Token.isComment, Token.isPlainComment, isWord]),
      Region.next, if_pos isWord]
  have step : ∀ {name : Text} {turn mid rest},
      (peek 0 >>= fun next => peek 1 >>= fun second =>
        if next.kind = .dot ∧ second.kind = .identifier then
          bump >>= fun _ => bump >>= fun part => pure (Turn.again (name ++ '.' :: part.text))
        else pure (.last name)).Reads mid turn rest [] →
      openComments (Region.behindName mid) mid = openComments (Region.behindName rest) rest ∧
        (∀ name, turn = .again name → rest.length < mid.length) ∧
        ∀ name, turn = .last name → ¬ ((currentToken (significantFrom 0 rest)).kind = .dot ∧
          (currentToken (significantFrom 1 rest)).kind = .identifier) := by
    intro name turn mid rest h
    simp only [reads_peek_bind, reads_ite] at h
    rcases h with ⟨⟨is, is'⟩, h⟩ | ⟨other, h⟩
    · obtain ⟨dot, _, _, word, _, _, kind, passes, kind', passes'⟩ :=
        exists_passes_of_kinds is is' (by decide) (by decide)
      simp only [reads_bind_nil, reads_pure, reads_bump passes] at h
      obtain ⟨_, _, ⟨rfl, rfl, rfl⟩, _, _, h, rfl, rfl, -⟩ := h
      obtain ⟨rfl, rfl, rfl⟩ := (reads_bump passes').1 h
      exact ⟨part kind kind' passes passes',
        fun _ _ => Nat.lt_trans passes'.length_lt passes.length_lt, nofun⟩
    · obtain ⟨rfl, rfl, -⟩ := reads_pure.1 h
      exact ⟨rfl, nofun, fun _ _ => other⟩
  obtain ⟨before, mid', done, passed, inv, split, ends⟩ := reads_iterate others
    (fun _ mid done => done = [] →
      openComments .annotationName tokens = openComments (Region.behindName mid) mid)
    (fun _ => start)
    (fun inv one clean => by
      rw [List.append_eq_nil_iff] at clean
      obtain ⟨rfl, rfl⟩ := clean
      exact (inv rfl).trans (step one).1)
  obtain ⟨rfl, rfl⟩ := List.append_eq_nil_iff.1 split.symm
  rcases ends with ends | ⟨ends, stalled⟩
  · obtain ⟨same, -, last⟩ := step ends
    rw [inv rfl, same, Region.behindName]
    simp only [if_neg (last _ rfl)]
  · exact absurd ((step ends).2.1 _ rfl) stalled

/-- Only a comma or a closing parenthesis outside of brackets ends a value. -/
theorem insideAnnotationValue_eq_none_iff {depth : Nat} {token : Token} :
    insideAnnotationValue depth token = none ↔
      depth = 0 ∧ (token.kind = .comma ∨ token.kind = .closeParen) := by
  rw [insideAnnotationValue]
  by_cases opens : token.kind ∈ [.openParen, .openBrace, .openBracket]
  · rw [if_pos opens]
    refine iff_of_false (Option.some_ne_none _) ?_
    rintro ⟨-, kind | kind⟩
    · simp [kind] at opens
    · simp [kind] at opens
  · rw [if_neg opens]
    by_cases ends : depth = 0 ∧ token.kind ∈ [.comma, .closeParen]
    · rw [if_pos ends]
      exact iff_of_true rfl (by simpa using ends)
    · rw [if_neg ends]
      refine iff_of_false ?_ (by simpa using ends)
      split
      · exact Option.some_ne_none _
      · exact Option.some_ne_none _

theorem isTrivia_of_endsValue {token : Token}
    (kind : token.kind = .comma ∨ token.kind = .closeParen) : token.isTrivia = false := by
  rcases kind with kind | kind
  · simp [Token.isTrivia, Token.isWhitespace, Token.isPlainComment, kind]
  · simp [Token.isTrivia, Token.isWhitespace, Token.isPlainComment, kind]

/-- The comma or parenthesis behind a value of an annotation. -/
theorem openComments_annotationParam_closing {draft : AnnotationDraft}
    {turn : Turn AnnotationDraft} {depth : Nat}
    (verdict : insideAnnotationValue depth (currentToken tokens) = none)
    (inside : (currentToken tokens).isEnd = false)
    (h : (bump >>= fun closing =>
      if closing.kind = .comma then pure (Turn.again draft)
      else if closing.kind = .closeParen then pure (.last draft)
      else unexpected scope .commaOrCloseParen).Reads tokens turn rest []) :
    openComments (.value depth) tokens =
        openComments (if turn.goesOn then .valueStart false else .code false) rest ∧
      (turn.goesOn = true → rest.length < tokens.length) := by
  have closing := (insideAnnotationValue_eq_none_iff.1 verdict).2
  have passes := passes_currentToken inside (isTrivia_of_endsValue closing)
  have behind : openComments (.value depth) tokens =
      openComments (if (currentToken tokens).kind = .comma then .valueStart false
        else .code false) tokens.tail := by
    rw [openComments_tail inside rfl, Region.next, Region.behindValue, verdict]
  simp only [reads_bump_bind passes, reads_ite, reads_pure, not_reads_unexpected, and_false,
    or_false] at h
  obtain ⟨later, ⟨comma, rfl, rfl, rfl⟩ | ⟨notComma, paren, rfl, rfl, rfl⟩, -⟩ := h
  · rw [if_pos comma] at behind
    exact ⟨behind, fun _ => passes.length_lt⟩
  · rw [if_neg notComma] at behind
    exact ⟨behind, fun more => by cases more⟩

/-- One value of an annotation, from behind a parenthesis or comma to behind the next one. -/
theorem openComments_annotationParam {draft : AnnotationDraft} {turn : Turn AnnotationDraft}
    (h : (annotationParam scope draft).Reads tokens turn rest []) :
    openComments (.valueStart false) tokens =
        openComments (if turn.goesOn then .valueStart false else .code false) rest ∧
      (turn.goesOn = true → rest.length < tokens.length) := by
  simp only [annotationParam, reads_peek_bind, reads_ite] at h
  rcases h with ⟨⟨is, is'⟩, h⟩ | ⟨nameless, h⟩
  · obtain ⟨word, _, _, equals, _, _, kind, passes, kind', passes'⟩ :=
      exists_passes_of_kinds is is' (by decide) (by decide)
    rw [reads_bind_nil] at h
    obtain ⟨_, _, bumped, h⟩ := h
    obtain ⟨rfl, rfl, rfl⟩ := (reads_bump passes).1 bumped
    rw [reads_bind_nil] at h
    obtain ⟨_, _, bumped, h⟩ := h
    obtain ⟨rfl, rfl, rfl⟩ := (reads_bump passes').1 bumped
    rw [reads_bind_nil] at h
    obtain ⟨text, mid, value, h⟩ := h
    rw [reads_pure_bind] at h
    obtain ⟨depth, same, verdict, inside⟩ := openComments_annotationValue (.inl rfl) value
    have start : openComments (.valueStart false) tokens = openComments (.value depth) mid := by
      rw [← same, passes.openComments_eq rfl (by simp [Region.shows, Token.isPlainComment, kind]),
        Region.next, if_neg (by simp [passes.isTrivia_eq_false]), if_pos
          ⟨rfl, kind, by simpa [passes'.significantFrom_zero, currentToken] using kind'⟩,
        passes'.openComments_eq rfl (by simp [Region.shows, Token.isComment, Token.isPlainComment, kind']),
        Region.next, if_pos kind']
    have shorter := Nat.le_trans value.length_le
      (Nat.le_of_lt (Nat.lt_trans passes'.length_lt passes.length_lt))
    obtain ⟨behind, moved⟩ := openComments_annotationParam_closing verdict inside h
    exact ⟨start.trans behind, fun more => Nat.lt_of_lt_of_le (moved more) shorter⟩
  · rw [reads_bind_nil] at h
    obtain ⟨text, mid, value, h⟩ := h
    rw [reads_pure_bind] at h
    obtain ⟨depth, same, verdict, inside⟩ := openComments_annotationValue (.inr nameless) value
    obtain ⟨behind, moved⟩ := openComments_annotationParam_closing verdict inside h
    exact ⟨same.trans behind, fun more => Nat.lt_of_lt_of_le (moved more) value.length_le⟩

theorem openComments_annotationParams {draft last : AnnotationDraft}
    (h : (iterate (annotationParam scope) draft).Reads tokens last rest []) :
    openComments (.valueStart false) tokens = openComments (.code false) rest := by
  obtain ⟨before, mid, done, passed, inv, split, ends⟩ := reads_iterate h
    (fun _ mid done => done = [] →
      openComments (.valueStart false) tokens = openComments (.valueStart false) mid)
    (fun _ => rfl)
    (fun inv one clean => by
      rw [List.append_eq_nil_iff] at clean
      obtain ⟨rfl, rfl⟩ := clean
      exact (inv rfl).trans (openComments_annotationParam one).1)
  obtain ⟨rfl, rfl⟩ := List.append_eq_nil_iff.1 split.symm
  rcases ends with ends | ⟨ends, stalled⟩
  · exact (inv rfl).trans (openComments_annotationParam ends).1
  · exact absurd ((openComments_annotationParam ends).2 rfl) stalled

/-- An annotation steps over no open comment; its values are raw. -/
theorem openComments_annotationUse {node : Annotation}
    (h : annotationUse.Reads tokens node rest skipped) :
    skipped = [] ∧ openComments (.code false) tokens = openComments (.code false) rest := by
  simp only [annotationUse, reads_scopeHere_bind, reads_finish] at h
  obtain ⟨rfl, attempt, h, -⟩ := h
  refine ⟨rfl, ?_⟩
  rw [← openComments_dropWhile_isWhitespace rfl tokens]
  rw [reads_bind_nil] at h
  obtain ⟨_, first, sign, h⟩ := h
  obtain ⟨token, kind, passes⟩ := (reads_expect .atSign (by decide)).1 sign
  rw [passes.openComments_eq rfl (by simp [Region.shows, Token.isComment, Token.isPlainComment, kind])]
  simp only [Region.next, kind]
  simp only [reads_peek_bind, reads_ite, not_reads_fail_bind, and_false, false_or] at h
  rw [reads_bind_nil] at h
  obtain ⟨-, name, mid, reads, h⟩ := h
  rw [openComments_annotationName reads]
  simp only [reads_peek_bind, reads_ite, reads_pure_bind] at h
  rcases h with ⟨opens, h⟩ | ⟨plain, h⟩
  · obtain ⟨paren, behind, _, kind, passes⟩ := exists_passes_of_kind opens (by decide)
    rw [reads_bind_nil] at h
    obtain ⟨_, _, bumped, h⟩ := h
    obtain ⟨rfl, rfl, rfl⟩ := (reads_bump passes).1 bumped
    rw [if_pos opens, passes.openComments_eq rfl
      (by simp [Region.shows, Token.isComment, Token.isPlainComment, kind]), Region.next, if_pos kind]
    rw [reads_accept_bind .closeParen (by decide)] at h
    rcases h with ⟨close, _, _, later, kind, passes, h, skips⟩ | ⟨other, later, h, skips⟩
    · obtain ⟨rfl, rfl⟩ := List.append_eq_nil_iff.1 skips.symm
      simp only [if_true, reads_pure_bind] at h
      obtain ⟨-, rfl, -⟩ := reads_pure.1 h
      rw [passes.openComments_eq rfl (by simp [Region.shows, Token.isPlainComment, kind]),
        Region.next, if_neg (by simp [passes.isTrivia_eq_false]), if_neg (by simp [kind])]
      simp [Region.behindValue, insideAnnotationValue, kind]
    · obtain ⟨clean, rfl⟩ := List.append_eq_nil_iff.1 skips.symm
      rw [openComments_significantFrom rfl, clean, List.nil_append]
      rw [if_neg (by decide), reads_bind_nil] at h
      obtain ⟨draft, _, h, ends⟩ := h
      obtain ⟨-, rfl, -⟩ := reads_pure.1 ends
      exact openComments_annotationParams h
  · obtain ⟨-, rfl, -⟩ := reads_pure.1 h
    rw [if_neg plain]

/-! ### Members -/

/-- Behind white space only, the next token is as open as here. -/
theorem openComments_of_leadingComments (waits : region.waits = true)
    (clean : leadingComments tokens = []) :
    openComments region (significantFrom 0 tokens) = openComments region tokens := by
  rw [openComments_significantFrom waits tokens, clean, List.nil_append]

/-- Passing a token of code that stands here. -/
theorem openComments_tail_of_kind {kind : Kind} (is : (currentToken tokens).kind = kind)
    (inside : kind ≠ .eof) (hidden : Region.shows (.code classHead) ⟨kind, []⟩ = false) :
    openComments (.code classHead) tokens =
      openComments (Region.next (.code classHead) ⟨kind, []⟩ []) tokens.tail := by
  subst is
  exact openComments_tail (by simpa [Token.isEnd] using inside) hidden

theorem openComments_tail_of_isNeutral (neutral : (currentToken tokens).kind.isNeutral = true) :
    openComments (.code classHead) tokens = openComments (.code classHead) tokens.tail := by
  have trivia : (currentToken tokens).isTrivia = false := by
    by_cases h : (currentToken tokens).isTrivia = true
    · rcases Token.isTrivia_iff.1 h with blank | plain
      · rw [Token.isWhitespace, decide_eq_true_eq] at blank
        rw [blank] at neutral
        cases neutral
      · rw [Token.isPlainComment, Bool.or_eq_true, decide_eq_true_eq, decide_eq_true_eq] at plain
        rcases plain with kind | kind
        · rw [kind] at neutral
          cases neutral
        · rw [kind] at neutral
          cases neutral
    · simpa using h
  exact (passes_currentToken (isEnd_eq_false_of_isNeutral neutral)
    trivia).openComments_of_isNeutral neutral

theorem openComments_field {preface : Preface} {node : Field}
    (h : (field preface).Reads tokens node rest skipped) :
    skipped = [] ∧ openComments (.code false) tokens = openComments (.code false) rest ∧
      node.toLead = preface.toLeadDraft.lead := by
  simp only [field, reads_finish, reads_bind_nil, reads_skipTrivia, reads_current, reads_ite,
    reads_pure, reads_advance, not_reads_fail, not_reads_unexpected, false_and, and_false,
    or_false, exists_false] at h
  obtain ⟨rfl, attempt, ⟨type, first, typed, name, second, named, dims, third, dimmed, _, _,
    ⟨rfl, clean⟩, _, _, ⟨rfl, rfl, -⟩, ends⟩, -, built⟩ := h
  have front : openComments (.code false) tokens =
      openComments (.code false) (significantFrom 0 third) := by
    rw [openComments_type typed, openComments_identifier named, openComments_arrayDims dimmed,
      openComments_of_leadingComments rfl clean.symm]
  refine ⟨rfl, ?_⟩
  rw [front]
  rcases ends with ⟨semicolon, _, _, ⟨rfl, rfl, -⟩, _, _, ⟨rfl, rfl, -⟩, rfl, rfl, -⟩ |
    ⟨-, equals, _, _, ⟨rfl, rfl, -⟩, value, _, reads, _, _, ⟨rfl, rfl, -⟩, rfl, rfl, -⟩
  · obtain ⟨-, rfl⟩ := settle_eq_ok_iff.1 built
    have inside : (currentToken (significantFrom 0 third)).isEnd = false := by
      simp [Token.isEnd, semicolon]
    rw [inside, openComments_tail_of_kind semicolon (by decide) rfl]
    exact ⟨rfl, rfl⟩
  · obtain ⟨-, rfl⟩ := settle_eq_ok_iff.1 built
    have inside : (currentToken (significantFrom 0 third)).isEnd = false := by
      simp [Token.isEnd, equals]
    rw [inside] at reads
    rw [openComments_tail_of_kind equals (by decide) rfl]
    exact ⟨openComments_initializer reads, rfl⟩

theorem openComments_parameterModifier {parameter : Parameter} {turn : Turn Parameter}
    (h : (parameterModifier parameter).Reads tokens turn rest []) :
    openComments (.code false) tokens = openComments (.code false) rest := by
  simp only [parameterModifier, reads_bind_nil, reads_skipTrivia, reads_current, reads_ite,
    reads_pure, reads_advance] at h
  obtain ⟨_, _, ⟨rfl, clean⟩, _, _, ⟨rfl, rfl, -⟩, h⟩ := h
  rw [← openComments_of_leadingComments rfl clean.symm]
  rcases h with ⟨-, used, _, reads, -, rfl, -⟩ |
    ⟨-, ⟨final, _, _, ⟨rfl, rfl, -⟩, -, rfl, -⟩ | ⟨-, -, rfl, -⟩⟩
  · exact (openComments_annotationUse reads).2
  · have kind := Token.kind_of_keyword? final
    have inside : (currentToken (significantFrom 0 tokens)).isEnd = false := by
      simp [Token.isEnd, kind]
    rw [inside, openComments_tail_of_kind kind (by decide) rfl]
    rfl
  · rfl

theorem openComments_parameter {parameter : Parameter}
    (h : (Reading.parameter scope).Reads tokens parameter rest []) :
    openComments (.code false) tokens = openComments (.code false) rest := by
  simp only [Reading.parameter, reads_bind_nil, reads_pure] at h
  obtain ⟨_, first, modified, type, second, typed, name, third, named, dims, _, dimmed, -, rfl, -⟩
    := h
  rw [openComments_iterate openComments_parameterModifier modified, openComments_type typed,
    openComments_identifier named, openComments_arrayDims dimmed]

/-- A token of a neutral kind, if it stands here. -/
theorem openComments_accept {kind : Kind} {next : Bool → Reading α} {value : α}
    (neutral : kind.isNeutral = true)
    (h : (accept kind >>= next).Reads tokens value rest []) :
    ∃ passed mid,
      (∀ classHead, openComments (.code classHead) tokens = openComments (.code classHead) mid) ∧
      (next passed).Reads mid value rest [] := by
  have inside : kind ≠ .eof := by
    rintro rfl
    cases neutral
  rcases (reads_accept_bind kind inside).1 h with
    ⟨token, mid, _, later, is, passes, h, skips⟩ | ⟨-, later, h, skips⟩
  · obtain ⟨rfl, rfl⟩ := List.append_eq_nil_iff.1 skips.symm
    exact ⟨true, mid, fun _ => passes.openComments_of_isNeutral (by rw [is, neutral]), h⟩
  · obtain ⟨clean, rfl⟩ := List.append_eq_nil_iff.1 skips.symm
    exact ⟨false, _, fun _ => (openComments_of_leadingComments rfl clean).symm, h⟩

theorem openComments_parameters {list : List Parameter}
    (h : (parameters scope).Reads tokens list rest []) :
    openComments (.code false) tokens = openComments (.code false) rest := by
  rw [parameters, reads_bind_nil] at h
  obtain ⟨_, first, paren, h⟩ := h
  rw [openComments_expect rfl paren]
  obtain ⟨closed, second, same, h⟩ := openComments_accept rfl h
  rw [same]
  rcases reads_ite.1 h with ⟨-, h⟩ | ⟨-, h⟩
  · obtain ⟨-, rfl, -⟩ := reads_pure.1 h
    rfl
  · refine openComments_iterate ?_ h
    intro list turn tokens rest step
    rw [reads_bind_nil] at step
    obtain ⟨parameter, mid, reads, step⟩ := step
    obtain ⟨more, mid', same, step⟩ := openComments_accept rfl step
    rw [openComments_parameter reads, same]
    rcases reads_ite.1 step with ⟨-, step⟩ | ⟨-, step⟩
    · obtain ⟨-, rfl, -⟩ := reads_pure.1 step
      rfl
    · rw [reads_bind_nil] at step
      obtain ⟨_, _, close, ends⟩ := step
      obtain ⟨-, rfl, -⟩ := reads_pure.1 ends
      exact openComments_expect rfl close

theorem openComments_typeParameters {text : Option Text}
    (h : (typeParameters scope).Reads tokens text rest []) :
    openComments (.code classHead) tokens = openComments (.code classHead) rest := by
  simp only [typeParameters, reads_peek_bind, reads_ite] at h
  simp only [reads_bind_nil, reads_pure] at h
  rcases h with ⟨opens, group, _, reads, -, rfl, -⟩ | ⟨-, -, rfl, -⟩
  · exact openComments_angleGroup opens reads
  · rfl

theorem openComments_returnType {draft result : MethodDraft}
    (h : (returnType scope draft).Reads tokens result rest []) :
    openComments (.code false) tokens = openComments (.code false) rest ∧
      result.toLeadDraft = draft.toLeadDraft := by
  simp only [returnType, reads_peek_bind, reads_ite] at h
  simp only [reads_bind_nil, reads_pure] at h
  rcases h with ⟨-, rfl, rfl, -⟩ | ⟨-, type, _, reads, rfl, rfl, -⟩
  · exact ⟨rfl, rfl⟩
  · exact ⟨openComments_type reads, rfl⟩

theorem openComments_throwsClause {types : List Text}
    (h : (throwsClause scope).Reads tokens types rest []) :
    openComments (.code false) tokens = openComments (.code false) rest := by
  simp only [throwsClause, reads_peek_bind, reads_ite] at h
  simp only [reads_bind_nil, reads_pure] at h
  rcases h with ⟨is, _, _, bumped, reads⟩ | ⟨-, -, rfl, -⟩
  · rw [openComments_bump (Token.kind_of_keyword? is) rfl bumped, openComments_typeList reads]
  · rfl

/-- The body of a method is raw. -/
theorem openComments_methodBody {name : Text} {draft result : MethodDraft}
    (h : (methodBody scope name draft).Reads tokens result rest []) :
    openComments (.code false) tokens = openComments (.code false) rest ∧
      result.toLeadDraft = draft.toLeadDraft := by
  simp only [methodBody, reads_bind_nil, reads_skipTrivia, reads_current, reads_ite, reads_pure,
    reads_advance, not_reads_unexpected, and_false, or_false] at h
  obtain ⟨_, _, ⟨rfl, clean⟩, _, _, ⟨rfl, rfl, -⟩, h⟩ := h
  rw [← openComments_of_leadingComments rfl clean.symm]
  rcases h with ⟨opens, text, _, reads, rfl, rfl, -⟩ |
    ⟨-, semicolon, _, _, ⟨rfl, rfl, -⟩, rfl, rfl, -⟩
  · exact ⟨openComments_block opens reads, rfl⟩
  · have inside : (currentToken (significantFrom 0 tokens)).isEnd = false := by
      simp [Token.isEnd, semicolon]
    rw [inside, openComments_tail_of_kind semicolon (by decide) rfl]
    exact ⟨rfl, rfl⟩

theorem toLeadDraft_foldl (change : MethodDraft → α → MethodDraft)
    (h : ∀ draft value, (change draft value).toLeadDraft = draft.toLeadDraft)
    (draft : MethodDraft) (values : List α) :
    (values.foldl change draft).toLeadDraft = draft.toLeadDraft := by
  induction values generalizing draft with
  | nil => rfl
  | cons value rest ih => rw [List.foldl_cons, ih, h]

theorem openComments_method {preface : Preface} {node : Method}
    (h : (method preface).Reads tokens node rest skipped) :
    skipped = [] ∧ openComments (.code false) tokens = openComments (.code false) rest ∧
      node.toLead = preface.toLeadDraft.lead := by
  simp only [method, reads_finish, reads_bind_nil, reads_pure] at h
  obtain ⟨rfl, attempt, ⟨typeParameters, _, first, draft, _, second, name, _, third, list, _,
    fourth, types, _, fifth, last, _, sixth, rfl, rfl, -⟩, -, built⟩ := h
  obtain ⟨second, lead⟩ := openComments_returnType second
  obtain ⟨sixth, lead'⟩ := openComments_methodBody sixth
  obtain ⟨-, rfl⟩ := settle_eq_ok_iff.1 built
  refine ⟨rfl, ?_, ?_⟩
  · rw [openComments_typeParameters first, second, openComments_identifier third,
      openComments_parameters fourth, openComments_throwsClause fifth, sixth]
  · have kept : last.toLeadDraft = preface.toLeadDraft := by
      rw [lead', toLeadDraft_foldl MethodDraft.addThrows (fun _ _ => rfl),
        toLeadDraft_foldl MethodDraft.addParameter (fun _ _ => rfl)]
      refine lead.trans ?_
      cases typeParameters <;> rfl
    rw [← kept]
    rfl

theorem openComments_staticBlock {node : StaticBlock}
    (h : staticBlock.Reads tokens node rest skipped) :
    skipped = [] ∧ openComments (.code false) tokens = openComments (.code false) rest := by
  simp only [staticBlock, reads_finish, reads_scopeHere_bind, reads_bind_nil, reads_skipTrivia,
    reads_current, reads_ite, reads_pure, not_reads_unexpected, and_false, or_false] at h
  obtain ⟨rfl, attempt, ⟨_, first, word, _, _, ⟨rfl, clean⟩, _, _, ⟨rfl, rfl, -⟩, opens, text, _,
    reads, rfl, rfl, -⟩, -⟩ := h
  refine ⟨rfl, ?_⟩
  rw [← openComments_dropWhile_isWhitespace rfl tokens, openComments_expect rfl word,
    ← openComments_of_leadingComments rfl clean.symm, openComments_block opens reads]

end Reading

end JavaUnit
