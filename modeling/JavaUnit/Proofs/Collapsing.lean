/-
Module: JavaUnit.Proofs.Collapsing
Purpose: Shrinking the white space of raw text to single spaces. Tokens none of which is a line
  comment may all stand on one line: the text that they are shrunk to is cut into the same tokens
  again, with one space where there was white space, so that shrinking it once more changes nothing.
  A line comment is still one after shrinking, and loses the line break that ends it.
Main exports: Token.collapsed, tidied, Inline, IsInline, Cuts.tidied, collapseTokens_eq,
  collapseWhitespace_tidied, inline_of_collapseTokens, Cuts.inline_of_lineEnds
-/
import JavaUnit.Proofs.Reflow
import JavaUnit.Proofs.Takes
import JavaUnit.Token.Spelling

namespace JavaUnit

/-! ### Single spaces -/

namespace Token

/-- A token whose white space is shrunk to one space. -/
def collapsed (token : Token) : Token :=
  if token.isWhitespace then ⟨.whitespace, [' ']⟩ else token

variable {token : Token}

theorem collapsed_of_ink (ink : token.isWhitespace = false) : token.collapsed = token := by
  rw [collapsed, if_neg (by simp [ink])]

@[simp] theorem kind_collapsed (token : Token) : token.collapsed.kind = token.kind := by
  rw [collapsed]
  split
  · next blank => simpa [isWhitespace, eq_comm] using blank
  · rfl

@[simp] theorem isWhitespace_collapsed (token : Token) :
    token.collapsed.isWhitespace = token.isWhitespace := by
  rw [isWhitespace, kind_collapsed, isWhitespace]

@[simp] theorem collapsed_collapsed (token : Token) :
    token.collapsed.collapsed = token.collapsed := by
  cases blank : token.isWhitespace with
  | true =>
      rw [collapsed, if_pos (by rw [isWhitespace_collapsed, blank]), collapsed, if_pos blank]
  | false => rw [collapsed_of_ink blank, collapsed_of_ink blank]

end Token

/-- Tokens with single spaces between them and no white space at their ends. -/
def tidied (tokens : List Token) : List Token :=
  (strip Token.isWhitespace tokens).map Token.collapsed

/-- Tokens that may all stand on one line. -/
def Inline (tokens : List Token) : Prop :=
  ∀ token ∈ tokens, token.kind ≠ .lineComment

variable {text rest right : Text} {tokens : List Token}

theorem inline_nil : Inline [] :=
  List.forall_mem_nil _

theorem inline_append {left right : List Token} :
    Inline (left ++ right) ↔ Inline left ∧ Inline right :=
  List.forall_mem_append

theorem inline_cons {token : Token} :
    Inline (token :: tokens) ↔ token.kind ≠ .lineComment ∧ Inline tokens :=
  List.forall_mem_cons

/-- The end of the input stands on any line. -/
theorem Inline.concat_end (h : Inline tokens) : Inline (tokens ++ [Token.endOfInput]) :=
  inline_append.2 ⟨h, inline_cons.2 ⟨by decide, inline_nil⟩⟩

theorem inkOf_map_collapsed (tokens : List Token) :
    inkOf (tokens.map Token.collapsed) = inkOf tokens := by
  induction tokens with
  | nil => rfl
  | cons token others ih =>
      rw [inkOf, inkOf, List.map_cons, List.filter_cons, List.filter_cons,
        Token.isWhitespace_collapsed]
      cases blank : token.isWhitespace with
      | true => exact ih
      | false =>
          rw [if_pos (by rfl), if_pos (by rfl), Token.collapsed_of_ink blank]
          exact congrArg (token :: ·) ih

theorem inkOf_strip (tokens : List Token) :
    inkOf (strip Token.isWhitespace tokens) = inkOf tokens := by
  obtain ⟨-, -, front, back, blank, blank', whole⟩ := strip_spec Token.isWhitespace tokens
  have none : ∀ {list : List Token}, (∀ token ∈ list, token.isWhitespace = true) →
      inkOf list = [] := fun blank =>
    List.filter_eq_nil_iff.2 fun token mem => by simp [blank token mem]
  conv => rhs; rw [whole]
  rw [inkOf_append, inkOf_append, none blank, none blank', List.nil_append, List.append_nil]

/-- Only white space is lost. -/
theorem inkOf_tidied (tokens : List Token) : inkOf (tidied tokens) = inkOf tokens := by
  rw [tidied, inkOf_map_collapsed, inkOf_strip]

theorem Inline.tidied (h : Inline tokens) : Inline (tidied tokens) := by
  intro token mem
  obtain ⟨source, listed, rfl⟩ := List.mem_map.1 mem
  rw [Token.kind_collapsed]
  exact h source (mem_of_mem_strip listed)

theorem startsOff_tidied (tokens : List Token) : StartsOff Token.isWhitespace (tidied tokens) := by
  intro token first
  rw [tidied, List.head?_map, Option.map_eq_some_iff] at first
  obtain ⟨source, first, rfl⟩ := first
  rw [Token.isWhitespace_collapsed, (strip_spec Token.isWhitespace tokens).1 source first]

theorem endsOff_tidied (tokens : List Token) : EndsOff Token.isWhitespace (tidied tokens) := by
  intro token last
  rw [tidied, List.getLast?_map, Option.map_eq_some_iff] at last
  obtain ⟨source, last, rfl⟩ := last
  rw [Token.isWhitespace_collapsed, (strip_spec Token.isWhitespace tokens).2.1 source last]

/-- Tidying again changes nothing. -/
@[simp] theorem tidied_tidied (tokens : List Token) : tidied (tidied tokens) = tidied tokens := by
  rw [tidied, strip_of_off (startsOff_tidied tokens) (endsOff_tidied tokens), tidied, List.map_map]
  exact List.map_congr_left fun token _ => Token.collapsed_collapsed token

/-- Tokens that do not begin with white space begin with the first that is none. -/
theorem head?_inkOf (starts : StartsOff Token.isWhitespace tokens) :
    (inkOf tokens).head? = tokens.head? := by
  cases tokens with
  | nil => rfl
  | cons token others =>
      rw [inkOf, List.filter_cons_of_pos (by simp [startsOff_cons.1 starts])]
      rfl

/-- Tidying leaves the first token where it is. -/
theorem head?_tidied (starts : StartsOff Token.isWhitespace tokens) :
    (tidied tokens).head? = tokens.head? := by
  rw [← head?_inkOf (startsOff_tidied tokens), inkOf_tidied, head?_inkOf starts]

/-! ### Cutting the tokens off again -/

theorem Text.startsInked_iff {text : Text} :
    StartsInked text ↔ text.head?.all (!JavaUnit.isBlank ·) = true := by
  cases text with
  | nil => exact iff_of_true startsOff_nil rfl
  | cons c others => simp [StartsInked, startsOff_cons]

/-- A text that does not begin with white space is cut into tokens that do not. -/
theorem Cuts.startsOff (h : Cuts text tokens rest) (starts : Text.StartsInked text) :
    StartsOff Token.isWhitespace tokens := by
  cases h with
  | nil => exact startsOff_nil
  | @cons _ token _ _ _ head _ =>
      refine startsOff_cons.2 ?_
      by_contra blank
      rw [Bool.not_eq_false, Token.isWhitespace, decide_eq_true_eq] at blank
      obtain ⟨c, others, spelling⟩ := List.exists_cons_of_ne_nil head.text_ne_nil
      have first := (head.blank_of_whitespace blank).1 c (by simp [spelling])
      rw [head.text_eq, spelling, List.cons_append, Text.StartsInked, startsOff_cons, first]
        at starts
      cases starts

/-- Tokens that do not begin with white space stand in a text that does not. -/
theorem Cuts.startsInked (h : Cuts text tokens rest) (starts : StartsOff Token.isWhitespace tokens)
    (present : tokens ≠ []) : Text.StartsInked text := by
  cases h with
  | nil => exact absurd rfl present
  | cons head _ => exact Text.startsInked_iff.2 (head_of_cut head (startsOff_cons.1 starts))

/-- A token in front cannot tell whether the white space behind it is shrunk. -/
theorem Cuts.alike_collapsed (h : Cuts text tokens rest) (alike : Alike rest right) :
    Alike text (textOf (tokens.map Token.collapsed) ++ right) := by
  induction h with
  | nil => exact alike
  | @cons text token mid tokens rest head tail ih =>
      rw [List.map_cons, textOf, List.flatMap_cons, List.append_assoc, head.text_eq]
      cases blank : token.isWhitespace with
      | true =>
          have kind : token.kind = .whitespace := by simpa [Token.isWhitespace] using blank
          have blanks := (head.blank_of_whitespace kind).1
          obtain ⟨c, others, spelling⟩ := List.exists_cons_of_ne_nil head.text_ne_nil
          rw [spelling, Token.collapsed, if_pos blank]
          refine .of_separated (separated_cons.2 (separates_of_isBlank ?_))
            (separated_cons.2 (by decide))
          exact blanks c (by rw [spelling]; exact List.mem_cons_self)
      | false =>
          rw [Token.collapsed_of_ink blank]
          exact (ih alike).append token.text

/-- Behind white space there is still none when it is shrunk. -/
theorem Cuts.head_collapsed (h : Cuts text tokens rest)
    (starts : text.head?.all (!isBlank ·) = true) (ends : right.head?.all (!isBlank ·) = true) :
    (textOf (tokens.map Token.collapsed) ++ right).head?.all (!isBlank ·) = true := by
  cases h with
  | nil => exact ends
  | @cons _ token mid tokens _ head tail =>
      have ink : token.isWhitespace = false :=
        startsOff_cons.1 ((Cuts.cons head tail).startsOff (Text.startsInked_iff.2 starts))
      obtain ⟨c, others, spelling⟩ := List.exists_cons_of_ne_nil head.text_ne_nil
      rw [head.text_eq, spelling] at starts
      rw [List.map_cons, textOf, List.flatMap_cons, Token.collapsed_of_ink ink, spelling]
      exact starts

/-- Tokens on one line are cut off with the white space between them shrunk. -/
theorem Cuts.collapsed (h : Cuts text tokens rest) (inline : Inline tokens)
    (alike : Alike rest right) (ends : right.head?.all (!isBlank ·) = true) :
    Cuts (textOf (tokens.map Token.collapsed) ++ right) (tokens.map Token.collapsed) right := by
  induction h with
  | nil => exact .nil
  | @cons text token mid tokens rest head tail ih =>
      obtain ⟨noComment, inline⟩ := inline_cons.1 inline
      rw [List.map_cons, textOf, List.flatMap_cons, List.append_assoc]
      refine .cons ?_ (ih inline alike)
      cases blank : token.isWhitespace with
      | true =>
          have kind : token.kind = .whitespace := by simpa [Token.isWhitespace] using blank
          rw [Token.collapsed, if_pos blank]
          exact @cut_whitespace [' '] _ (List.cons_ne_nil _ _) (List.forall_mem_singleton.2 rfl)
            (tail.head_collapsed (head.blank_of_whitespace kind).2 ends)
      | false =>
          rw [Token.collapsed_of_ink blank]
          refine head.swap (tail.alike_collapsed alike) (fun kind => absurd kind noComment) ?_
          intro kind
          simp [Token.isWhitespace, kind] at blank

/-- Without the white space at their ends, tokens are still cut off some text. -/
theorem Cuts.exists_strip (h : Cuts text tokens rest) :
    ∃ front back, Cuts front (strip Token.isWhitespace tokens) back ∧
      (Separated rest → Separated back) := by
  obtain ⟨-, -, front, back, -, blank, whole⟩ := strip_spec Token.isWhitespace tokens
  rw [whole] at h
  obtain ⟨mid, first, last⟩ := h.split
  obtain ⟨mid', -, core⟩ := first.split
  refine ⟨mid', mid, core, fun separated => ?_⟩
  cases last with
  | nil => exact separated
  | @cons _ token _ _ _ head tail =>
      have kind : token.kind = .whitespace := by
        simpa [Token.isWhitespace] using blank token List.mem_cons_self
      obtain ⟨c, others, spelling⟩ := List.exists_cons_of_ne_nil head.text_ne_nil
      rw [head.text_eq, spelling]
      refine separated_cons.2 (separates_of_isBlank ?_)
      exact (head.blank_of_whitespace kind).1 c (by rw [spelling]; exact List.mem_cons_self)

/-- Tokens on one line are cut off as they are tidied. -/
theorem Cuts.tidied (h : Cuts text tokens rest) (inline : Inline tokens)
    (separated : Separated rest) (separated' : Separated right)
    (ends : right.head?.all (!isBlank ·) = true) :
    Cuts (textOf (tidied tokens) ++ right) (tidied tokens) right := by
  obtain ⟨front, back, core, ends'⟩ := h.exists_strip
  exact core.collapsed (fun token mem => inline token (mem_of_mem_strip mem))
    (.of_separated (ends' separated) separated') ends

/-! ### What is left of a text -/

theorem isBlank_textOf_collapsed (blank : ∀ token ∈ tokens, token.isWhitespace = true) :
    (textOf (tokens.map Token.collapsed)).isBlank = true := by
  rw [Text.isBlank_iff]
  intro c mem
  rw [textOf, List.mem_flatMap] at mem
  obtain ⟨_, listed, mem⟩ := mem
  obtain ⟨source, listed', rfl⟩ := List.mem_map.1 listed
  rw [Token.collapsed, if_pos (blank source listed'), List.mem_singleton] at mem
  rw [mem]
  rfl

/-- Tokens that neither begin nor end in white space, on one line, are a text that does not. -/
theorem Cuts.inked_collapsed (h : Cuts text tokens rest) (inline : Inline tokens)
    (starts : StartsOff Token.isWhitespace tokens) (ends : EndsOff Token.isWhitespace tokens) :
    Text.StartsInked (textOf (tokens.map Token.collapsed)) ∧
      Text.EndsInked (textOf (tokens.map Token.collapsed)) := by
  constructor
  · by_cases present : tokens = []
    · rw [present]
      exact startsOff_nil
    · have first : (textOf (tokens.map Token.collapsed) ++ []).head?.all (!isBlank ·) = true :=
        h.head_collapsed (Text.startsInked_iff.1 (h.startsInked starts present)) rfl
      rw [List.append_nil] at first
      exact Text.startsInked_iff.2 first
  · cases last : tokens.getLast? with
    | none =>
        rw [List.getLast?_eq_none_iff.1 last]
        exact endsOff_nil
    | some token =>
        have ink := ends token last
        obtain ⟨front, rfl⟩ : ∃ front, tokens = front ++ [token] :=
          ⟨_, (List.dropLast_append_getLast? token last).symm⟩
        obtain ⟨mid, -, cut⟩ := h.split
        cases cut with
        | cons head _ =>
            obtain ⟨first, body, spelling, -, spelled⟩ := head.exists_spelled
            rw [List.map_append, List.map_singleton, textOf, List.flatMap_append,
              List.flatMap_singleton, Token.collapsed_of_ink ink,
              Text.EndsInked, endsOff_append head.text_ne_nil, spelling]
            intro c last
            refine spelled.endsOff ?_ ?_ last
            · intro kind
              simp [Token.isWhitespace, kind] at ink
            · exact inline token (List.mem_append_right _ (List.mem_singleton_self _))

/-- The text that tokens are shrunk to, before it is trimmed. -/
theorem collapseTokens_eq_trim (tokens : List Token) :
    collapseTokens tokens = Text.trim (textOf (tokens.map Token.collapsed)) := by
  rw [collapseTokens, textOf, List.flatMap_map]
  refine congrArg Text.trim (List.flatMap_congr fun token _ => ?_)
  rw [Token.collapsed]
  split <;> rfl

/-- The text that tokens on one line are shrunk to. -/
theorem collapseTokens_eq (h : Cuts text tokens rest) (inline : Inline tokens) :
    collapseTokens tokens = textOf (tidied tokens) := by
  obtain ⟨starts, ends, front, back, blank, blank', whole⟩ := strip_spec Token.isWhitespace tokens
  obtain ⟨_, _, core, -⟩ := h.exists_strip
  obtain ⟨starts, ends⟩ := core.inked_collapsed
    (fun token mem => inline token (mem_of_mem_strip mem)) starts ends
  rw [collapseTokens_eq_trim]
  conv => lhs; rw [whole]
  rw [List.map_append, List.map_append, textOf, List.flatMap_append, List.flatMap_append]
  exact Text.trim_append (isBlank_textOf_collapsed blank) (isBlank_textOf_collapsed blank') starts
    ends

/-- The end of the input adds nothing. -/
theorem collapseTokens_concat_end (tokens : List Token) :
    collapseTokens (tokens ++ [Token.endOfInput]) = collapseTokens tokens := by
  rw [collapseTokens_eq_trim, collapseTokens_eq_trim, List.map_append, textOf, List.flatMap_append]
  simp [Token.endOfInput, Token.collapsed, Token.isWhitespace, textOf]

/-- A text that is made of tokens that may all stand on one line. -/
def IsInline (text : Text) : Prop :=
  ∃ tokens, lex text = .ok tokens ∧ Inline tokens

/-- What tokens on one line are shrunk to is made of the same tokens, tidied. -/
theorem Cuts.lex_tidied (h : Cuts text tokens rest) (inline : Inline tokens)
    (separated : Separated rest) :
    lex (textOf (JavaUnit.tidied tokens)) = .ok (JavaUnit.tidied tokens ++ [Token.endOfInput]) := by
  have again := h.tidied inline separated separated_nil rfl
  rw [List.append_nil] at again
  exact lex_eq_ok_iff.2 (again.lexed .nil)

theorem Cuts.isInline_tidied (h : Cuts text tokens rest) (inline : Inline tokens)
    (separated : Separated rest) : IsInline (textOf (JavaUnit.tidied tokens)) :=
  ⟨_, h.lex_tidied inline separated, inline.tidied.concat_end⟩

/-- Shrinking what tokens on one line are shrunk to changes nothing. -/
theorem collapseWhitespace_tidied (h : Cuts text tokens rest) (inline : Inline tokens)
    (separated : Separated rest) :
    collapseWhitespace (textOf (tidied tokens)) = some (textOf (tidied tokens)) := by
  have again := h.tidied inline separated separated_nil rfl
  have same := collapseTokens_eq again inline.tidied
  rw [tidied_tidied] at same
  rw [collapseWhitespace, h.lex_tidied inline separated]
  show some (collapseTokens (tidied tokens ++ [Token.endOfInput])) = _
  rw [collapseTokens_concat_end, same]

/-! ### Line comments -/

/-- Trimming leaves a front that neither begins nor ends in white space. -/
theorem Text.exists_trim_append {front : Text} (present : front ≠ []) (starts : StartsInked front)
    (ends : EndsInked front) (more : Text) : ∃ more', trim (front ++ more) = front ++ more' := by
  obtain ⟨-, -, lead, back, blank, blank', whole⟩ := trim_spec (front ++ more)
  have nothing : lead = [] := by
    cases lead with
    | nil => rfl
    | cons c others =>
        have first := starts c (by
          obtain ⟨d, more', rfl⟩ := List.exists_cons_of_ne_nil present
          rw [List.cons_append, List.cons_append, List.cons_append, List.cons.injEq] at whole
          rw [whole.1]
          rfl)
        rw [isBlank_iff.1 blank c List.mem_cons_self] at first
        cases first
  rw [nothing, List.nil_append] at whole
  rcases List.append_eq_append_iff.1 whole with ⟨more', same, -⟩ | ⟨shared, same, after⟩
  · exact ⟨more', same⟩
  · refine ⟨[], ?_⟩
    cases last : shared.getLast? with
    | none =>
        rw [List.getLast?_eq_none_iff.1 last] at same
        simpa using same.symm
    | some c =>
        have ink := ends c (by rw [same, List.getLast?_append, last]; rfl)
        have mem := List.mem_append_left more (List.mem_of_getLast? last)
        rw [← after] at mem
        rw [isBlank_iff.1 blank' c mem] at ink
        cases ink

/-- Tokens that may not all stand on one line up to the first line comment. -/
theorem exists_first_lineComment (h : ¬ Inline tokens) :
    ∃ front line back, tokens = front ++ line :: back ∧ Inline front ∧
      line.kind = .lineComment := by
  induction tokens with
  | nil => exact absurd inline_nil h
  | cons token others ih =>
      by_cases kind : token.kind = .lineComment
      · exact ⟨[], token, others, rfl, inline_nil, kind⟩
      · obtain ⟨front, line, back, rfl, inline, kind'⟩ := ih fun inline =>
          h (inline_cons.2 ⟨kind, inline⟩)
        exact ⟨token :: front, line, back, rfl, inline_cons.2 ⟨kind, inline⟩, kind'⟩

/-- A line comment is still one when the white space around it is shrunk, up to which everything
stays in place. -/
theorem inline_of_collapseTokens {tokens' : List Token} (h : Cuts text tokens rest)
    (starts : StartsOff Token.isWhitespace tokens) (lexed : Lexed (collapseTokens tokens) tokens')
    (inline : Inline tokens') : Inline tokens := by
  by_contra comment
  obtain ⟨front, line, back, rfl, inline', kind⟩ := exists_first_lineComment comment
  obtain ⟨mid, cuts, tail⟩ := h.split
  cases tail with
  | cons head _ =>
      obtain ⟨_, _, spelling, -, spelled⟩ := head.exists_spelled
      obtain ⟨body, slashes, -⟩ := spelled.exists_of_lineComment kind
      rw [slashes] at spelling
      have ink : line.isWhitespace = false := by simp [Token.isWhitespace, kind]
      have alike : ∀ more, Alike mid ('/' :: '/' :: more) := by
        intro more
        rw [head.text_eq, spelling]
        exact ⟨fun _ _ => .rfl, fun _ _ _ _ => .rfl⟩
      have begins : Text.StartsInked (textOf (front.map Token.collapsed) ++ ['/', '/']) :=
        Text.startsInked_iff.2 (cuts.head_collapsed
          (Text.startsInked_iff.1 (h.startsInked starts (by simp))) rfl)
      have inked : Text.EndsInked ['/', '/'] := (@endsOff_concat _ _ ['/'] '/').2 rfl
      obtain ⟨more, whole⟩ := Text.exists_trim_append (by simp) begins
        ((endsOff_append (List.cons_ne_nil _ _)).2 inked)
        (body ++ textOf (back.map Token.collapsed))
      have same : collapseTokens (front ++ line :: back) =
          textOf (front.map Token.collapsed) ++ '/' :: '/' :: more := by
        rw [List.append_assoc, List.append_assoc] at whole
        rw [collapseTokens_eq_trim, List.map_append, List.map_cons, Token.collapsed_of_ink ink,
          textOf, List.flatMap_append, List.flatMap_cons, spelling]
        exact whole
      have slashed := (cuts.collapsed inline' (alike more) rfl).append
        (.cons (.lineComment more) .nil)
      rw [same, slashed.lexed_iff] at lexed
      obtain ⟨later, rfl, -⟩ := lexed
      exact inline _ (List.mem_append_left _ List.mem_concat_self) rfl

/-! ### Line breaks -/

theorem isBlank_of_endsLine {c : Char} (h : endsLine c = true) : isBlank c = true := by
  rw [endsLine, Bool.or_eq_true, decide_eq_true_eq, decide_eq_true_eq] at h
  rcases h with rfl | rfl
  · rfl
  · rfl

/-- How many characters of a text end a line. -/
def lineEnds (text : Text) : Nat :=
  text.countP endsLine

@[simp] theorem lineEnds_append (left right : Text) :
    lineEnds (left ++ right) = lineEnds left + lineEnds right :=
  List.countP_append

theorem lineEnds_of_ink {text : Text} (ink : ∀ c ∈ text, isBlank c = false) :
    lineEnds text = 0 := by
  refine List.countP_eq_zero.2 fun c mem ends => ?_
  have blank := isBlank_of_endsLine ends
  rw [ink c mem] at blank
  cases blank

theorem lineEnds_textOf_cons (token : Token) (tokens : List Token) :
    lineEnds (textOf (token :: tokens)) = lineEnds token.text + lineEnds (textOf tokens) := by
  rw [textOf, List.flatMap_cons, lineEnds_append, textOf]

theorem textOf_flatten (lists : List (List Token)) :
    textOf lists.flatten = lists.flatMap textOf := by
  induction lists with
  | nil => rfl
  | cons tokens others ih =>
      rw [List.flatten_cons, textOf, List.flatMap_append, List.flatMap_cons, ← ih, textOf, textOf]

theorem lineEnds_textOf_le {left right : List Token} (h : left.Sublist right) :
    lineEnds (textOf left) ≤ lineEnds (textOf right) := by
  induction h with
  | slnil => exact Nat.le_refl _
  | cons token _ ih =>
      rw [lineEnds_textOf_cons]
      omega
  | cons_cons token _ ih =>
      rw [lineEnds_textOf_cons, lineEnds_textOf_cons]
      omega

/-- Shrinking loses the line breaks in white space, and no others. -/
theorem lineEnds_collapsed (token : Token) :
    lineEnds token.collapsed.text ≤ lineEnds token.text ∧
      (lineEnds token.text ≤ lineEnds token.collapsed.text → token.isWhitespace = true →
        ∀ c ∈ token.text, endsLine c = false) := by
  cases blank : token.isWhitespace with
  | true =>
      have none : lineEnds token.collapsed.text = 0 := by
        rw [Token.collapsed, if_pos blank]
        rfl
      rw [none]
      refine ⟨Nat.zero_le _, fun kept _ c mem => ?_⟩
      simpa using List.countP_eq_zero.1 (Nat.le_zero.1 kept) c mem
  | false =>
      rw [Token.collapsed_of_ink blank]
      exact ⟨Nat.le_refl _, fun _ white => absurd white (by simp)⟩

theorem lineEnds_map_collapsed (tokens : List Token) :
    lineEnds (textOf (tokens.map Token.collapsed)) ≤ lineEnds (textOf tokens) ∧
      (lineEnds (textOf tokens) ≤ lineEnds (textOf (tokens.map Token.collapsed)) →
        ∀ token ∈ tokens, token.isWhitespace = true → ∀ c ∈ token.text, endsLine c = false) := by
  induction tokens with
  | nil => exact ⟨Nat.le_refl _, fun _ => List.forall_mem_nil _⟩
  | cons token others ih =>
      obtain ⟨fewer, kept⟩ := lineEnds_collapsed token
      obtain ⟨fewer', kept'⟩ := ih
      rw [List.map_cons, lineEnds_textOf_cons, lineEnds_textOf_cons]
      refine ⟨by omega, fun all token' mem => ?_⟩
      rcases List.mem_cons.1 mem with rfl | mem
      · exact kept (by omega)
      · exact kept' (by omega) token' mem

theorem lineEnds_collapseTokens_le (tokens : List Token) :
    lineEnds (collapseTokens tokens) ≤ lineEnds (textOf (tokens.map Token.collapsed)) := by
  obtain ⟨-, -, front, back, -, -, whole⟩ := Text.trim_spec (textOf (tokens.map Token.collapsed))
  rw [collapseTokens_eq_trim]
  conv => rhs; rw [whole]
  rw [lineEnds_append, lineEnds_append]
  omega

theorem lineEnds_collapseWhitespace_le (text : Text) :
    lineEnds ((collapseWhitespace text).getD []) ≤ lineEnds text := by
  rw [collapseWhitespace]
  cases lexed : lex text with
  | error => exact Nat.zero_le _
  | ok tokens =>
      have fewer := Nat.le_trans (lineEnds_collapseTokens_le tokens)
        (lineEnds_map_collapsed tokens).1
      rwa [textOf_of_lex lexed] at fewer

/-- Only white space begins with a line break, and only a line break ends a line comment. -/
theorem Cuts.inline_of_blanks (h : Cuts text tokens rest) (goesOn : rest.head?.all endsLine = false)
    (blanks : ∀ token ∈ tokens, token.isWhitespace = true → ∀ c ∈ token.text, endsLine c = false) :
    Inline tokens := by
  induction h with
  | nil => exact inline_nil
  | @cons text token mid tokens rest head tail ih =>
      refine inline_cons.2 ⟨fun kind => ?_, ih goesOn fun token mem =>
        blanks token (List.mem_cons_of_mem _ mem)⟩
      obtain ⟨first, body, -, -, spelled⟩ := head.exists_spelled
      have ends := spelled.head_of_lineComment kind
      cases tail with
      | nil =>
          rw [ends] at goesOn
          cases goesOn
      | @cons _ second _ _ _ head' _ =>
          obtain ⟨c, others, spelling⟩ := List.exists_cons_of_ne_nil head'.text_ne_nil
          rw [head'.text_eq, spelling] at ends
          have ends : endsLine c = true := by simpa using ends
          have white := head'.whitespace_of_blank (by
            rw [head'.text_eq, spelling]
            exact isBlank_of_endsLine ends)
          have stays := blanks second (by simp) (by simp [Token.isWhitespace, white]) c
            (by simp [spelling])
          rw [ends] at stays
          cases stays

/-- Tokens that lose no line break when they are shrunk may all stand on one line. -/
theorem Cuts.inline_of_lineEnds (h : Cuts text tokens rest)
    (goesOn : rest.head?.all endsLine = false)
    (kept : lineEnds (textOf tokens) ≤ lineEnds (collapseTokens tokens)) : Inline tokens :=
  h.inline_of_blanks goesOn
    ((lineEnds_map_collapsed tokens).2 (Nat.le_trans kept (lineEnds_collapseTokens_le tokens)))

end JavaUnit
