/-
Module: JavaUnit.Proofs.Reflow
Purpose: Changing the layout of a text at its line breaks. White space around a line break, blank
  lines included, may become any other white space with a line break in it: the text is still cut
  into tokens of the same kinds, one by one. Comments and text blocks that reach over several lines
  change their texts thereby, and line comments the white space at their ends, but none of them
  ends earlier or later.
Main exports: Reflow, Reflow.cuts
-/
import JavaUnit.Proofs.Cut

namespace JavaUnit

/-- White space with a line break in it. -/
structure Break (text : Text) : Prop where
  blank : ∀ c ∈ text, isBlank c = true
  line : '\n' ∈ text

/-- Two texts that differ in white space at line breaks only. -/
inductive Reflow : Text → Text → Prop where
  | nil : Reflow [] []
  | char {c left right} (tail : Reflow left right) : Reflow (c :: left) (c :: right)
  | gap {u v left right} (old : Break u) (new : Break v) (tail : Reflow left right) :
      Reflow (u ++ left) (v ++ right)

theorem break_feed : Break ['\n'] :=
  ⟨isBlank_of_mem_feed, List.mem_singleton_self _⟩

theorem Break.ne_nil {text : Text} (h : Break text) : text ≠ [] := by
  rintro rfl
  cases h.line

/-- A text that does not end in white space does not end inside some white space in front of
another text. -/
theorem exists_append_of_blank {u left body rest : Text} (blank : ∀ c ∈ u, isBlank c = true)
    (last : ∃ c ∈ body, isBlank c = false) (same : u ++ left = body ++ rest) :
    ∃ others, body = u ++ others ∧ left = others ++ rest := by
  rcases List.append_eq_append_iff.1 same with ⟨others, rfl, rfl⟩ | ⟨others, rfl, rfl⟩
  · exact ⟨others, rfl, rfl⟩
  · obtain ⟨c, mem, no⟩ := last
    rw [blank c (List.mem_append_left _ mem)] at no
    cases no

namespace Reflow

variable {left right : Text}

theorem refl (text : Text) : Reflow text text := by
  induction text with
  | nil => exact .nil
  | cons c _ ih => exact .char ih

theorem append (front : Text) (h : Reflow left right) : Reflow (front ++ left) (front ++ right) := by
  induction front with
  | nil => exact h
  | cons c _ ih => exact .char ih

/-- A character that is not white space stays. -/
theorem exists_of_cons {c : Char} (h : Reflow (c :: left) right) (ink : isBlank c = false) :
    ∃ others, right = c :: others ∧ Reflow left others := by
  generalize whole : c :: left = text at h
  cases h with
  | nil => cases whole
  | char tail =>
      cases whole
      exact ⟨_, rfl, tail⟩
  | @gap u v _ _ old _ _ =>
      obtain ⟨d, others, rfl⟩ := List.exists_cons_of_ne_nil old.ne_nil
      rw [List.cons_append, List.cons.injEq] at whole
      rw [whole.1, old.blank d List.mem_cons_self] at ink
      cases ink

/-- White space is followed by the same. -/
theorem dropWhile_isBlank (h : Reflow left right) :
    Reflow (left.dropWhile isBlank) (right.dropWhile isBlank) := by
  induction h with
  | nil => exact .nil
  | @char c left right tail ih =>
      rw [List.dropWhile_cons, List.dropWhile_cons]
      split
      · exact ih
      · exact .char tail
  | gap old new _ ih =>
      rwa [List.dropWhile_append_of_pos old.blank, List.dropWhile_append_of_pos new.blank]

theorem head_isBlank (h : Reflow left right) :
    left.head?.any isBlank = right.head?.any isBlank := by
  cases h with
  | nil => rfl
  | char => rfl
  | gap old new _ =>
      obtain ⟨c, _, rfl⟩ := List.exists_cons_of_ne_nil old.ne_nil
      obtain ⟨d, _, rfl⟩ := List.exists_cons_of_ne_nil new.ne_nil
      simp [old.blank c List.mem_cons_self, new.blank d List.mem_cons_self]

/-- A line ends where it ended. -/
theorem dropWhile_endsLine (h : Reflow left right) :
    Reflow (left.dropWhile (!endsLine ·)) (right.dropWhile (!endsLine ·)) := by
  -- What is dropped of a break is in front of its first line feed.
  have still : ∀ {u : Text}, Break u → ∀ rest : Text, ∃ u', Break u' ∧
      (u ++ rest).dropWhile (!endsLine ·) = u' ++ rest := by
    intro u brk rest
    have stays : '\n' ∈ u.dropWhile (!endsLine ·) := by
      have mem := brk.line
      rw [← List.takeWhile_append_dropWhile (p := (!endsLine ·)) (l := u), List.mem_append] at mem
      rcases mem with mem | mem
      · have each := (takeWhile_spec (!endsLine ·) u).1 '\n' mem
        exact absurd each (by decide)
      · exact mem
    refine ⟨u.dropWhile (!endsLine ·), ⟨?_, stays⟩, ?_⟩
    · intro c mem
      exact brk.blank c ((List.dropWhile_suffix _).subset mem)
    · rw [List.dropWhile_append, if_neg]
      intro empty
      rw [List.isEmpty_iff] at empty
      rw [empty] at stays
      cases stays
  induction h with
  | nil => exact .nil
  | @char c left right tail ih =>
      rw [List.dropWhile_cons, List.dropWhile_cons]
      split
      · exact ih
      · exact .char tail
  | @gap u v left right old new tail _ =>
      obtain ⟨u', old', eq⟩ := still old left
      obtain ⟨v', new', eq'⟩ := still new right
      rw [eq, eq']
      exact .gap old' new' tail

/-- No token can tell the two texts apart. -/
theorem alike (h : Reflow left right) : Alike left right := by
  have ink : ∀ {c}, separates c = false → isBlank c = false := fun other =>
    (separates_eq_false_iff.1 other).1
  induction h with
  | nil => exact .refl []
  | char tail ih => exact ih.cons _
  | gap old new _ _ =>
      obtain ⟨c, _, rfl⟩ := List.exists_cons_of_ne_nil old.ne_nil
      obtain ⟨d, _, rfl⟩ := List.exists_cons_of_ne_nil new.ne_nil
      refine .of_separated ?_ ?_
      · exact separated_cons.2 (separates_of_isBlank (old.blank c List.mem_cons_self))
      · exact separated_cons.2 (separates_of_isBlank (new.blank d List.mem_cons_self))

/-- A text without line breaks that does not end in white space stays. -/
theorem exists_of_append {body rest : Text} (h : Reflow (body ++ rest) right)
    (line : '\n' ∉ body) (last : ∀ c, body.getLast? = some c → isBlank c = false) :
    ∃ others, right = body ++ others ∧ Reflow rest others := by
  induction body generalizing right with
  | nil => exact ⟨right, rfl, h⟩
  | cons c others ih =>
      generalize whole : c :: others ++ rest = text at h
      cases h with
      | nil => cases whole
      | char tail =>
          rw [List.cons_append, List.cons.injEq] at whole
          obtain ⟨rfl, rfl⟩ := whole
          rw [List.mem_cons, not_or] at line
          obtain ⟨more, rfl, reflow⟩ := ih tail line.2 fun d mem => last d (by
            rw [List.getLast?_cons, mem, Option.getD_some])
          exact ⟨more, rfl, reflow⟩
      | @gap u v _ _ old _ _ =>
          have ink : ∃ d ∈ c :: others, isBlank d = false := by
            have some := List.getLast?_eq_some_getLast (List.cons_ne_nil c others)
            exact ⟨_, List.getLast_mem _, last _ some⟩
          obtain ⟨more, front, _⟩ := exists_append_of_blank old.blank ink whole.symm
          rw [front] at line
          exact absurd (List.mem_append_left _ old.line) line

end Reflow

/-! ### Comments -/

theorem CommentRest.of_cons {previous c : Char} {body : Text}
    (h : CommentRest previous (c :: body)) (ink : c ≠ '/') : CommentRest c body := by
  cases h with
  | close => exact absurd rfl ink
  | char _ tail => exact tail

/-- White space inside a comment does not end it. -/
theorem commentRest_append_iff {u body : Text} {previous : Char}
    (blank : ∀ c ∈ u, isBlank c = true) :
    CommentRest previous (u ++ body) ↔ CommentRest (u.getLastD previous) body := by
  induction u generalizing previous with
  | nil => rfl
  | cons c others ih =>
      have ink : c ≠ '/' := by
        rintro rfl
        exact absurd (blank '/' List.mem_cons_self) (by decide)
      rw [List.getLastD_cons, ← ih fun d mem => blank d (List.mem_cons_of_mem _ mem),
        List.cons_append]
      constructor
      · exact fun h => h.of_cons ink
      · exact .char fun both => ink both.2

theorem CommentRest.exists_ink {previous : Char} {body : Text} (h : CommentRest previous body) :
    ∃ c ∈ body, isBlank c = false := by
  induction h with
  | close => exact ⟨'/', List.mem_cons_self, by decide⟩
  | char _ _ ih =>
      obtain ⟨c, mem, ink⟩ := ih
      exact ⟨c, List.mem_cons_of_mem _ mem, ink⟩

/-- A comment whose layout changes ends where it ended. -/
theorem CommentRest.reflow {previous previous' : Char} {body left rest right : Text}
    (h : CommentRest previous body) (reflow : Reflow left right) (whole : left = body ++ rest)
    (same : previous = '*' ↔ previous' = '*') :
    ∃ body' rest', right = body' ++ rest' ∧ CommentRest previous' body' ∧ Reflow rest rest' := by
  induction reflow generalizing previous previous' body with
  | nil =>
      rw [List.nil_eq, List.append_eq_nil_iff] at whole
      rw [whole.1] at h
      cases h
  | @char c left right tail ih =>
      cases h with
      | close =>
          rw [List.singleton_append, List.cons.injEq] at whole
          obtain ⟨rfl, rfl⟩ := whole
          rw [same.1 rfl]
          exact ⟨['/'], right, rfl, .close, tail⟩
      | @char _ d body goesOn comment =>
          rw [List.cons_append, List.cons.injEq] at whole
          obtain ⟨rfl, rfl⟩ := whole
          obtain ⟨body', rest', rfl, comment', reflow⟩ := ih comment rfl .rfl
          exact ⟨c :: body', rest', rfl, .char (by rwa [← same]) comment', reflow⟩
  | @gap u v left right old new tail ih =>
      obtain ⟨body, rfl, rfl⟩ := exists_append_of_blank old.blank h.exists_ink whole
      have plain : ∀ {w : Text} {c : Char}, Break w → w.getLastD c ≠ '*' := by
        intro w c brk last
        have mem : w.getLastD c ∈ w := by
          rw [List.getLastD_eq_getLast?, List.getLast?_eq_some_getLast brk.ne_nil]
          exact List.getLast_mem _
        rw [last] at mem
        exact absurd (brk.blank '*' mem) (by decide)
      rw [commentRest_append_iff old.blank] at h
      obtain ⟨body', rest', rfl, comment', reflow⟩ := ih h rfl
        (iff_of_false (plain old) (@plain v previous' new))
      refine ⟨v ++ body', rest', by rw [List.append_assoc], ?_, reflow⟩
      rwa [commentRest_append_iff new.blank]

/-! ### Text blocks -/

theorem TextBlockRest.of_cons {quotes : Nat} {c : Char} {body : Text}
    (h : TextBlockRest quotes (c :: body)) (blank : isBlank c = true) : TextBlockRest 0 body := by
  cases h with
  | close => cases blank
  | quote => cases blank
  | escape => cases blank
  | char _ _ tail => exact tail

theorem TextBlockRest.cons {quotes : Nat} {c : Char} {body : Text} (h : TextBlockRest 0 body)
    (blank : isBlank c = true) : TextBlockRest quotes (c :: body) := by
  refine .char ?_ ?_ h
  · rintro rfl
    cases blank
  · rintro rfl
    cases blank

/-- White space inside a text block does not end it. -/
theorem textBlockRest_append_iff {u body : Text} (blank : ∀ c ∈ u, isBlank c = true) :
    TextBlockRest 0 (u ++ body) ↔ TextBlockRest 0 body := by
  induction u with
  | nil => rfl
  | cons c others ih =>
      rw [← ih fun d mem => blank d (List.mem_cons_of_mem _ mem), List.cons_append]
      have first := blank c List.mem_cons_self
      exact ⟨fun h => h.of_cons first, fun h => h.cons first⟩

/-- No quotes in front of white space count behind it. -/
theorem textBlockRest_break_iff {u body : Text} {quotes : Nat} (brk : Break u) :
    TextBlockRest quotes (u ++ body) ↔ TextBlockRest 0 body := by
  obtain ⟨c, others, rfl⟩ := List.exists_cons_of_ne_nil brk.ne_nil
  have first := brk.blank c List.mem_cons_self
  rw [← textBlockRest_append_iff fun d mem => brk.blank d (List.mem_cons_of_mem _ mem),
    List.cons_append]
  exact ⟨fun h => h.of_cons first, fun h => h.cons first⟩

theorem TextBlockRest.exists_ink {quotes : Nat} {body : Text} (h : TextBlockRest quotes body) :
    ∃ c ∈ body, isBlank c = false := by
  induction h with
  | close => exact ⟨'"', List.mem_cons_self, by decide⟩
  | quote => exact ⟨'"', List.mem_cons_self, by decide⟩
  | escape => exact ⟨'\\', List.mem_cons_self, by decide⟩
  | char _ _ _ ih =>
      obtain ⟨c, mem, ink⟩ := ih
      exact ⟨c, List.mem_cons_of_mem _ mem, ink⟩

/-- A text block whose layout changes ends where it ended. -/
theorem TextBlockRest.reflow {quotes : Nat} {body rest right : Text}
    (h : TextBlockRest quotes body) (reflow : Reflow (body ++ rest) right) :
    ∃ body' rest', right = body' ++ rest' ∧ TextBlockRest quotes body' ∧ Reflow rest rest' := by
  -- The induction is on the length: a break takes several characters of the block at once.
  suffices general : ∀ n quotes (body right : Text), body.length ≤ n → TextBlockRest quotes body →
      Reflow (body ++ rest) right →
      ∃ body' rest', right = body' ++ rest' ∧ TextBlockRest quotes body' ∧ Reflow rest rest' from
    general body.length quotes body right (Nat.le_refl _) h reflow
  intro n
  induction n with
  | zero =>
      intro quotes body right bound h _
      rw [Nat.le_zero, List.length_eq_zero_iff] at bound
      rw [bound] at h
      cases h
  | succ n ih =>
      intro quotes body right bound h reflow
      generalize whole : body ++ rest = left at reflow
      cases reflow with
      | nil =>
          rw [List.append_eq_nil_iff] at whole
          rw [whole.1] at h
          cases h
      | @char c left right tail =>
          cases h with
          | close =>
              rw [List.singleton_append, List.cons.injEq] at whole
              obtain ⟨rfl, rfl⟩ := whole
              exact ⟨['"'], right, rfl, .close, tail⟩
          | @quote _ body few block =>
              rw [List.cons_append, List.cons.injEq] at whole
              obtain ⟨rfl, rfl⟩ := whole
              obtain ⟨body', rest', rfl, block', reflow⟩ :=
                ih _ body right (by simpa using bound) block tail
              exact ⟨_ :: body', rest', rfl, .quote few block', reflow⟩
          | @char _ _ body other plain block =>
              rw [List.cons_append, List.cons.injEq] at whole
              obtain ⟨rfl, rfl⟩ := whole
              obtain ⟨body', rest', rfl, block', reflow⟩ :=
                ih _ body right (by simpa using bound) block tail
              exact ⟨_ :: body', rest', rfl, .char other plain block', reflow⟩
          | @escape _ d body block =>
              rw [List.cons_append, List.cons.injEq] at whole
              obtain ⟨rfl, rfl⟩ := whole
              generalize whole : d :: body ++ rest = left at tail
              cases tail with
              | nil => cases whole
              | @char _ left right tail =>
                  rw [List.cons_append, List.cons.injEq] at whole
                  obtain ⟨rfl, rfl⟩ := whole
                  obtain ⟨body', rest', rfl, block', reflow⟩ :=
                    ih _ body right (by simp only [List.length_cons] at bound; omega) block tail
                  exact ⟨_ :: _ :: body', rest', rfl, .escape block', reflow⟩
              | @gap u v left right old new tail =>
                  have ink : ∃ c ∈ d :: body, isBlank c = false := by
                    obtain ⟨c, mem, ink⟩ := block.exists_ink
                    exact ⟨c, List.mem_cons_of_mem _ mem, ink⟩
                  obtain ⟨body, front, rfl⟩ := exists_append_of_blank old.blank ink whole.symm
                  obtain ⟨e, u, rfl⟩ := List.exists_cons_of_ne_nil old.ne_nil
                  obtain ⟨f, v, rfl⟩ := List.exists_cons_of_ne_nil new.ne_nil
                  rw [List.cons_append, List.cons.injEq] at front
                  obtain ⟨rfl, rfl⟩ := front
                  rw [textBlockRest_append_iff fun c mem =>
                    old.blank c (List.mem_cons_of_mem _ mem)] at block
                  obtain ⟨body', rest', rfl, block', reflow⟩ := ih _ body right (by
                    simp only [List.length_cons, List.length_append] at bound
                    omega) block tail
                  refine ⟨'\\' :: f :: (v ++ body'), rest', ?_, .escape ?_, reflow⟩
                  · simp
                  · rwa [textBlockRest_append_iff fun c mem =>
                      new.blank c (List.mem_cons_of_mem _ mem)]
      | @gap u v left right old new tail =>
          obtain ⟨body, rfl, rfl⟩ := exists_append_of_blank old.blank h.exists_ink whole.symm
          rw [textBlockRest_break_iff old] at h
          have shorter : body.length ≤ n := by
            have positive := List.length_pos_iff.2 old.ne_nil
            rw [List.length_append] at bound
            omega
          obtain ⟨body', rest', rfl, block', reflow⟩ := ih _ body right shorter h tail
          refine ⟨v ++ body', rest', by rw [List.append_assoc], ?_, reflow⟩
          rwa [textBlockRest_break_iff new]

/-! ### Tokens -/

theorem LiteralRest.stays {quote : Char} {body : Text} (h : LiteralRest quote body)
    (ink : quote ≠ '\n') : '\n' ∉ body := by
  induction h with
  | close => simpa using Ne.symm ink
  | escape stays _ ih => simp [ih, Ne.symm stays]
  | char _ _ stays _ ih =>
      have other : ∀ {c}, endsLine c = false → '\n' ≠ c := by
        rintro c stays rfl
        cases stays
      simp [ih, other stays]

theorem LiteralRest.getLast?_eq {quote : Char} {body : Text} (h : LiteralRest quote body) :
    body.getLast? = some quote := by
  induction h with
  | close => rfl
  | escape _ tail ih => simp [List.getLast?_cons, ih]
  | char _ _ _ _ ih => simp [List.getLast?_cons, ih]

theorem isBlank_of_mem_number {previous c : Char} {body rest : Text}
    (h : numberLength previous (body ++ rest) = body.length) (mem : c ∈ body) :
    isBlank c = false := by
  induction body generalizing previous with
  | nil => cases mem
  | cons d others ih =>
      rw [List.cons_append, numberLength] at h
      split at h
      · next known =>
          rcases List.mem_cons.1 mem with rfl | mem
          · simp only [Bool.or_eq_true, Bool.and_eq_true, decide_eq_true_eq] at known
            have other : separates c = false := by
              rcases known with ((known | rfl) | rfl) | ⟨rfl | rfl, _⟩
              · exact separates_of_isAlphanum known
              all_goals decide
            exact (separates_eq_false_iff.1 other).1
          · split at h
            · cases h
            · exact ih (by simpa using h) mem
      · cases h

/-- The kinds of tokens that may have white space in them. -/
def mayHoldBlank (kind : Kind) : Bool :=
  kind ∈ [.whitespace, .lineComment, .blockComment, .docComment, .string, .character]

/-- Most tokens have no white space in them. -/
theorem Spelled.isBlank_eq_false {first c : Char} {body rest : Text} {kind : Kind}
    (h : Spelled first body kind rest) (bare : mayHoldBlank kind = false)
    (listed : c ∈ first :: body) : isBlank c = false := by
  have alone : ∀ {d : Char}, c ∈ [d] → isBlank d = false → isBlank c = false := by
    intro d mem ink
    rwa [List.mem_singleton.1 mem]
  cases h with
  | mark known =>
      have each : punctuation.all (fun entry => !isBlank entry.1) = true := by decide
      exact alone listed (by simpa using List.all_eq_true.1 each _ known)
  | comparison =>
      have same : c = '=' := by simpa using listed
      rw [same]
      rfl
  | ellipsis =>
      have same : c = '.' := by simpa using listed
      rw [same]
      rfl
  | fraction digit length =>
      rcases List.mem_cons.1 listed with rfl | listed
      · rfl
      · exact isBlank_of_mem_number length listed
  | comment => split at bare <;> cases bare
  | word start parts =>
      rcases List.mem_cons.1 listed with rfl | listed
      · exact not_isBlank_of_isWordStart start
      · exact (separates_eq_false_iff.1 (separates_of_isWordPart (parts c listed))).1
  | number digit length =>
      rcases List.mem_cons.1 listed with rfl | listed
      · exact (sorts_of_isDigit digit).1
      · exact isBlank_of_mem_number length listed
  | operator known => exact alone listed (sorts_of_mem_operatorChars known).1
  | unknown noBlank => exact alone listed noBlank
  | equals => exact alone listed rfl
  | dot => exact alone listed rfl
  | slash => exact alone listed rfl
  | lineComment => cases bare
  | textBlock => cases bare
  | string => cases bare
  | character => cases bare
  | whitespace => cases bare

theorem CommentRest.getLast?_eq {previous : Char} {body : Text} (h : CommentRest previous body) :
    body.getLast? = some '/' := by
  induction h with
  | close => rfl
  | char _ tail ih => simp [List.getLast?_cons, ih]

theorem TextBlockRest.getLast?_eq {quotes : Nat} {body : Text} (h : TextBlockRest quotes body) :
    body.getLast? = some '"' := by
  induction h with
  | close => rfl
  | quote _ _ ih => simp [List.getLast?_cons, ih]
  | escape _ ih => simp [List.getLast?_cons, ih]
  | char _ _ _ ih => simp [List.getLast?_cons, ih]

/-- No token but white space and line comments ends in white space. -/
theorem Spelled.endsOff {first : Char} {body rest : Text} {kind : Kind}
    (h : Spelled first body kind rest) (noBlank : kind ≠ .whitespace)
    (noComment : kind ≠ .lineComment) {c : Char} (last : (first :: body).getLast? = some c) :
    isBlank c = false := by
  have closed : ∀ {d : Char}, (first :: body).getLast? = some d → isBlank d = false →
      isBlank c = false := by
    intro d last' ink
    rw [last] at last'
    rwa [Option.some.inj last']
  by_cases bare : mayHoldBlank kind = false
  · exact h.isBlank_eq_false bare (List.mem_of_getLast? last)
  · cases h with
    | lineComment => exact absurd rfl noComment
    | whitespace => exact absurd rfl noBlank
    | comment rest => exact @closed '/' (by simp [List.getLast?_cons, rest.getLast?_eq]) rfl
    | textBlock rest => exact @closed '"' (by simp [List.getLast?_cons, rest.getLast?_eq]) rfl
    | string _ rest => exact @closed '"' (by simp [List.getLast?_cons, rest.getLast?_eq]) rfl
    | character rest => exact @closed '\'' (by simp [List.getLast?_cons, rest.getLast?_eq]) rfl
    | mark known =>
        have each : punctuation.all (fun entry => !mayHoldBlank entry.2) = true := by decide
        exact absurd (by simpa using List.all_eq_true.1 each _ known) bare
    | word => simp only [wordKind] at bare; split at bare <;> exact absurd rfl bare
    | _ => exact absurd rfl bare

namespace Reflow

variable {left right rest : Text}

/-- A line comment ends where its line ends. -/
theorem cut_lineComment {body : Text} (h : Reflow ('/' :: '/' :: (body ++ rest)) right)
    (stays : ∀ c ∈ body, endsLine c = false) (ends : rest.head?.all endsLine = true) :
    ∃ token rest', Cut right token rest' ∧ token.kind = .lineComment ∧ Reflow rest rest' := by
  obtain ⟨_, rfl, h₁⟩ := h.exists_of_cons (by decide)
  obtain ⟨others, rfl, h₂⟩ := h₁.exists_of_cons (by decide)
  have line := h₂.dropWhile_endsLine
  have old : (body ++ rest).dropWhile (!endsLine ·) = rest := by
    rw [List.dropWhile_append_of_pos fun c mem => by simp [stays c mem]]
    cases rest with
    | nil => rfl
    | cons c _ => exact List.dropWhile_cons_of_neg (by simpa using ends)
  rw [old] at line
  exact ⟨_, _, .lineComment others, rfl, line⟩

/-- A comment stays a doc comment or none. -/
theorem cut_comment {body : Text} (h : Reflow ('/' :: '*' :: (body ++ rest)) right)
    (closed : CommentRest '\x00' body) :
    ∃ token rest', Cut right token rest' ∧
      token.kind = (if body.head? = some '*' && body[1]? ≠ some '/' then .docComment
        else .blockComment) ∧ Reflow rest rest' := by
  obtain ⟨_, rfl, h₁⟩ := h.exists_of_cons (by decide)
  obtain ⟨_, rfl, h₂⟩ := h₁.exists_of_cons (by decide)
  obtain ⟨body', rest', rfl, closed', reflow⟩ := closed.reflow h₂ rfl .rfl
  have alike := h₂.alike
  have heads : ∀ {text rest : Text}, CommentRest '\x00' text →
      (text ++ rest).head? = text.head? ∧ (text ++ rest)[1]? = text[1]? := by
    intro text rest comment
    have two := comment.two_le (by decide)
    match text, two with
    | _ :: _ :: _, _ => exact ⟨rfl, rfl⟩
  have star := alike.first '*' (by decide)
  have slash := alike.second '*' '/' (by decide) (by decide)
  rw [(heads closed).1, (heads closed').1] at star
  rw [(heads closed).1, (heads closed').1, (heads closed).2, (heads closed').2] at slash
  refine ⟨_, rest', .intro (.comment closed'), ?_, reflow⟩
  have same : (body'.head? = some '*' && body'[1]? ≠ some '/') =
      (body.head? = some '*' && body[1]? ≠ some '/') := by
    rw [Bool.eq_iff_iff]
    simp only [Bool.and_eq_true, decide_eq_true_eq]
    constructor
    · exact fun both => ⟨star.2 both.1, fun second => both.2 (slash.1 ⟨star.2 both.1, second⟩).2⟩
    · exact fun both => ⟨star.1 both.1, fun second => both.2 (slash.2 ⟨star.1 both.1, second⟩).2⟩
  rw [same]

/-- White space stays white space. -/
theorem cut_whitespace {first : Char} {body : Text} (h : Reflow (first :: (body ++ rest)) right)
    (blank : isBlank first = true) (blanks : ∀ c ∈ body, isBlank c = true)
    (ends : rest.head?.all (!isBlank ·) = true) :
    ∃ token rest', Cut right token rest' ∧ token.kind = .whitespace ∧ Reflow rest rest' := by
  have behind := h.dropWhile_isBlank
  have old : (first :: (body ++ rest)).dropWhile isBlank = rest := by
    rw [List.dropWhile_cons_of_pos blank, List.dropWhile_append_of_pos blanks]
    cases rest with
    | nil => rfl
    | cons c _ => exact List.dropWhile_cons_of_neg (by simpa using ends)
  rw [old] at behind
  have start := h.head_isBlank
  cases right with
  | nil => simp [blank] at start
  | cons d others =>
      have blank' : isBlank d = true := by simpa [blank] using start.symm
      obtain ⟨inside, stop⟩ := takeWhile_spec isBlank others
      have cut := Cut.intro (Spelled.whitespace blank' inside stop)
      rw [List.takeWhile_append_dropWhile] at cut
      rw [List.dropWhile_cons_of_pos blank'] at behind
      exact ⟨_, _, cut, rfl, behind⟩

/-- The first token stays, of the same kind, and the layout behind it is all that changes. -/
theorem cut {token : Token} (h : Reflow left right) (cut : Cut left token rest) :
    ∃ token' rest', Cut right token' rest' ∧ token'.kind = token.kind ∧ Reflow rest rest' := by
  cases cut with
  | @intro first body rest kind spelled =>
      -- Most tokens are spelled without a line break or white space at their ends, and stay.
      have kept : '\n' ∉ first :: body → kind ≠ .lineComment → kind ≠ .whitespace →
          ∃ token' rest', Cut right token' rest' ∧ token'.kind = kind ∧ Reflow rest rest' := by
        intro stays noComment noBlank
        obtain ⟨others, rfl, reflow⟩ := @exists_of_append _ (first :: body) _
          (by simpa using h) stays fun c => spelled.endsOff noBlank noComment
        refine ⟨⟨kind, first :: body⟩, others, ?_, rfl, reflow⟩
        exact .intro (spelled.swap reflow.alike (fun same => absurd same noComment)
          fun same => absurd same noBlank)
      by_cases bare : mayHoldBlank kind = false
      · have ink : '\n' ∉ first :: body := fun mem =>
          absurd (spelled.isBlank_eq_false bare mem) (by decide)
        refine kept ink ?_ ?_
        · rintro rfl
          cases bare
        · rintro rfl
          cases bare
      · cases spelled with
        | lineComment stays ends => exact cut_lineComment h stays ends
        | comment closed => exact cut_comment h closed
        | whitespace blank blanks ends => exact cut_whitespace h blank blanks ends
        | string _ closed =>
            refine kept ?_ nofun nofun
            simpa using closed.stays (by decide)
        | character closed =>
            refine kept ?_ nofun nofun
            simpa using closed.stays (by decide)
        | textBlock closed =>
            obtain ⟨_, rfl, h₁⟩ := h.exists_of_cons (by decide)
            obtain ⟨_, rfl, h₂⟩ := h₁.exists_of_cons (by decide)
            obtain ⟨_, rfl, h₃⟩ := h₂.exists_of_cons (by decide)
            obtain ⟨body', rest', rfl, closed', reflow⟩ := closed.reflow h₃
            exact ⟨_, rest', .intro (.textBlock closed'), rfl, reflow⟩
        | mark known =>
            have each : punctuation.all (fun entry => !mayHoldBlank entry.2) = true := by decide
            exact absurd (by simpa using List.all_eq_true.1 each _ known) bare
        | word => simp only [wordKind] at bare; split at bare <;> exact absurd rfl bare
        | _ => exact absurd rfl bare

/-- A text whose layout changes is cut into tokens of the same kinds. -/
theorem cuts {tokens : List Token} (h : Reflow left right) (cuts : Cuts left tokens rest) :
    ∃ tokens' rest', Cuts right tokens' rest' ∧
      tokens'.map Token.kind = tokens.map Token.kind ∧ Reflow rest rest' := by
  induction cuts generalizing right with
  | nil => exact ⟨[], right, .nil, rfl, h⟩
  | cons head _ ih =>
      obtain ⟨token', mid', head', kind, h⟩ := h.cut head
      obtain ⟨tokens', rest', tail', kinds, h⟩ := ih h
      exact ⟨token' :: tokens', rest', .cons head' tail', by rw [List.map_cons, kind, kinds,
        List.map_cons], h⟩

theorem eq_nil {rest : Text} (h : Reflow [] rest) : rest = [] := by
  generalize nothing : ([] : Text) = left at h
  cases h with
  | nil => rfl
  | char => cases nothing
  | gap old _ _ =>
      rw [eq_comm, List.append_eq_nil_iff] at nothing
      exact absurd nothing.1 old.ne_nil

theorem eq_singleton {closer : Char} {rest : Text} (h : Reflow [closer] rest)
    (ink : isBlank closer = false) : rest = [closer] := by
  obtain ⟨others, rfl, tail⟩ := h.exists_of_cons ink
  rw [tail.eq_nil]

end Reflow

end JavaUnit
