/-
Module: JavaUnit.Proofs.RawText
Purpose: Raw text up to the token that ends it: the inside of a block up to its closing brace, an
  initializer up to its semicolon. What ends it is decided by the kinds of tokens alone, white space
  apart; so the canonical lines of a raw text are ended by the same token as the text was, wherever
  they are rendered.
Main exports: through, scanTokens_eq_iff, Enclosed, Enclosed.block, Enclosed.cuts_frame
-/
import JavaUnit.Proofs.Blocks
import JavaUnit.Reading.Member

namespace JavaUnit

/-! ### Letting tokens pass -/

/-- The state of `verdict` behind some tokens, if it lets all of them pass. -/
def through (verdict : σ → Token → Option σ) : σ → List Token → Option σ
  | state, [] => some state
  | state, token :: rest => (verdict state token).bind (through verdict · rest)

variable {σ : Type} {verdict : σ → Token → Option σ} {state last : σ}

/-- A scan stops at the first token that is not let pass. -/
theorem Reading.scanTokens_of_through {inside rest : List Token} {closing : Token}
    (pass : through verdict state inside = some last)
    (inner : ∀ token ∈ inside, token.isEnd = false) (stop : verdict last closing = none) :
    scanTokens verdict state (inside ++ closing :: rest) = (inside, closing :: rest) := by
  induction inside generalizing state with
  | nil =>
      obtain rfl := Option.some.inj pass
      rw [List.nil_append, scanTokens, stop]
      split <;> rfl
  | cons token others ih =>
      rw [through, Option.bind_eq_some_iff] at pass
      obtain ⟨next, step, pass⟩ := pass
      rw [List.cons_append, scanTokens, if_neg (by simp [inner token List.mem_cons_self]), step]
      simp only
      rw [ih pass fun token mem => inner token (List.mem_cons_of_mem _ mem)]

/-- The tokens that a scan passes over are let pass, and the one behind them is not, unless it is
the end of the input. -/
theorem Reading.through_of_scanTokens (verdict : σ → Token → Option σ) (state : σ)
    (tokens : List Token) :
    ∃ last, through verdict state (scanTokens verdict state tokens).1 = some last ∧
      (∀ token ∈ (scanTokens verdict state tokens).1, token.isEnd = false) ∧
      ∀ closing, (scanTokens verdict state tokens).2.head? = some closing →
        closing.isEnd = false → verdict last closing = none := by
  induction tokens generalizing state with
  | nil => exact ⟨state, rfl, by simp [scanTokens], by simp [scanTokens]⟩
  | cons token rest ih =>
      rw [scanTokens]
      split
      · next ends =>
          refine ⟨state, rfl, by simp, fun closing head inner => ?_⟩
          obtain rfl := Option.some.inj head
          rw [ends] at inner
          cases inner
      · next inner =>
          split
          · next stop =>
              refine ⟨state, rfl, by simp, fun closing head _ => ?_⟩
              obtain rfl := Option.some.inj head
              exact stop
          · next next step =>
              obtain ⟨last, pass, inner', stop⟩ := ih next
              refine ⟨last, ?_, ?_, stop⟩
              · rw [through, step]
                exact pass
              · intro token mem
                rcases List.mem_cons.1 mem with rfl | mem
                · simpa using inner
                · exact inner' token mem

/-- A way of letting tokens pass that looks at their kinds only, and always lets white space
pass. -/
structure ByKind (verdict : σ → Token → Option σ) : Prop where
  kind : ∀ state (left right : Token), left.kind = right.kind →
    verdict state left = verdict state right
  blank : ∀ state (token : Token), token.isWhitespace = true → verdict state token = some state

theorem ByKind.through_eq (h : ByKind verdict) {left right : List Token}
    (same : left.map Token.kind = right.map Token.kind) :
    through verdict state left = through verdict state right := by
  induction left generalizing state right with
  | nil =>
      rw [List.map_nil, eq_comm, List.map_eq_nil_iff] at same
      rw [same]
  | cons token rest ih =>
      cases right with
      | nil => cases same
      | cons token' rest' =>
          rw [List.map_cons, List.map_cons, List.cons.injEq] at same
          rw [through, through, h.kind state token token' same.1]
          exact congrArg _ (funext fun _ => ih same.2)

theorem ByKind.through_inkOf (h : ByKind verdict) (tokens : List Token) :
    through verdict state (inkOf tokens) = through verdict state tokens := by
  induction tokens generalizing state with
  | nil => rfl
  | cons token rest ih =>
      rw [through, inkOf, List.filter_cons]
      cases blank : token.isWhitespace with
      | true =>
          rw [h.blank state token blank]
          exact ih
      | false =>
          rw [if_pos (by rfl), through]
          exact congrArg _ (funext fun _ => ih)

theorem byKind_insideBlock : ByKind Reading.insideBlock := by
  constructor
  · intro depth left right same
    rw [Reading.insideBlock, Reading.insideBlock, same]
  · intro depth token blank
    have kind : token.kind = .whitespace := by simpa [Token.isWhitespace] using blank
    simp [Reading.insideBlock, kind]

/-! ### Lines between delimiters -/

/-- The lines of a raw text, which a character `closer` on a line of its own ends. -/
def Enclosed (verdict : Nat → Token → Option Nat) (closer : Char) (lines : List Text) : Prop :=
  ∃ inside, Cuts ('\n' :: (Text.unlines lines ++ ['\n', closer])) inside [closer] ∧
    through verdict 0 inside = some 0

namespace Enclosed

variable {verdict : Nat → Token → Option Nat} {closer : Char}

/-- The canonical lines of a raw text are ended as the text was. -/
theorem block (byKind : ByKind verdict) (separated : separates closer = true)
    (ink : isBlank closer = false) {raw post : Text} {inside : List Token}
    (cuts : Cuts (raw ++ closer :: post) inside (closer :: post))
    (whole : textOf inside = raw) (pass : through verdict 0 inside = some 0) :
    Enclosed verdict closer (Text.block raw) := by
  have stop : [closer].head?.all (!isBlank ·) = true := by simp [ink]
  obtain ⟨inside₁, cuts₁, same₁⟩ :=
    @Cuts.exists_break_back _ _ _ cuts (separated_cons.2 separated) [closer] stop
  obtain ⟨inside₂, cuts₂, same₂⟩ := @Cuts.exists_blank_front _ _ _ cuts₁ '\n' (by decide) fun _ => stop
  rw [whole] at cuts₂
  obtain ⟨inside₃, rest, cuts₃, kinds, reflow⟩ :=
    (Text.reflow_block raw (Reflow.refl [closer])).cuts cuts₂
  rw [Reflow.eq_singleton reflow ink] at cuts₃
  refine ⟨inside₃, cuts₃, ?_⟩
  rw [byKind.through_eq kinds, ← byKind.through_inkOf, same₂, same₁, byKind.through_inkOf, pass]

/-- Lines are ended alike however they are indented. -/
theorem cuts_frame {lines : List Text} (h : Enclosed verdict closer lines)
    (byKind : ByKind verdict) (separated : separates closer = true) (ink : isBlank closer = false)
    (count : Nat) {last : Text} (blank : last.isBlank = true) (post : Text) :
    ∃ inside, Cuts (Text.frame count last lines ++ closer :: post) inside (closer :: post) ∧
      textOf inside = Text.frame count last lines ∧ through verdict 0 inside = some 0 := by
  obtain ⟨inside, cuts, pass⟩ := h
  have same : Text.contents lines = Text.contents (lines.map (Text.pad count)) := by
    refine (Text.contents_map fun line _ => ?_).symm
    rw [Text.pad]
    split
    · next empty => rw [empty]
    · obtain ⟨starts, ends, front, back, none, none', whole⟩ := Text.trim_spec line
      conv => lhs; rw [whole]
      rw [← List.append_assoc, ← List.append_assoc]
      refine Text.trim_append ?_ none' starts ends
      rw [Text.isBlank_append, Text.isBlank_replicate, none]
      rfl
  have reflow : Reflow ('\n' :: (Text.unlines lines ++ ['\n', closer]))
      (Text.frame count last lines ++ [closer]) := by
    have framed : Text.frame count last lines ++ [closer] =
        ['\n'] ++ (lines.map (Text.pad count)).flatMap (· ++ ['\n']) ++ (last ++ [closer]) := by
      rw [Text.frame, Text.unlines_cons (by simp), List.nil_append]
      by_cases present : lines = []
      · subst present
        simp
      · have more : lines.map (Text.pad count) ≠ [] := by simpa using present
        have joined : Text.unlines (lines.map (Text.pad count) ++ [last]) =
            (lines.map (Text.pad count)).flatMap (· ++ ['\n']) ++ last := by
          rw [← Text.unlines_append_break more]
          rw [Text.unlines_append more (List.cons_ne_nil _ _), Text.unlines_singleton]
          simp
        rw [joined]
        simp
    rw [framed]
    by_cases present : lines = []
    · subst present
      have two : Break ['\n', '\n'] := Text.break_append break_feed rfl
      have moved := Text.reflow_of_contents (Reflow.refl [closer]) same two break_feed blank
      simpa [Text.unlines, Text.join] using moved
    · have moved := Text.reflow_of_contents (Reflow.refl [closer]) same break_feed break_feed blank
      rw [Text.unlines_append_break present]
      simpa using moved
  obtain ⟨inside', rest, cuts', kinds, tail⟩ := reflow.cuts cuts
  rw [Reflow.eq_singleton tail ink] at cuts'
  have whole : textOf inside' = Text.frame count last lines :=
    List.append_cancel_right cuts'.text_eq.symm
  have start : Separated (closer :: post) := separated_cons.2 separated
  have moved := cuts'.swap_of_head (.of_separated (separated_cons.2 separated) start) rfl
  rw [whole] at moved
  exact ⟨inside', moved, whole, by rw [byKind.through_eq kinds, pass]⟩

end Enclosed

end JavaUnit
