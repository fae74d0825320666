/-
Module: JavaUnit.Proofs.Quoting
Purpose: String literals tell their texts, whatever stands behind them. Each character is written
  as itself or behind a backslash, so that it is known where its part of the literal ends, and the
  first quotation mark that is not escaped ends the literal.
Main exports: Text.Quotes, Text.quote_append_inj, Text.notMem_quote, Text.PrefixFree,
  Text.join_inj
-/
import Mathlib.Data.List.Basic
import JavaUnit.Text.Quoted

namespace JavaUnit

namespace Text

/-- What stands in front of the first mark, and behind it. -/
theorem append_mark_inj {mark : Char} {left right rest rest' : Text} (absent : mark ∉ left)
    (absent' : mark ∉ right) (same : left ++ mark :: rest = right ++ mark :: rest') :
    left = right ∧ rest = rest' := by
  rcases List.append_eq_append_iff.1 same with ⟨more, whole, behind⟩ | ⟨more, whole, behind⟩
  · cases more with
    | nil =>
        simp only [List.nil_append, List.cons.injEq, true_and] at behind
        exact ⟨by simp [whole], behind⟩
    | cons c more =>
        simp only [List.cons_append, List.cons.injEq] at behind
        simp [whole, ← behind.1] at absent'
  · cases more with
    | nil =>
        simp only [List.nil_append, List.cons.injEq, true_and] at behind
        exact ⟨by simp [whole], behind.symm⟩
    | cons c more =>
        simp only [List.cons_append, List.cons.injEq] at behind
        simp [whole, ← behind.1] at absent

/-! ### Hexadecimal digits -/

theorem hexDigits_eq (n : Nat) :
    hexDigits n = if n < 16 then [n.digitChar] else hexDigits (n / 16) ++ [(n % 16).digitChar] :=
  Nat.toDigits_eq_if (by decide)

theorem digitChar_inj : ∀ m < 16, ∀ n < 16, Nat.digitChar m = Nat.digitChar n → m = n := by
  decide

theorem hexDigits_inj {m n : Nat} (h : hexDigits m = hexDigits n) : m = n := by
  induction m using Nat.strongRecOn generalizing n with
  | ind m ih =>
      have some : ∀ k, hexDigits k ≠ [] := fun _ => Nat.toDigits_ne_nil
      have last : ∀ k, k % 16 < 16 := fun k => Nat.mod_lt k (by decide)
      simp only [hexDigits_eq m, hexDigits_eq n] at h
      split at h
      · next small =>
          split at h
          · next small' =>
              apply digitChar_inj m small n small'
              simpa using h
          · exact absurd (List.append_eq_singleton_iff.1 h.symm) (by simp [some])
      · next large =>
          split at h
          · exact absurd (List.append_eq_singleton_iff.1 h) (by simp [some])
          · obtain ⟨front, back⟩ := List.append_inj' h rfl
            have quotient := ih (m / 16) (by omega) front
            have remainder := digitChar_inj _ (last m) _ (last n) (by simpa using back)
            omega

/-- A digit is neither a brace nor a line break. -/
theorem notMem_hexDigits {n : Nat} {c : Char} (other : ∀ k < 16, c ≠ Nat.digitChar k) :
    c ∉ hexDigits n := by
  induction n using Nat.strongRecOn with
  | ind n ih =>
      rw [hexDigits_eq]
      split
      · next small => simpa using other n small
      · next large =>
          have last := other (n % 16) (Nat.mod_lt n (by decide))
          have front := ih (n / 16) (by omega)
          simp [front, last]

/-! ### Single characters -/

/-- The characters with a short escape. -/
def escapes : List (Char × Char) :=
  [('"', '"'), ('\\', '\\'), ('\n', 'n'), ('\r', 'r'), ('\t', 't'), ('\x00', '0')]

/-- How a character may be written inside of a literal. -/
inductive Quotes : Char → Text → Prop where
  | plain {c : Char} (mark : c ≠ '"') (slash : c ≠ '\\') (feed : c ≠ '\n') : Quotes c [c]
  | short {c letter : Char} (known : (c, letter) ∈ escapes) : Quotes c ['\\', letter]
  | code {c : Char} : Quotes c (['\\', 'u', '\x7b'] ++ hexDigits c.toNat ++ ['\x7d'])

theorem quotes_quoteChar (c : Char) : Quotes c (quoteChar c) := by
  rw [quoteChar]
  split_ifs with mark slash feed carriage tab zero hidden
  · exact .short (by simp [escapes, mark])
  · exact .short (by simp [escapes, slash])
  · exact .short (by simp [escapes, feed])
  · exact .short (by simp [escapes, carriage])
  · exact .short (by simp [escapes, tab])
  · have null : c = '\x00' := Char.toNat_inj.1 zero
    exact .short (by simp [escapes, null])
  · exact .code
  · exact .plain mark slash feed

theorem escapes_inj :
    ∀ first ∈ escapes, ∀ second ∈ escapes, first.2 = second.2 → first = second := by
  decide

namespace Quotes

variable {c d : Char} {written written' rest rest' : Text}

/-- What is written for a character tells the character, and where it ends. -/
theorem inj (h : Quotes c written) (h' : Quotes d written')
    (same : written ++ rest = written' ++ rest') : c = d ∧ rest = rest' := by
  have letter : ∀ pair ∈ escapes, pair.2 ≠ 'u' := by decide
  cases h with
  | plain mark slash feed =>
      cases h' with
      | plain => simpa using same
      | short => simp [slash] at same
      | code => simp [slash] at same
  | short known =>
      cases h' with
      | plain mark slash => simp [Ne.symm slash] at same
      | short known' =>
          simp only [List.cons_append, List.nil_append, List.cons.injEq, true_and] at same
          have pair := escapes_inj _ known _ known' same.1
          exact ⟨congrArg Prod.fst pair, same.2⟩
      | code =>
          simp only [List.cons_append, List.nil_append, List.cons.injEq, true_and] at same
          exact absurd same.1 (letter _ known)
  | code =>
      cases h' with
      | plain mark slash => simp [Ne.symm slash] at same
      | short known' =>
          simp only [List.cons_append, List.nil_append, List.cons.injEq, true_and] at same
          exact absurd same.1.symm (letter _ known')
      | code =>
          have brace : ∀ n, '\x7d' ∉ hexDigits n := fun n => notMem_hexDigits (by decide)
          simp only [List.cons_append, List.nil_append, List.append_assoc, List.cons.injEq,
            true_and] at same
          obtain ⟨digits, behind⟩ := append_mark_inj (brace _) (brace _) same
          exact ⟨Char.toNat_inj.1 (hexDigits_inj digits), behind⟩

/-- No character is written like the end of a literal. -/
theorem ne_mark (h : Quotes c written) : written ++ rest ≠ '"' :: rest' := by
  intro same
  cases h with
  | plain mark => simp [mark] at same
  | short => simp at same
  | code => simp at same

theorem notMem (h : Quotes c written) : '\n' ∉ written := by
  cases h with
  | plain mark slash feed => simpa using Ne.symm feed
  | short known =>
      have letter : ∀ pair ∈ escapes, pair.2 ≠ '\n' := by decide
      simpa using Ne.symm (letter _ known)
  | code =>
      have digit : '\n' ∉ hexDigits c.toNat := notMem_hexDigits (by decide)
      simp [digit]

end Quotes

/-! ### Literals -/

variable {text other rest rest' : Text}

/-- A literal tells its text, and where it ends. -/
theorem quote_append_inj (same : quote text ++ rest = quote other ++ rest') :
    text = other ∧ rest = rest' := by
  have inner : ∀ text other : Text,
      text.flatMap quoteChar ++ '"' :: rest = other.flatMap quoteChar ++ '"' :: rest' →
      text = other ∧ rest = rest' := by
    intro text
    induction text with
    | nil =>
        intro other same
        cases other with
        | nil => simpa using same
        | cons d others =>
            simp only [List.flatMap_cons, List.append_assoc] at same
            exact absurd same.symm (quotes_quoteChar d).ne_mark
    | cons c text ih =>
        intro other same
        cases other with
        | nil =>
            simp only [List.flatMap_cons, List.append_assoc] at same
            exact absurd same (quotes_quoteChar c).ne_mark
        | cons d others =>
            simp only [List.flatMap_cons, List.append_assoc] at same
            obtain ⟨first, later⟩ := (quotes_quoteChar c).inj (quotes_quoteChar d) same
            obtain ⟨behind, ends⟩ := ih others later
            exact ⟨by rw [first, behind], ends⟩
  apply inner
  simpa [quote] using same

/-- A literal stays on one line. -/
theorem notMem_quote (text : Text) : '\n' ∉ quote text := by
  have inner : '\n' ∉ text.flatMap quoteChar := by
    intro mem
    obtain ⟨c, -, feed⟩ := List.mem_flatMap.1 mem
    exact (quotes_quoteChar c).notMem feed
  simp [quote, inner]

/-! ### Texts in a row -/

/-- No text of a kind is the beginning of another one. -/
def PrefixFree (P : Text → Prop) : Prop :=
  ∀ ⦃text other : Text⦄, P text → P other → ∀ ⦃rest rest' : Text⦄,
    text ++ rest = other ++ rest' → text = other

theorem prefixFree_quote : PrefixFree fun written => ∃ text, written = quote text := by
  rintro _ _ ⟨text, rfl⟩ ⟨other, rfl⟩ rest rest' same
  exact congrArg quote (quote_append_inj same).1

/-- The parts of a list are told from their texts behind one another, with a mark between them. -/
theorem join_inj {P : Text → Prop} (free : PrefixFree P) {mark : Text} (some : mark ≠ [])
    {parts others : List Text} (each : ∀ part ∈ parts, P part ∧ part ≠ [])
    (each' : ∀ part ∈ others, P part ∧ part ≠ []) (same : join mark parts = join mark others) :
    parts = others := by
  have single : ∀ part : Text, join mark [part] = part := by simp [join]
  have many : ∀ (part : Text) (more : List Text), more ≠ [] →
      join mark (part :: more) = part ++ (mark ++ join mark more) := by
    intro part more present
    obtain ⟨next, more, rfl⟩ := List.exists_cons_of_ne_nil present
    simp [join, List.intercalate_cons_cons]
  have first : ∀ (part : Text) (more : List Text), ∃ rest, join mark (part :: more) = part ++ rest ∧
      (rest = [] ↔ more = []) := by
    intro part more
    by_cases present : more = []
    · exact ⟨[], by simp [present, single], by simp [present]⟩
    · exact ⟨mark ++ join mark more, many part more present, by simp [some, present]⟩
  induction parts generalizing others with
  | nil =>
      cases others with
      | nil => rfl
      | cons part more =>
          obtain ⟨rest, whole, -⟩ := first part more
          rw [whole] at same
          exact absurd (List.append_eq_nil_iff.1 same.symm).1 (each' part List.mem_cons_self).2
  | cons part more ih =>
      cases others with
      | nil =>
          obtain ⟨rest, whole, -⟩ := first part more
          rw [whole] at same
          exact absurd (List.append_eq_nil_iff.1 same).1 (each part List.mem_cons_self).2
      | cons part' more' =>
          obtain ⟨rest, whole, ends⟩ := first part more
          obtain ⟨rest', whole', ends'⟩ := first part' more'
          have same' := same
          rw [whole, whole'] at same'
          have here := free (each part List.mem_cons_self).1 (each' part' List.mem_cons_self).1
            same'
          subst here
          have behind : rest = rest' := List.append_cancel_left same'
          by_cases present : more = []
          · have none := ends'.1 (behind ▸ ends.2 present)
            rw [present, none]
          · have present' : more' ≠ [] := fun none => present (ends.1 (behind ▸ ends'.2 none))
            rw [many part more present, many part more' present'] at same
            have later := List.append_cancel_left (List.append_cancel_left same)
            rw [ih (fun part mem => each part (List.mem_cons_of_mem _ mem))
              (fun part mem => each' part (List.mem_cons_of_mem _ mem)) later]

end Text

end JavaUnit
