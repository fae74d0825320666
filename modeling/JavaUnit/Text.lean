/-
Module: JavaUnit.Text
Purpose: Source text as a list of characters, with the few operations that reading and rendering
  share: trimming, splitting into lines, joining, indentation, byte offsets and positions.
Main exports: Text, Text.trim, Text.split, Text.join, Text.lines, Text.indent, Text.bytes,
  Text.lineColumn
-/
import JavaUnit.Text.Blank

namespace JavaUnit

/-- Source text. A list rather than a packed string, so that definitions recurse on it. -/
abbrev Text := List Char

namespace Text

/-! ### Trimming -/

/-- `text` without its leading white space. -/
def trimStart (text : Text) : Text :=
  text.dropWhile isBlank

/-- `text` without its trailing white space. -/
def trimEnd (text : Text) : Text :=
  (text.reverse.dropWhile isBlank).reverse

/-- `text` without the white space at either end. -/
def trim (text : Text) : Text :=
  text.trimStart.trimEnd

/-- Whether `text` holds nothing but white space. -/
def isBlank (text : Text) : Bool :=
  text.all JavaUnit.isBlank

/-- What follows `lead` in a text that begins with it. -/
def afterLead? : (lead text : Text) → Option Text
  | [], text => some text
  | _ :: _, [] => none
  | c :: lead, d :: text => if c = d then afterLead? lead text else none

/-- What stands before `tail` in a text that ends with it. -/
def beforeTail? (tail text : Text) : Option Text :=
  (afterLead? tail.reverse text.reverse).map List.reverse

/-- The part of `text` before its first white space character, and the part after that one
character; without white space, all of `text` and nothing. -/
def splitAtBlank (text : Text) : Text × Text :=
  (text.takeWhile (!JavaUnit.isBlank ·), (text.dropWhile (!JavaUnit.isBlank ·)).drop 1)

/-! ### Lines -/

/-- The parts of `text` between occurrences of `mark`; there is one more part than marks. -/
def split (mark : Char) : Text → List Text
  | [] => [[]]
  | c :: rest =>
    if c = mark then [] :: split mark rest
    else
      match split mark rest with
      | [] => [[c]]
      | first :: others => (c :: first) :: others

/-- The texts of `parts` with `mark` between each two neighbours. -/
def join (mark : Text) (parts : List Text) : Text :=
  mark.intercalate parts

/-- The texts of `parts` as lines of one text; the last line is not ended by a line feed. -/
def unlines (parts : List Text) : Text :=
  join ['\n'] parts

/-- A line without the carriage return that stood before its line feed. -/
def stripReturn (line : Text) : Text :=
  (beforeTail? ['\r'] line).getD line

/-- The lines of `text`. A line feed, with a carriage return in front of it or not, ends a line;
the end of the text ends one only if something stands there. -/
def lines (text : Text) : List Text :=
  let parts := text.split '\n'
  parts.dropLast.map stripReturn ++ (parts.getLast?.filter (· ≠ [])).toList

/-- One level of indentation. -/
def tab : Text := "    ".toList

/-- `text` with one more level of indentation on every line that is not empty. -/
def indent (text : Text) : Text :=
  unlines (text.lines.map fun line => if line = [] then [] else tab ++ line)

/-- An empty text has one line, which is empty. -/
theorem split_ne_nil (mark : Char) (text : Text) : split mark text ≠ [] := by
  cases text with
  | nil => simp [split]
  | cons c rest =>
    rw [split]
    split
    · simp
    · split <;> simp

/-- Splitting loses nothing: the parts, joined by the mark, are the text. -/
theorem join_split (mark : Char) (text : Text) : join [mark] (split mark text) = text := by
  induction text with
  | nil => rfl
  | cons c rest ih =>
    rw [split]
    split
    · next h =>
      subst h
      cases hs : split c rest with
      | nil => exact absurd hs (split_ne_nil c rest)
      | cons first others =>
        rw [hs] at ih
        simpa [join, List.intercalate_cons_cons] using ih
    · cases hs : split mark rest with
      | nil => exact absurd hs (split_ne_nil mark rest)
      | cons first others =>
        rw [hs] at ih
        cases others with
        | nil => simpa [join] using ih
        | cons second more => simpa [join, List.intercalate_cons_cons] using ih

/-! ### Positions -/

/-- The length of `text` in UTF-8 bytes. -/
def bytes : Text → Nat
  | [] => 0
  | c :: rest => c.utf8Size + bytes rest

@[simp] theorem bytes_nil : bytes [] = 0 := rfl

@[simp] theorem bytes_cons (c : Char) (text : Text) :
    bytes (c :: text) = c.utf8Size + bytes text := rfl

@[simp] theorem bytes_append (left right : Text) :
    bytes (left ++ right) = bytes left + bytes right := by
  induction left with
  | nil => simp
  | cons c rest ih =>
    rw [List.cons_append, bytes_cons, bytes_cons, ih]
    omega

/-- Line and column after stepping over the characters that start in the first `remaining`
bytes, from a given line and column. -/
def lineColumnFrom (line column : Nat) : (remaining : Nat) → Text → Nat × Nat
  | _, [] => (line, column)
  | 0, _ :: _ => (line, column)
  | remaining + 1, c :: rest =>
    let left := remaining + 1 - c.utf8Size
    if c = '\n' then lineColumnFrom (line + 1) 1 left rest
    else lineColumnFrom line (column + 1) left rest

/-- The line and column, both counted from one, of the byte at `position`. Columns count
characters. A position past the end is at the end. -/
def lineColumn (text : Text) (position : Nat) : Nat × Nat :=
  lineColumnFrom 1 1 position text

end Text

end JavaUnit
