/-
Module: JavaUnit.Document.Scalar
Purpose: How a text is written in YAML. A text stands for itself unless it would read as something
  else; then it is put between single quotation marks, or between double ones if it holds
  characters that do not print. A text of several lines is a block of its own.
Main exports: Scalar.readsOtherwise, Scalar.isPlain, Scalar.write
-/
import JavaUnit.Text

namespace JavaUnit

namespace Scalar

/-! ### Texts that read as something else -/

/-- The spellings of null and of the truth values. -/
def words : List Text :=
  ["null", "Null", "NULL", "~", "true", "True", "TRUE", "false", "False", "FALSE"].map
    String.toList

/-- The value of a digit in some base up to sixteen. -/
def digitValue? (base : Nat) (c : Char) : Option Nat :=
  let value :=
    if c.isDigit then some (c.toNat - '0'.toNat)
    else if 'a' ≤ c ∧ c ≤ 'f' then some (c.toNat - 'a'.toNat + 10)
    else if 'A' ≤ c ∧ c ≤ 'F' then some (c.toNat - 'A'.toNat + 10)
    else none
  value.filter (· < base)

/-- The value of a row of digits; none of an empty one. -/
def digitsValue? (base : Nat) (digits : Text) : Option Nat :=
  if digits = [] then none
  else digits.foldlM (fun value c => (digitValue? base c).map (value * base + ·)) 0

/-- A text without a sign in front, and whether the sign was a minus. -/
def splitSign : Text → Bool × Text
  | '-' :: rest => (true, rest)
  | '+' :: rest => (false, rest)
  | text => (false, text)

/-- Whether an integer fits 128 bits, with a sign or without. -/
def fits (isNegative : Bool) (value : Nat) : Bool :=
  if isNegative then value ≤ Nat.pow 2 127 else value < Nat.pow 2 128

/-- Whether a text is an integer in the base that its first two characters name. -/
def isBasedInteger (text : Text) : Bool :=
  let (isNegative, rest) := splitSign text
  let value :=
    match rest with
    | '0' :: 'x' :: digits => digitsValue? 16 digits
    | '0' :: 'o' :: digits => digitsValue? 8 digits
    | '0' :: 'b' :: digits => digitsValue? 2 digits
    | _ => none
  value.any (fits isNegative)

/-- Whether a text is a decimal integer. A row of digits behind a zero is none, but is taken for
one. -/
def isDecimalInteger (text : Text) : Bool :=
  let (isNegative, digits) := splitSign text
  digits.all Char.isDigit
    && ((digitsValue? 10 digits).any (fits isNegative)
      || 1 < digits.length && digits.head? = some '0')

/-- A decimal number: the value of its digits without the point, and the exponent of ten. -/
structure Decimal where
  digits : Text
  exponent : Int
deriving DecidableEq, Repr

/-- The exponent behind a number: nothing, or a letter, a sign or none, and digits. -/
def exponent? : Text → Option Int
  | [] => some 0
  | c :: rest =>
    if c = 'e' ∨ c = 'E' then
      let (isNegative, digits) := splitSign rest
      if digits.all Char.isDigit then
        (digitsValue? 10 digits).map fun value => if isNegative then -(value : Int) else value
      else none
    else none

/-- The number that a text without a sign spells: digits with a point somewhere or without one, and
an exponent or none. -/
def decimal? (text : Text) : Option Decimal :=
  let whole := text.takeWhile Char.isDigit
  let rest := text.dropWhile Char.isDigit
  let (fraction, rest) :=
    match rest with
    | '.' :: rest => (rest.takeWhile Char.isDigit, rest.dropWhile Char.isDigit)
    | _ => ([], rest)
  if whole = [] ∧ fraction = [] then none
  else (exponent? rest).map fun exponent => ⟨whole ++ fraction, exponent - fraction.length⟩

/-- Whether a number is nearer to a finite double precision number than to the power of two that
would follow the largest one. Numbers far off that bound are told by their length alone. -/
def Decimal.isFinite (number : Decimal) : Bool :=
  let digits := number.digits.dropWhile (· = '0')
  let length := (digits.length : Int) + number.exponent
  let bound := Nat.pow 2 1024 - Nat.pow 2 970
  let value := (digitsValue? 10 digits).getD 0
  if digits = [] ∨ length < 300 then true
  else if 320 < length then false
  else if 0 ≤ number.exponent then value * Nat.pow 10 number.exponent.toNat < bound
  else value < bound * Nat.pow 10 (-number.exponent).toNat

/-- Whether a text spells infinity or no number at all. -/
def isSpecialFloat (text : Text) : Bool :=
  (splitSign text).2 ∈ [".inf", ".Inf", ".INF"].map String.toList
    || text ∈ [".nan", ".NaN", ".NAN"].map String.toList

/-- Whether a text spells a finite number. -/
def isFloat (text : Text) : Bool :=
  (decimal? (splitSign text).2).any Decimal.isFinite

/-- Whether a text on its own would not read as the text it is. -/
def readsOtherwise (text : Text) : Bool :=
  text = [] || text ∈ words || isBasedInteger text || isDecimalInteger text
    || isSpecialFloat text || isFloat text

/-! ### Texts with marks of their own -/

/-- Whether nothing but white space of a line, or its end, comes next. -/
def endsWord : Text → Bool
  | [] => true
  | c :: _ => c = ' ' || c = '\t'

/-- The characters that mean something at the start of a value. -/
def openingMarks : List Char :=
  ['#', ',', '[', ']', '{', '}', '&', '*', '!', '|', '>', '\'', '"', '%', '@', '`']

/-- Whether a text starts like something other than a plain value. -/
def opensOtherwise (text : Text) : Bool :=
  match text with
  | [] => true
  | c :: rest =>
    c ∈ openingMarks
      || (c = '-' || c = '?' || c = ':') && endsWord rest
      || ("---".toList.isPrefixOf text || "...".toList.isPrefixOf text)

/-- Whether a key or a comment would end or start somewhere in a text. -/
def holdsMark : Text → Bool
  | [] => false
  | ':' :: rest => endsWord rest || holdsMark rest
  | c :: rest => ((c = ' ' || c = '\t') && rest.head? = some '#') || holdsMark rest

/-- Whether a text may stand without quotation marks. -/
def isPlain (text : Text) : Bool :=
  !opensOtherwise text && !holdsMark text
    && text.head? ≠ some ' ' && text.getLast? ≠ some ' '

/-! ### Writing -/

/-- Whether a character can be seen, or is a line break. -/
def isPrintable (c : Char) : Bool :=
  c = '\n' || (0x20 ≤ c.toNat && c.toNat ≤ 0x7E)
    || (0xA0 ≤ c.toNat && c.toNat ∉ [0xFEFF, 0xFFFE, 0xFFFF])

/-- A text with each single quotation mark doubled, between two of them. -/
def singleQuoted (text : Text) : Text :=
  '\'' :: text.flatMap (fun c => if c = '\'' then ['\'', '\''] else [c]) ++ ['\'']

/-- The digits of a code point in hexadecimal capital letters, filled up to some width. -/
def paddedHex (width n : Nat) : Text :=
  let digits := (Nat.toDigits 16 n).map Char.toUpper
  List.replicate (width - digits.length) '0' ++ digits

/-- One character between double quotation marks. -/
def escapeChar (c : Char) : Text :=
  if c = '"' then ['\\', '"']
  else if c = '\\' then ['\\', '\\']
  else if isPrintable c && c ≠ '\n' then [c]
  else
    match c.toNat with
    | 0x00 => ['\\', '0']
    | 0x07 => ['\\', 'a']
    | 0x08 => ['\\', 'b']
    | 0x09 => ['\\', 't']
    | 0x0A => ['\\', 'n']
    | 0x0B => ['\\', 'v']
    | 0x0C => ['\\', 'f']
    | 0x0D => ['\\', 'r']
    | 0x1B => ['\\', 'e']
    | n =>
      if n ≤ 0xFF then '\\' :: 'x' :: paddedHex 2 n
      else if n ≤ 0xFFFF then '\\' :: 'u' :: paddedHex 4 n
      else '\\' :: 'U' :: paddedHex 8 n

/-- A text between double quotation marks, with escapes. -/
def doubleQuoted (text : Text) : Text :=
  '"' :: text.flatMap escapeChar ++ ['"']

/-- A text as lines of its own, two spaces deeper than a given indentation; empty lines stay
empty. A space at the very start has to be told from indentation. -/
def literal (indentation : Nat) (text : Text) : Text :=
  (if text.head? = some ' ' then "|2-".toList else "|-".toList)
    ++ (text.split '\n').flatMap fun line =>
      '\n' :: if line = [] then [] else List.replicate (indentation + 2) ' ' ++ line

/-- Whether some line of a text ends in a space. -/
def hasTrailingSpace (text : Text) : Bool :=
  (text.split '\n').any fun line => line.getLast? = some ' '

/-- A text as the value of a key at some indentation. -/
def write (indentation : Nat) (text : Text) : Text :=
  if !text.all isPrintable then doubleQuoted text
  else if '\n' ∈ text then
    if hasTrailingSpace text then doubleQuoted text else literal indentation text
  else if readsOtherwise text || !isPlain text then singleQuoted text
  else text

end Scalar

end JavaUnit
