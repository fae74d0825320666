/-
Module: JavaUnit.Document.Json
Purpose: Structured data as JSON text. Each item of a list and each field of a record has a line of
  its own, two spaces deeper than the brackets around it; empty ones are a pair of brackets.
Main exports: Document.json, Json.quote
-/
import JavaUnit.Document

namespace JavaUnit

namespace Json

/-- The digits of a code point in hexadecimal, four at least. -/
def fourDigits (n : Nat) : Text :=
  let digits := Nat.toDigits 16 n
  List.replicate (4 - digits.length) '0' ++ digits

/-- One character of a string. Characters other than quotation marks, backslashes and control
characters stand for themselves. -/
def quoteChar (c : Char) : Text :=
  if c = '"' then ['\\', '"']
  else if c = '\\' then ['\\', '\\']
  else if c = '\n' then ['\\', 'n']
  else if c = '\r' then ['\\', 'r']
  else if c = '\t' then ['\\', 't']
  else if c = '\x08' then ['\\', 'b']
  else if c = '\x0c' then ['\\', 'f']
  else if c.toNat < 0x20 then ['\\', 'u'] ++ fourDigits c.toNat
  else [c]

/-- A text as a string. -/
def quote (text : Text) : Text :=
  '"' :: text.flatMap quoteChar ++ ['"']

/-- The start of a line at some depth. -/
def newLine (depth : Nat) : Text :=
  '\n' :: List.replicate (2 * depth) ' '

/-- Parts between brackets, one to a line. -/
def bracketed (opening closing : Char) (depth : Nat) (parts : List Text) : Text :=
  if parts = [] then [opening, closing]
  else
    opening :: Text.join [','] (parts.map (newLine (depth + 1) ++ ·))
      ++ newLine depth ++ [closing]

end Json

namespace Document

mutual

/-- The text of a value whose first line starts at some depth. -/
def jsonAt (depth : Nat) : Document → Text
  | .null => "null".toList
  | .flag value => if value then "true".toList else "false".toList
  | .number value => Nat.toDigits 10 value
  | .text value => Json.quote value
  | .list items => Json.bracketed '[' ']' depth (jsonItems (depth + 1) items)
  | .record fields => Json.bracketed '{' '}' depth (jsonFields (depth + 1) fields)

/-- The texts of the items of a list. -/
def jsonItems (depth : Nat) : List Document → List Text
  | [] => []
  | item :: rest => jsonAt depth item :: jsonItems depth rest

/-- The texts of the fields of a record. -/
def jsonFields (depth : Nat) : List (Text × Document) → List Text
  | [] => []
  | field :: rest => jsonField depth field :: jsonFields depth rest

/-- The text of a field. -/
def jsonField (depth : Nat) : Text × Document → Text
  | (key, value) => Json.quote key ++ ": ".toList ++ jsonAt depth value

end

/-- The JSON text of a value. -/
def json (document : Document) : Text :=
  document.jsonAt 0

end Document

end JavaUnit
