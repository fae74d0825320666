/-
Module: JavaUnit.Document.Yaml
Purpose: Structured data as YAML text in block style. The items of a list stand at the indentation
  of its key, the fields of a record that is an item two spaces deeper.
Main exports: Document.yaml
-/
import JavaUnit.Document
import JavaUnit.Document.Scalar

namespace JavaUnit

namespace Document

/-- The start of a line at some indentation. -/
def yamlLine (indentation : Nat) : Text :=
  '\n' :: List.replicate indentation ' '

mutual

/-- What stands behind a key at some indentation. -/
def yamlValue (indentation : Nat) : Document → Text
  | .null => " null".toList
  | .flag value => if value then " true".toList else " false".toList
  | .number value => ' ' :: Nat.toDigits 10 value
  | .text value => ' ' :: Scalar.write indentation value
  | .list items =>
    if items.isEmpty then " []".toList
    else (yamlItems indentation items).flatMap (yamlLine indentation ++ ·)
  | .record fields =>
    if fields.isEmpty then " \x7b\x7d".toList
    else (yamlFields (indentation + 2) fields).flatMap (yamlLine (indentation + 2) ++ ·)

/-- What stands behind the dash of an item at some indentation. -/
def yamlItem (indentation : Nat) : Document → Text
  | .record fields =>
    ' ' :: Text.join (yamlLine (indentation + 2)) (yamlFields (indentation + 2) fields)
  | .list items =>
    ' ' :: Text.join (yamlLine (indentation + 2)) (yamlItems (indentation + 2) items)
  | .null => " null".toList
  | .flag value => if value then " true".toList else " false".toList
  | .number value => ' ' :: Nat.toDigits 10 value
  | .text value => ' ' :: Scalar.write indentation value

/-- The items of a list, each behind its dash. -/
def yamlItems (indentation : Nat) : List Document → List Text
  | [] => []
  | item :: rest => ('-' :: yamlItem indentation item) :: yamlItems indentation rest

/-- The fields of a record. -/
def yamlFields (indentation : Nat) : List (Text × Document) → List Text
  | [] => []
  | field :: rest => yamlField indentation field :: yamlFields indentation rest

/-- A field: its key and its value. -/
def yamlField (indentation : Nat) : Text × Document → Text
  | (key, value) => key ++ ':' :: yamlValue indentation value

end

/-- The YAML text of a value. -/
def yaml : Document → Text
  | .record fields => Text.unlines (yamlFields 0 fields) ++ ['\n']
  | document => (yamlValue 0 document).drop 1 ++ ['\n']

end Document

end JavaUnit
