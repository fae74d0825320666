/-
Module: JavaUnit.Document
Purpose: Structured data with fields in a fixed order, as it is exchanged with other programs.
Main exports: Document, Document.Entry
-/
import JavaUnit.Text

namespace JavaUnit

/-- A value of structured data. -/
inductive Document where
  | null
  | flag (value : Bool)
  | number (value : Nat)
  | text (value : Text)
  | list (items : List Document)
  | record (fields : List (Text × Document))

namespace Document

/-- A list of texts. -/
def texts (values : List Text) : Document :=
  .list (values.map .text)

/-- A text, or null in its place. -/
def textOrNull (value : Option Text) : Document :=
  match value with
  | some value => .text value
  | none => .null

/-- A field that is left out if there is no text for it. -/
def optional (key : String) (value : Option Text) : List (Text × Document) :=
  value.toList.map fun value => (key.toList, .text value)

/-- A field that is left out if its list is empty. -/
def unlessEmpty (key : String) (items : List Document) : List (Text × Document) :=
  if items.isEmpty then [] else [(key.toList, .list items)]

/-- A field that is always there. -/
def always (key : String) (value : Document) : List (Text × Document) :=
  [(key.toList, value)]

end Document

end JavaUnit
