/-
Module: JavaUnit.Problem
Purpose: Everything that an operation of this library can fail with, and how it is reported to the
  person who has to mend it.
Main exports: Problem, Problem.messages, Diagnostic, Problem.diagnostic, TokenStream.make,
  Entry.parseText, Entry.parseAt
-/
import JavaUnit.CanonicalName
import JavaUnit.Reading.Entry

namespace JavaUnit

/-- Why an operation failed. Faults of source text are told with the name of the text and the
stretch of it that they are about. -/
inductive Problem where
  | unterminated (delimited : Delimited) (span : Span) (sourceName : Text)
  | parse (construct : Construct) (defects : List Defect) (span : Span) (sourceName : Text)
  | build (error : BuildError)
  | frozen (fault : FrozenClass)
  | unreadable (path reason : Text)
deriving DecidableEq, Repr

/-- How messages call a lexeme that is not closed. -/
def Delimited.text : Delimited → Text
  | .comment => "comment".toList
  | .string => "string literal".toList
  | .character => "character literal".toList

namespace Problem

def ofUnterminated (name source : Text) (fault : Unterminated) : Problem :=
  .unterminated fault.delimited (fault.span source) name

def ofFailure (stream : TokenStream) (failure : Failure) : Problem :=
  .parse failure.construct failure.defects (failure.span stream) stream.name

/-- What could not be read, and the lines that tell why. -/
def parseReport (construct : Construct) (lines : List Text) : Text :=
  "Failed to parse ".toList ++ construct.text ++ ":\n".toList ++ Text.unlines lines

/-- The whole report as text. -/
def display : Problem → Text
  | .unterminated delimited _ _ => "Unterminated ".toList ++ delimited.text
  | .parse construct defects _ _ => parseReport construct (defects.map Defect.message)
  | .build error =>
    "Failed to build ".toList ++ error.kind.text ++ ":\n".toList ++ messageText error.defects
  | .frozen fault => fault.message
  | .unreadable path reason => "Could not read ".toList ++ path ++ ": ".toList ++ reason

/-- The defects line by line; a problem of another sort is one line. -/
def messages (problem : Problem) : List Text :=
  match problem with
  | .parse _ defects _ _ => defects.map Defect.message
  | .build error => error.defects.map Defect.message
  | _ => [problem.display]

/-- The name by which a problem can be looked up. -/
def code : Problem → Text
  | .unterminated .comment _ _ => "lexer::unterminated_comment".toList
  | .unterminated .string _ _ => "lexer::unterminated_string".toList
  | .unterminated .character _ _ => "lexer::unterminated_char".toList
  | .parse .. => "parser::invalid_construct".toList
  | .build _ => "builder::invalid_node".toList
  | .frozen _ => "validator::frozen_tree".toList
  | .unreadable .. => "io::read_failed".toList

/-- What to do about a problem. -/
def help? : Problem → Option Text
  | .unterminated .comment _ _ => some "Close the comment with `*/`.".toList
  | .unterminated .string _ _ =>
    some ("String literals must close with `\"` on the same line; ".toList
      ++ "text blocks with `\"\"\"`.".toList)
  | .unterminated .character _ _ =>
    some "Character literals must close with `'` on the same line.".toList
  | .parse .. =>
    some ("Every line above is an independent defect; ".toList
      ++ "fix them all before parsing again.".toList)
  | .build _ =>
    some ("Set every required field and remove conflicting options ".toList
      ++ "before calling build().".toList)
  | .frozen _ =>
    some ("Canonical name resolution writes to annotations; ".toList
      ++ "run it before freezing the class.".toList)
  | .unreadable .. => none

/-- Stretches of source text with what is to be said about them. -/
def labels : Problem → List (Text × Span)
  | .unterminated .comment span _ => [("comment starts here".toList, span)]
  | .unterminated .string span _ => [("string starts here".toList, span)]
  | .unterminated .character span _ => [("character literal starts here".toList, span)]
  | .parse construct _ span _ => [("while parsing this ".toList ++ construct.text, span)]
  | _ => []

/-- The name of the source text that a problem is about. -/
def sourceName? : Problem → Option Text
  | .unterminated _ _ name => some name
  | .parse _ _ _ name => some name
  | _ => none

end Problem

/-- A problem as it is shown. -/
structure Diagnostic where
  display : Text
  messages : List Text
  code : Text
  help : Option Text
  labels : List (Text × Span)
  source : Option Text
deriving DecidableEq, Repr

def Problem.diagnostic (problem : Problem) : Diagnostic where
  display := problem.display
  messages := problem.messages
  code := problem.code
  help := problem.help?
  labels := problem.labels
  source := problem.sourceName?

/-! ### Reading with problems -/

/-- The name of a source text that was not given one. -/
def defaultName : Text := "source.java".toList

/-- Cuts a source text into tokens. -/
def TokenStream.make (name source : Text) : Except Problem TokenStream :=
  (TokenStream.ofSource name source).mapError (.ofUnterminated name source)

namespace Entry

/-- What is read from the token at an index on, and the index of the token after it. -/
def parseAt (entry : Entry α) (stream : TokenStream) (start : Nat) : Except Problem (α × Nat) :=
  match entry.read (stream.startingAt start) with
  | .ok (node, rest) => .ok (node, stream.index rest)
  | .error failure => .error (.ofFailure stream failure)

/-- What all of a source text reads as. -/
def parseText (entry : Entry α) (name source : Text) : Except Problem α :=
  match TokenStream.make name source with
  | .error problem => .error problem
  | .ok stream => (entry.readAll stream.tokens).mapError (.ofFailure stream)

end Entry

end JavaUnit
