/-
Module: JavaUnit.Reading.Step
Purpose: The small steps that all readings are made of: looking at the next tokens that matter,
  passing over one of an expected kind, and finishing a construct, which is where the comments that
  were stepped over inside it turn into defects.
Main exports: significantFrom, Reading.peek, Reading.bump, Reading.expect, Reading.finish
-/
import JavaUnit.Reading

namespace JavaUnit

/-- The tokens from the `n`-th one on that is not trivia, counted from zero, or from the end of the
input on if that comes first. -/
def significantFrom : (n : Nat) → List Token → List Token
  | _, [] => []
  | n, token :: rest =>
    if token.isTrivia then significantFrom n rest
    else if token.isEnd then token :: rest
    else
      match n with
      | 0 => token :: rest
      | n + 1 => significantFrom n rest

namespace Reading

/-- Passes over white space. -/
def skipWhitespace : Reading Unit := do
  let _ ← passWhile Token.isWhitespace

/-- Steps over white space and plain comments; the comments are left to be accounted for. -/
def skipTrivia : Reading Unit := do
  let trivia ← passWhile Token.isTrivia
  skip (trivia.filter Token.isPlainComment)

/-- The `n`-th token ahead that is not trivia, counted from zero. -/
def peek (n : Nat) : Reading Token := do
  return currentToken (significantFrom n (← left))

/-- Passes over the next token that is not trivia. -/
def bump : Reading Token := do
  skipTrivia
  advance

/-- Fails because the next token is not what is needed. -/
def unexpected (scope : Scope) (what : Expectation) : Reading α := do
  fail scope [.expected what (← current)]

/-- Whether the next token that is not trivia is of a kind; if so, it is passed over. -/
def accept (kind : Kind) : Reading Bool := do
  skipTrivia
  if (← current).kind = kind then
    let _ ← advance
    return true
  else
    return false

/-- Passes over the next token that is not trivia, which has to be of a kind. -/
def expect (scope : Scope) (kind : Kind) (what : Expectation) : Reading Unit := do
  skipTrivia
  if (← current).kind = kind then
    let _ ← advance
  else
    unexpected scope what

/-- The text of the next token that is not trivia, which has to be an identifier. -/
def identifier (scope : Scope) (what : Expectation) : Reading Text := do
  skipTrivia
  if (← current).kind = .identifier then
    return (← advance).text
  else
    unexpected scope what

/-- What reading the parts of a construct comes to: the defects that were noticed, the texts that
were cut into tokens to build the node, and the node, if its draft could be built. -/
structure Attempt (α : Type) where
  defects : List Defect := []
  examined : List Text := []
  built : Except BuildError α

/-- Finishes a construct. Every comment that was stepped over inside it is a defect, and the
defects of its draft follow, less those that are reported already. -/
def finish (scope : Scope) (parts : Reading (Attempt α)) : Reading α := do
  let (attempt, skipped) ← parts.withSkipped
  note (Event.ofExamined attempt.examined)
  let noticed := attempt.defects
    ++ skipped.map fun comment => .misplacedComment scope.construct comment.text.trim
  match attempt.built with
  | .ok node => if noticed = [] then return node else fail scope noticed
  | .error error => fail scope (mergeAfter noticed error.defects)

/-- The scope of a construct of some kind that begins here. -/
def scopeHere (kind : NodeKind) : Reading Scope := do
  skipWhitespace
  return ⟨.node kind, ← left⟩

end Reading

end JavaUnit
