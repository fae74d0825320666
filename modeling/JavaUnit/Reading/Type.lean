/-
Module: JavaUnit.Reading.Type
Purpose: Reading types and names. A type is kept as the canonical text of its tokens.
Main exports: Reading.angleGroup, Reading.type, Reading.typeList, Reading.arrayDims,
  Reading.qualifiedName
-/
import JavaUnit.Reading.Step
import JavaUnit.Token.Spelling

namespace JavaUnit

namespace Reading

/-- Whether a token never stands between angle brackets. -/
def endsAngleGroup (token : Token) : Bool :=
  token.kind ∈ [.openBrace, .closeBrace, .openParen, .closeParen, .semicolon, .equals, .eof]

/-- Lets tokens pass between angle brackets, `depth` of which are open, up to the one that closes
the outermost. -/
def insideAngles (depth : Nat) (token : Token) : Option Nat :=
  if token.kind = .less then some (depth + 1)
  else if token.kind = .greater then
    if depth = 1 then none else some (depth - 1)
  else if endsAngleGroup token then none
  else some depth

/-- The tokens of a balanced group in angle brackets, brackets included, which begins with the next
token that is not trivia. Plain comments in it are left to be accounted for. -/
def angleGroup (scope : Scope) : Reading (List Token) := do
  let opening ← bump
  let inside ← scan insideAngles 1
  skip (inside.filter Token.isPlainComment)
  let closing ← advance
  if closing.kind = .greater then
    return opening :: inside.filter (!·.isTrivia) ++ [closing]
  else
    fail scope [.unbalancedAngle]

/-- Whether a token may be the first of a type. -/
def startsType (token : Token) : Bool :=
  token.kind = .identifier || token.keyword?.any Keyword.isType

/-- One more part of a type behind those that are read: a name after a dot, type arguments, a pair
of brackets, or the dots of a variable number of arguments, which end the type. -/
def typePart (scope : Scope) (parts : List Token) : Reading (Turn (List Token)) := do
  let next ← peek 0
  let second ← peek 1
  if next.kind = .dot ∧ second.kind = .identifier
      ∨ next.kind = .openBracket ∧ second.kind = .closeBracket then
    let first ← bump
    let second ← bump
    return .again (parts ++ [first, second])
  else if next.kind = .less then
    return .again (parts ++ (← angleGroup scope))
  else if next.kind = .ellipsis then
    return .last (parts ++ [← bump])
  else
    return .last parts

/-- A type. -/
def type (scope : Scope) : Reading Text := do
  skipTrivia
  if startsType (← current) then
    let first ← advance
    return joinTokens (← iterate (typePart scope) [first])
  else
    unexpected scope .type

/-- One or more types with commas between them. -/
def typeList (scope : Scope) : Reading (List Text) := do
  let first ← type scope
  iterate (fun types => do
    if ← accept .comma then
      return .again (types ++ [← type scope])
    else
      return .last types) [first]

/-- Pairs of brackets behind a name. -/
def arrayDims : Reading Text :=
  iterate (fun dims => do
    if (← peek 0).kind = .openBracket ∧ (← peek 1).kind = .closeBracket then
      let _ ← bump
      let _ ← bump
      return .again (dims ++ "[]".toList)
    else
      return .last dims) []

/-- Identifiers with dots between them. -/
def qualifiedName (scope : Scope) (what : Expectation) : Reading Text := do
  let first ← identifier scope what
  iterate (fun name => do
    if (← peek 0).kind = .dot ∧ (← peek 1).kind = .identifier then
      let _ ← bump
      let part ← bump
      return .again (name ++ '.' :: part.text)
    else
      return .last name) first

end Reading

end JavaUnit
