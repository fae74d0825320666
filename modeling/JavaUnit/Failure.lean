/-
Module: JavaUnit.Failure
Purpose: Why and where reading failed. Places are the tokens that are left there.
Main exports: Failure, Scope
-/
import JavaUnit.Defect
import JavaUnit.Token.Stream

namespace JavaUnit

/-- The construct that is being read and the tokens that were left where it began. Failures inside
it are reported from there on. -/
structure Scope where
  construct : Construct
  start : List Token
deriving DecidableEq, Repr

/-- What was wrong with a construct, and the tokens that were left where that was noticed. -/
structure Failure extends Scope where
  defects : List Defect
  stop : List Token
deriving DecidableEq, Repr

namespace Failure

/-- The stretch of source text that a failure is about. -/
def span (failure : Failure) (stream : TokenStream) : Span :=
  stream.span failure.start failure.stop

/-- The line and column where the construct began. -/
def lineColumn (failure : Failure) (stream : TokenStream) : Nat × Nat :=
  stream.source.lineColumn (stream.offset failure.start)

/-- The failure with defects that were found earlier reported ahead of its own. -/
def mergedAfter (failure : Failure) (leading : List Defect) : Failure :=
  { failure with defects := mergeAfter leading failure.defects }

end Failure

end JavaUnit
