/-
Module: JavaUnit.Name
Purpose: Which texts are names: an identifier is a word that is no keyword, and a qualified name is
  a row of identifiers with dots between them.
Main exports: isIdentifier, isQualifiedName, simpleName
-/
import JavaUnit.Token.Lex

namespace JavaUnit

/-- Whether a text is a single identifier. -/
def isIdentifier : Text → Bool
  | [] => false
  | first :: rest =>
    isWordStart first && rest.all isWordPart && (Keyword.lookup (first :: rest)).isNone

/-- Whether a text is a row of identifiers separated by single dots. -/
def isQualifiedName (name : Text) : Bool :=
  (name.split '.').all isIdentifier

/-- What stands behind the last dot of a name; all of it if there is none. -/
def simpleName (name : Text) : Text :=
  (name.split '.').getLast?.getD name

end JavaUnit
