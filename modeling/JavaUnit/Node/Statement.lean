/-
Module: JavaUnit.Node.Statement
Purpose: Package declarations and import statements.
Main exports: Package, Import, Import.simpleName?, and their renderings
-/
import JavaUnit.Name

namespace JavaUnit

/-- A package declaration. Like every node it can be changed until it is frozen. -/
structure Package where
  name : Text
  editable : Bool := true
deriving DecidableEq, Repr

namespace Package

def render (node : Package) : Text :=
  "package ".toList ++ node.name ++ [';']

def freeze (node : Package) : Package :=
  { node with editable := false }

end Package

/-- An import statement. The name of a wildcard import is that of what its members are
imported from. -/
structure Import where
  name : Text
  isStatic : Bool
  isWildcard : Bool
  editable : Bool := true
deriving DecidableEq, Repr

namespace Import

def render (node : Import) : Text :=
  "import ".toList
    ++ (if node.isStatic then "static ".toList else [])
    ++ node.name
    ++ (if node.isWildcard then ".*".toList else [])
    ++ [';']

/-- The last part of the name of an import that is not a wildcard. -/
def simpleName? (node : Import) : Option Text :=
  if node.isWildcard then none else some (simpleName node.name)

def freeze (node : Import) : Import :=
  { node with editable := false }

end Import

end JavaUnit
