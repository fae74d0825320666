/-
Module: JavaUnit.CanonicalName
Purpose: Finding the canonical names of the annotations of a class among the imports of its file.
  A qualified name is its own canonical name. A simple name is that of the first import of a single
  name, not a static one, that ends in it. Any other name stays without a canonical name.
Main exports: canonicalName?, Report, FrozenClass, ClassDecl.resolve, ClassDecl.resolveOwn
-/
import JavaUnit.Journal
import JavaUnit.Node.Edit

namespace JavaUnit

/-- The canonical name of an annotation that is written with a given name. -/
def canonicalName? (imports : List Import) (written : Text) : Option Text :=
  if '.' ∈ written then some written
  else
    (imports.find? fun node => !node.isStatic && node.simpleName? = some written).map (·.name)

/-- What a pass over a class has done: how many annotations got a canonical name, and the written
names of those that stay without, in the order of visiting. -/
structure Report where
  resolved : Nat := 0
  unresolved : List Text := []
deriving DecidableEq, Repr

/-- Whether every annotation has a canonical name. -/
def Report.isComplete (report : Report) : Bool :=
  report.unresolved.isEmpty

/-- Why a pass stopped: a class is frozen, or holds a frozen annotation that it should write to. -/
structure FrozenClass where
  name : Text
deriving DecidableEq, Repr

def FrozenClass.message (fault : FrozenClass) : Text :=
  "Cannot resolve canonical names on frozen class `".toList ++ fault.name ++ ['`']

/-- How far a pass has come. Once it is stopped nothing more is visited. -/
structure Pass where
  report : Report := {}
  stopped : Option FrozenClass := none
  journal : List Event := []
deriving DecidableEq, Repr

namespace Pass

def note (pass : Pass) (event : Event) : Pass :=
  { pass with journal := pass.journal ++ [event] }

/-- One more annotation got its name. -/
def countResolved (pass : Pass) : Pass :=
  { pass with report := { pass.report with resolved := pass.report.resolved + 1 } }

/-- One more annotation stays without a name. -/
def addUnresolved (pass : Pass) (written className : Text) : Pass :=
  let pass := pass.note (.unresolved written className)
  { pass with report := { pass.report with unresolved := pass.report.unresolved ++ [written] } }

/-- A pass over a tree answers with the tree as it is afterwards. -/
abbrev Visit (α : Type) := Pass → α × Pass

/-- Visits one annotation of a class, unless it has its canonical name already. -/
def annotationUse (imports : List Import) (className : Text) (node : Annotation) :
    Visit Annotation := fun pass =>
  if pass.stopped.isSome || node.isResolved then (node, pass)
  else
    match canonicalName? imports node.name with
    | none => (node, pass.addUnresolved node.name className)
    | some name =>
      match node.setCanonicalName name with
      | .ok node => (node, pass.countResolved)
      | .error _ => (node, { pass with stopped := some ⟨className⟩ })

/-- Visits the annotations of a class in order. -/
def annotations (imports : List Import) (className : Text) :
    List Annotation → Visit (List Annotation)
  | [], pass => ([], pass)
  | node :: rest, pass =>
    let (node, pass) := annotationUse imports className node pass
    let (rest, pass) := annotations imports className rest pass
    (node :: rest, pass)

/-- Visits the annotations of parameters in order. -/
def parameters (imports : List Import) (className : Text) :
    List Parameter → Visit (List Parameter)
  | [], pass => ([], pass)
  | parameter :: rest, pass =>
    let (nodes, pass) := annotations imports className parameter.annotations pass
    let (rest, pass) := parameters imports className rest pass
    ({ parameter with annotations := nodes } :: rest, pass)

def field (imports : List Import) (className : Text) (node : Field) : Visit Field := fun pass =>
  let (nodes, pass) := annotations imports className node.annotations pass
  ({ node with annotations := nodes }, pass)

/-- The annotations of a method come before those of its parameters. -/
def method (imports : List Import) (className : Text) (node : Method) : Visit Method := fun pass =>
  let (nodes, pass) := annotations imports className node.annotations pass
  let (parameters, pass) := parameters imports className node.parameters pass
  ({ node with annotations := nodes, parameters }, pass)

/-- Visits the annotations of a class itself. -/
def head (imports : List Import) (node : ClassHead) : Visit ClassHead := fun pass =>
  let pass := if pass.stopped.isSome then pass else pass.note (.resolving node.name)
  let (nodes, pass) := annotations imports node.name node.annotations pass
  ({ node with annotations := nodes }, pass)

mutual

/-- Visits a member of a class; a class among the members is visited under its own name. -/
def member (imports : List Import) (className : Text) : Member → Visit Member
  | .field node, pass =>
    let (node, pass) := field imports className node pass
    (.field node, pass)
  | .method node, pass =>
    let (node, pass) := method imports className node pass
    (.method node, pass)
  | .classDecl node list, pass =>
    let (node, pass) := head imports node pass
    let (list, pass) := members imports node.name list pass
    (.classDecl node list, pass)
  | .staticBlock node, pass => (.staticBlock node, pass)
  | .comment node, pass => (.comment node, pass)

/-- Visits the members of a class in order. -/
def members (imports : List Import) (className : Text) : List Member → Visit (List Member)
  | [], pass => ([], pass)
  | node :: rest, pass =>
    let (node, pass) := member imports className node pass
    let (rest, pass) := members imports className rest pass
    (node :: rest, pass)

end

end Pass

/-- A class after a pass, what the pass came to, and its journal. What was written before a pass
stopped stays. -/
structure Resolution where
  node : ClassDecl
  outcome : Except FrozenClass Report
  journal : List Event

namespace ClassDecl

/-- Gives the annotations of a class and of all that is in it their canonical names. -/
def resolve (node : ClassDecl) (imports : List Import) : Resolution :=
  if node.editable then
    let (head, pass) := Pass.head imports node.toClassHead {}
    let (members, pass) := Pass.members imports head.name node.members pass
    let node := ⟨head, members⟩
    match pass.stopped with
    | some fault => { node, outcome := .error fault, journal := pass.journal }
    | none =>
      let report := pass.report
      { node
        outcome := .ok report
        journal := pass.journal
          ++ [.resolved node.name report.resolved report.unresolved.length] }
  else { node, outcome := .error ⟨node.name⟩, journal := [] }

/-- The same with the imports of the class's own file. -/
def resolveOwn (node : ClassDecl) : Resolution :=
  node.resolve node.imports

end ClassDecl

end JavaUnit
