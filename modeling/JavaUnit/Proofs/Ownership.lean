/-
Module: JavaUnit.Proofs.Ownership
Purpose: The nodes that a node owns, and those it holds at any depth. A fact about a tree is a fact
  about each node that its root holds, which is told from the nodes that every one of them owns.
  Freezing a tree and writing to its annotations change it node by node and keep its shape.
Main exports: Node.owned, Node.Holds, Node.Throughout, Node.throughout_iff, Node.Frozen,
  Node.Sealed, Node.throughout_map, Node.frozen_freeze, Node.render_freeze
-/
import JavaUnit.Node
import JavaUnit.Proofs.AnnotationSites
import Mathlib.Logic.Relation

namespace JavaUnit

/-! ### Owned nodes -/

/-- The nodes that stand in front of a declaration. -/
def Lead.owned (lead : Lead) : List Node :=
  lead.sectionComment.toList.map .comment ++ lead.javadoc.toList.map .javadoc
    ++ lead.annotations.map .annotationUse

/-- The nodes of a method: those in front of it, and the annotations of its parameters. -/
def Method.owned (node : Method) : List Node :=
  node.toLead.owned ++ (node.parameters.flatMap Parameter.annotations).map .annotationUse

/-- The nodes of a class but its members: those in front of it, and those of its file. -/
def ClassHead.owned (head : ClassHead) : List Node :=
  head.toLead.owned ++ head.headerComments.map .comment
    ++ head.package.toList.map .packageStatement ++ head.imports.map .importStatement
    ++ head.trailingComments.map .comment

def ClassDecl.owned (node : ClassDecl) : List Node :=
  node.toClassHead.owned ++ node.members.map .member

def Member.owned : Member → List Node
  | .field node => node.toLead.owned
  | .method node => node.owned
  | .classDecl head members => ClassDecl.owned ⟨head, members⟩
  | .staticBlock _ | .comment _ => []

namespace Node

/-- The nodes that a node owns directly. -/
def owned : Node → List Node
  | .field node => node.toLead.owned
  | .method node => node.owned
  | .classDecl node => node.owned
  | .member node => node.owned
  | _ => []

def Owns (node part : Node) : Prop :=
  part ∈ node.owned

/-- A node holds itself and what it owns at any depth. -/
def Holds : Node → Node → Prop :=
  Relation.ReflTransGen Owns

/-- Every node of a tree has a property. -/
def Throughout (P : Node → Prop) (node : Node) : Prop :=
  ∀ part, node.Holds part → P part

/-- No node of a tree can be changed. -/
def Frozen : Node → Prop :=
  Throughout fun part => part.editable = false

/-- What cannot be changed in a tree holds nothing that can be. -/
def Sealed : Node → Prop :=
  Throughout fun part => part.editable = false → part.Frozen

variable {P Q : Node → Prop} {node : Node}

/-- The root of a tree has the property, and so have the trees that it owns. -/
theorem throughout_iff :
    node.Throughout P ↔ P node ∧ ∀ part ∈ node.owned, part.Throughout P := by
  constructor
  · intro h
    exact ⟨h node .refl, fun part owns inner holds => h inner (.head owns holds)⟩
  · rintro ⟨root, parts⟩ inner holds
    rcases holds.cases_head with rfl | ⟨part, owns, holds⟩
    · exact root
    · exact parts part owns inner holds

/-- What follows node by node follows for the tree. -/
theorem Throughout.mono (h : node.Throughout P) (imp : ∀ part, P part → Q part) :
    node.Throughout Q :=
  fun part holds => imp part (h part holds)

theorem Throughout.of_holds (h : node.Throughout P) {part : Node} (holds : node.Holds part) :
    part.Throughout P :=
  fun inner inside => h inner (holds.trans inside)

theorem Frozen.sealed (h : node.Frozen) : node.Sealed :=
  fun _ holds _ => h.of_holds holds

/-! ### Changes that keep the shape of a tree -/

/-- A change made to every node of a tree. -/
theorem holds_map {f : Node → Node} (shape : ∀ node, (f node).owned = node.owned.map f)
    {part : Node} : (f node).Holds part ↔ ∃ inner, node.Holds inner ∧ part = f inner := by
  constructor
  · intro holds
    induction holds with
    | refl => exact ⟨node, .refl, rfl⟩
    | tail _ owns ih =>
        obtain ⟨inner, holds, rfl⟩ := ih
        rw [Owns, shape, List.mem_map] at owns
        obtain ⟨next, owns, rfl⟩ := owns
        exact ⟨next, .tail holds owns, rfl⟩
  · rintro ⟨inner, holds, rfl⟩
    induction holds with
    | refl => exact .refl
    | tail _ owns ih => exact .tail ih (by rw [Owns, shape]; exact List.mem_map_of_mem owns)

/-- A fact about a changed tree is one about the tree itself, if the change keeps what nodes own. -/
theorem throughout_map {f : Node → Node} (shape : ∀ node, (f node).owned = node.owned.map f) :
    (f node).Throughout P ↔ node.Throughout fun part => P (f part) := by
  constructor
  · exact fun h part holds => h (f part) ((holds_map shape).2 ⟨part, holds, rfl⟩)
  · intro h part holds
    obtain ⟨inner, inside, rfl⟩ := (holds_map shape).1 holds
    exact h inner inside

end Node

/-! ### Freezing -/

theorem Lead.owned_freeze (lead : Lead) : lead.freeze.owned = lead.owned.map Node.freeze := by
  simp [owned, freeze, Option.toList_map, Node.freeze, Function.comp_def]

theorem Method.owned_freeze (node : Method) : node.freeze.owned = node.owned.map Node.freeze := by
  simp [owned, freeze, Lead.owned_freeze, Parameter.freeze, Node.freeze, List.map_flatMap,
    List.flatMap_map, Function.comp_def]

/-- Freezing a class freezes what it owns, and so on down to the leaves. -/
theorem ClassDecl.owned_freeze (node : ClassDecl) :
    node.freeze.owned = node.owned.map Node.freeze := by
  simp [owned, freeze, ClassHead.owned, ClassHead.freeze, Lead.owned_freeze, Option.toList_map,
    Node.freeze, Function.comp_def]

/-- Freezing reaches every node that is owned. -/
theorem Node.owned_freeze (node : Node) : node.freeze.owned = node.owned.map freeze := by
  cases node with
  | field node => exact Lead.owned_freeze node.toLead
  | method node => exact Method.owned_freeze node
  | classDecl node => exact ClassDecl.owned_freeze node
  | member node =>
      cases node with
      | field node => exact Lead.owned_freeze node.toLead
      | method node => exact Method.owned_freeze node
      | classDecl head members =>
          simp only [freeze, Member.freeze, Member.freezeEach_eq_map]
          exact ClassDecl.owned_freeze ⟨head, members⟩
      | _ => rfl
  | _ => rfl

/-- Nothing that is frozen can be changed any more. -/
theorem Node.editable_freeze (node : Node) : node.freeze.editable = false := by
  cases node with
  | member node => cases node <;> rfl
  | _ => rfl

/-- A tree is frozen as a whole. -/
theorem Node.frozen_freeze (node : Node) : node.freeze.Frozen :=
  (throughout_map owned_freeze).2 fun part _ => part.editable_freeze

theorem Lead.render_freeze (lead : Lead) : lead.freeze.render = lead.render := by
  have comment : lead.freeze.sectionComment.toList.map Comment.render =
      lead.sectionComment.toList.map Comment.render := by
    simp only [freeze, Option.toList_map, List.map_map]
    rfl
  have javadoc : lead.freeze.javadoc.toList.map Javadoc.render =
      lead.javadoc.toList.map Javadoc.render := by
    simp only [freeze, Option.toList_map, List.map_map]
    rfl
  have annotations : lead.freeze.annotations.map Annotation.render =
      lead.annotations.map Annotation.render := by
    simp only [freeze, List.map_map]
    rfl
  rw [render, comment, javadoc, annotations]
  rfl

theorem Parameter.render_freeze (node : Parameter) : node.freeze.render = node.render :=
  render_mapAnnotations (f := Annotation.freeze) (fun _ => rfl) node

theorem Field.render_freeze (node : Field) : node.freeze.render = node.render := by
  simp only [render, freeze, Lead.render_freeze]

theorem Method.render_freeze (node : Method) : node.freeze.render = node.render := by
  have parameters : node.freeze.parameters.map Parameter.render =
      node.parameters.map Parameter.render := by
    simp only [freeze, List.map_map]
    exact List.map_congr_left fun parameter _ => parameter.render_freeze
  have lead : node.freeze.toLead.render = node.toLead.render := node.toLead.render_freeze
  rw [render, parameters, lead]
  rfl

theorem ClassHead.render_freeze (head : ClassHead) (members : List Text) :
    head.freeze.render members = head.render members := by
  have file : head.freeze.renderFileHead = head.renderFileHead := by
    have headers : head.freeze.headerComments.flatMap (·.render ++ ['\n']) =
        head.headerComments.flatMap (·.render ++ ['\n']) := by
      simp only [freeze, List.flatMap_map]
      rfl
    have package : head.freeze.package.map (·.render ++ "\n\n".toList) =
        head.package.map (·.render ++ "\n\n".toList) := by
      simp only [freeze, Option.map_map]
      rfl
    have imports : ∀ nodes : List Import,
        (if nodes.map Import.freeze = [] then []
          else (nodes.map Import.freeze).flatMap (·.render ++ ['\n']) ++ ['\n']) =
        if nodes = [] then [] else nodes.flatMap (·.render ++ ['\n']) ++ ['\n'] := by
      intro nodes
      cases nodes with
      | nil => rfl
      | cons node rest =>
          rw [if_neg (by simp), if_neg (by simp), List.flatMap_map]
          rfl
    rw [renderFileHead, headers, package, renderFileHead, ← imports head.imports]
    rfl
  have declaration : head.freeze.renderDeclaration = head.renderDeclaration := by
    have lead : head.freeze.toLead.render = head.toLead.render := head.toLead.render_freeze
    rw [renderDeclaration, lead]
    rfl
  have trailing : head.freeze.trailingComments.flatMap ('\n' :: ·.render) =
      head.trailingComments.flatMap ('\n' :: ·.render) := by
    simp only [freeze, List.flatMap_map]
    rfl
  rw [render, file, declaration, trailing, render]

mutual

/-- Freezing does not show in the text of a member. -/
theorem Member.render_freeze : ∀ node : Member, node.freeze.render = node.render
  | .field node => node.render_freeze
  | .method node => node.render_freeze
  | .staticBlock _ => rfl
  | .classDecl head members => by
      rw [freeze, render, render, renderEach_freezeEach members, ClassHead.render_freeze]
  | .comment _ => rfl

/-- Frozen members look like the members that they were. -/
theorem Member.renderEach_freezeEach : ∀ list : List Member,
    renderEach (freezeEach list) = renderEach list
  | [] => rfl
  | node :: rest => by
      rw [freezeEach, renderEach, renderEach, render_freeze node, renderEach_freezeEach rest]

end

/-- Freezing does not show in the text of a node. -/
theorem Node.render_freeze (node : Node) : node.freeze.render = node.render := by
  cases node with
  | field node => exact node.render_freeze
  | method node => exact node.render_freeze
  | classDecl node =>
      have whole := Member.render_freeze (.ofClass node)
      simp only [Member.ofClass, Member.freeze, Member.render, Member.renderEach_eq_map,
        Member.freezeEach_eq_map] at whole
      exact whole
  | member node => exact node.render_freeze
  | _ => rfl

/-! ### Writing to annotations -/

/-- A node with every annotation changed, at any depth. -/
def Node.mapAnnotations (f : Annotation → Annotation) : Node → Node
  | .annotationUse node => .annotationUse (f node)
  | .field node => .field { node with annotations := node.annotations.map f }
  | .method node =>
    .method { node with
      annotations := node.annotations.map f
      parameters := node.parameters.map (Parameter.mapAnnotations f) }
  | .classDecl node => .classDecl (node.mapAnnotations f)
  | .member node => .member (node.mapAnnotations f)
  | node => node

theorem Member.mapAnnotationsEach_eq_map (f : Annotation → Annotation) (list : List Member) :
    mapAnnotationsEach f list = list.map (mapAnnotations f) := by
  induction list with
  | nil => rfl
  | cons node rest ih => simp [mapAnnotationsEach, ih]

section

variable (f : Annotation → Annotation)

theorem Lead.owned_mapAnnotations (lead : Lead) :
    Lead.owned { lead with annotations := lead.annotations.map f } =
      lead.owned.map (Node.mapAnnotations f) := by
  simp [owned, Node.mapAnnotations, Function.comp_def]

theorem Method.owned_mapAnnotations (node : Method) :
    Method.owned { node with
      annotations := node.annotations.map f
      parameters := node.parameters.map (Parameter.mapAnnotations f) } =
      node.owned.map (Node.mapAnnotations f) := by
  simp [owned, Lead.owned_mapAnnotations, Parameter.mapAnnotations, Node.mapAnnotations,
    List.map_flatMap, List.flatMap_map, Function.comp_def]

theorem ClassDecl.owned_mapAnnotations (node : ClassDecl) :
    (node.mapAnnotations f).owned = node.owned.map (Node.mapAnnotations f) := by
  simp [owned, mapAnnotations, ClassHead.owned, Lead.owned_mapAnnotations,
    Member.mapAnnotationsEach_eq_map, Node.mapAnnotations, Function.comp_def]

/-- Changing annotations reaches every node that is owned. -/
theorem Node.owned_mapAnnotations (node : Node) :
    (node.mapAnnotations f).owned = node.owned.map (mapAnnotations f) := by
  cases node with
  | field node => exact Lead.owned_mapAnnotations f node.toLead
  | method node => exact Method.owned_mapAnnotations f node
  | classDecl node => exact ClassDecl.owned_mapAnnotations f node
  | member node =>
      cases node with
      | field node => exact Lead.owned_mapAnnotations f node.toLead
      | method node => exact Method.owned_mapAnnotations f node
      | classDecl head members => exact ClassDecl.owned_mapAnnotations f ⟨head, members⟩
      | _ => rfl
  | _ => rfl

end

theorem Node.editable_mapAnnotations {f : Annotation → Annotation}
    (keeps : ∀ node, (f node).editable = node.editable) (node : Node) :
    (node.mapAnnotations f).editable = node.editable := by
  cases node with
  | annotationUse node => exact keeps node
  | member node => cases node <;> rfl
  | _ => rfl

/-- What can be changed in a tree can be told without its canonical names. -/
theorem Node.throughout_unnamed {P : Bool → Prop} {node : Node} :
    (node.mapAnnotations Annotation.unnamed).Throughout (fun part => P part.editable) ↔
      node.Throughout fun part => P part.editable := by
  have same : ∀ part : Node, (part.mapAnnotations Annotation.unnamed).editable = part.editable :=
    editable_mapAnnotations fun _ => rfl
  rw [throughout_map (owned_mapAnnotations _)]
  simp only [same]

/-- Taking the names of its annotations away does not open a node. -/
theorem Node.sealed_unnamed {node : Node} :
    (node.mapAnnotations Annotation.unnamed).Sealed ↔ node.Sealed := by
  have same : ∀ part : Node, (part.mapAnnotations Annotation.unnamed).editable = part.editable :=
    editable_mapAnnotations fun _ => rfl
  have frozen : ∀ part : Node,
      (part.mapAnnotations Annotation.unnamed).Frozen ↔ part.Frozen :=
    fun part => throughout_unnamed (P := (· = false))
  rw [Sealed, throughout_map (owned_mapAnnotations _)]
  simp only [same, frozen]

/-- A pass that finds canonical names changes nothing else of a tree. -/
theorem Node.mapAnnotations_resolve (imports : List Import) {node : ClassDecl}
    (editable : node.editable = true) :
    (Node.classDecl (node.resolve imports).node).mapAnnotations Annotation.unnamed =
      (Node.classDecl node).mapAnnotations Annotation.unnamed :=
  congrArg Node.classDecl (ClassDecl.unnamed_resolve imports node editable)

end JavaUnit
