/-
Module: JavaUnit.Proofs.FileItems
Purpose: The order of the items of a file. Whether an item is out of order is said of the items that
  stand before it, without any state; the state that a file is read with follows these items, and
  what it reports is what is out of order. Nothing is, exactly if the items are a package
  declaration or none, imports, and one class.
Main exports: FileItem, FileItem.violations, FileItem.inOrder, FileState.allDefects_foldl,
  FileItem.violations_eq_nil_iff
-/
import JavaUnit.Reading.Unit

namespace JavaUnit

/-- An item of a file. -/
inductive FileItem where
  | packageStatement (node : Package)
  | importStatement (node : Import)
  | declaration (node : Declaration)

namespace FileItem

def isPackage : FileItem → Bool
  | .packageStatement _ => true
  | _ => false

def isImport : FileItem → Bool
  | .importStatement _ => true
  | _ => false

def isClass : FileItem → Bool
  | .declaration (.classDecl _) => true
  | _ => false

/-- A field or a method has no place in a file. -/
def isStray : FileItem → Bool
  | .declaration (.field _) | .declaration (.method _) => true
  | _ => false

/-- Whether one of some items is the package declaration of the file: only the first of them can be,
fields and methods apart. -/
def keepsPackage (before : List FileItem) : Bool :=
  (before.find? (!·.isStray)).any isPackage

/-- What is out of order about an item behind others. -/
def violation? (before : List FileItem) : FileItem → Option Defect
  | .packageStatement _ =>
    if before.any isClass then some .packageAfterClass
    else if keepsPackage before then some .secondPackage
    else if before.any isImport then some .packageAfterImport
    else none
  | .importStatement _ => if before.any isClass then some .importAfterClass else none
  | .declaration (.classDecl _) => if before.any isClass then some .secondClass else none
  | .declaration node => some (.outsideClass node.kind)

/-- What is out of order in a file that goes on with some items and then ends. -/
def violations (before : List FileItem) : List FileItem → List Defect
  | [] => if before.any isClass then [] else [.missingClass]
  | item :: rest => (violation? before item).toList ++ violations (before ++ [item]) rest

/-- A package declaration or none, imports, and a class. -/
def inOrder (package : Option Package) (imports : List Import) (outer : ClassDecl) :
    List FileItem :=
  package.toList.map .packageStatement ++ imports.map .importStatement
    ++ [.declaration (.classDecl outer)]

/-! ### Items in order -/

variable {before items : List FileItem}

/-- Behind a class nothing is in order. -/
theorem eq_nil_of_violations (class_ : before.any isClass = true)
    (h : violations before items = []) : items = [] := by
  cases items with
  | nil => rfl
  | cons item rest =>
      rw [violations, List.append_eq_nil_iff] at h
      cases item with
      | packageStatement => simp [violation?, class_] at h
      | importStatement => simp [violation?, class_] at h
      | declaration node => cases node <;> simp [violation?, class_] at h

theorem any_isClass_append (item : FileItem) :
    (before ++ [item]).any isClass = (before.any isClass || item.isClass) := by
  simp

/-- Where a package declaration has no place any more, imports and a class may follow. -/
theorem exists_imports_of_violations (classless : before.any isClass = false)
    (late : keepsPackage before = true ∨ before.any isImport = true)
    (h : violations before items = []) :
    ∃ imports outer, items = inOrder none imports outer := by
  induction items generalizing before with
  | nil => simp [violations, classless] at h
  | cons item rest ih =>
      rw [violations, List.append_eq_nil_iff] at h
      obtain ⟨here, later⟩ := h
      cases item with
      | packageStatement node =>
          rcases late with kept | imported
          · simp [violation?, classless, kept] at here
          · cases kept : keepsPackage before <;>
              simp [violation?, classless, imported, kept] at here
      | importStatement node =>
          obtain ⟨imports, outer, rfl⟩ := ih (by simp [classless, isClass])
            (.inr (by simp [isImport])) later
          exact ⟨node :: imports, outer, rfl⟩
      | declaration node =>
          cases node with
          | classDecl outer =>
              rw [eq_nil_of_violations (by simp [isClass]) later]
              exact ⟨[], outer, rfl⟩
          | field => cases here
          | method => cases here

theorem violations_imports (classless : before.any isClass = false) (imports : List Import)
    (outer : ClassDecl) : violations before (inOrder none imports outer) = [] := by
  induction imports generalizing before with
  | nil => simp [inOrder, violations, violation?, classless, isClass]
  | cons node rest ih =>
      have later := @ih (before ++ [.importStatement node]) (by simp [classless, isClass])
      simpa [inOrder, violations, violation?, classless] using later

/-- Nothing is out of order exactly if the items are a package declaration or none, imports, and one
class. -/
theorem violations_eq_nil_iff :
    violations [] items = [] ↔ ∃ package imports outer, items = inOrder package imports outer := by
  constructor
  · intro h
    cases items with
    | nil => cases h
    | cons item rest =>
        rw [violations, List.append_eq_nil_iff] at h
        obtain ⟨here, later⟩ := h
        cases item with
        | packageStatement node =>
            obtain ⟨imports, outer, rfl⟩ := exists_imports_of_violations rfl (.inl rfl) later
            exact ⟨some node, imports, outer, rfl⟩
        | importStatement node =>
            obtain ⟨imports, outer, rfl⟩ := exists_imports_of_violations rfl (.inr rfl) later
            exact ⟨none, node :: imports, outer, rfl⟩
        | declaration node =>
            cases node with
            | classDecl outer =>
                rw [eq_nil_of_violations rfl later]
                exact ⟨none, [], outer, rfl⟩
            | field => cases here
            | method => cases here
  · rintro ⟨package, imports, outer, rfl⟩
    cases package with
    | none => exact violations_imports rfl imports outer
    | some node => exact @violations_imports [.packageStatement node] rfl imports outer

/-- Behind items none of which matters, the next package declaration is the one of the file. -/
theorem keepsPackage_append (item : FileItem) :
    keepsPackage (before ++ [item]) =
      (keepsPackage before || ((before.find? (!·.isStray)).isNone && item.isPackage)) := by
  rw [keepsPackage, keepsPackage, List.find?_append]
  cases before.find? (!·.isStray) with
  | some first => simp
  | none =>
      cases item with
      | declaration node => cases node <;> rfl
      | packageStatement => rfl
      | importStatement => rfl

theorem isStray_of_isClass {item : FileItem} (h : item.isClass = true) : item.isStray = false := by
  cases item with
  | declaration node => cases node <;> first | rfl | cases h
  | _ => rfl

theorem isStray_of_isImport {item : FileItem} (h : item.isImport = true) :
    item.isStray = false := by
  cases item <;> first | rfl | cases h

/-- Items none of which matters are fields and methods. -/
theorem isNone_find?_iff :
    (before.find? (!·.isStray)).isNone = true ↔
      before.any isClass = false ∧ keepsPackage before = false ∧ before.any isImport = false := by
  constructor
  · intro none
    rw [Option.isNone_iff_eq_none] at none
    have stray : ∀ item ∈ before, item.isStray = true := by simpa using none
    have absent : ∀ p : FileItem → Bool, (∀ item, p item = true → item.isStray = false) →
        before.any p = false := by
      intro p apart
      rw [List.any_eq_false]
      intro item mem is
      have both := (stray item mem).symm.trans (apart item is)
      cases both
    exact ⟨absent isClass fun item is => isStray_of_isClass is, by rw [keepsPackage, none]; rfl,
      absent isImport fun item is => isStray_of_isImport is⟩
  · rintro ⟨classless, free, unimported⟩
    cases found : before.find? (!·.isStray) with
    | none => rfl
    | some first =>
        have mem := List.mem_of_find?_eq_some found
        have matters := List.find?_some found
        rw [keepsPackage, found] at free
        rw [List.any_eq_false] at classless unimported
        cases first with
        | packageStatement => cases free
        | importStatement => exact absurd rfl (unimported _ mem)
        | declaration node =>
            cases node with
            | classDecl => exact absurd rfl (classless _ mem)
            | field => cases matters
            | method => cases matters

end FileItem

/-! ### The state that follows the items -/

namespace FileState

open FileItem

/-- The state with one more item. -/
def add (state : FileState) : FileItem → FileState
  | .packageStatement node => state.addPackage node
  | .importStatement node => state.addImport node
  | .declaration node => state.addDeclaration node

/-- The state knows of the items before what it needs to. -/
structure Follows (state : FileState) (before : List FileItem) : Prop where
  outer : state.outer.isSome = before.any isClass
  package : state.package.isSome = keepsPackage before
  imports : before.any isClass = false → state.imports.isEmpty = !before.any isImport

theorem follows_nil : Follows {} [] :=
  ⟨rfl, rfl, fun _ => rfl⟩

variable {state : FileState} {before items : List FileItem}

/-- An item that is reported changes nothing else. -/
theorem Follows.report (h : state.Follows before) {item : FileItem} (defect : Defect)
    (class_ : item.isClass = true → before.any isClass = true)
    (import_ : item.isImport = true → before.any isClass = true)
    (same : keepsPackage (before ++ [item]) = keepsPackage before) :
    (state.report defect).Follows (before ++ [item]) := by
  refine ⟨?_, h.package.trans same.symm, fun classless => ?_⟩
  · rw [any_isClass_append]
    show state.outer.isSome = _
    cases is : item.isClass with
    | false => rw [h.outer, Bool.or_false]
    | true => rw [h.outer, class_ is, Bool.or_true]
  · rw [any_isClass_append, Bool.or_eq_false_iff] at classless
    show state.imports.isEmpty = _
    cases is : item.isImport with
    | false => simpa [is] using h.imports classless.1
    | true => simp [import_ is] at classless

theorem Follows.addPackage (h : state.Follows before) (node : Package) :
    (state.addPackage node).Follows (before ++ [.packageStatement node]) ∧
      (state.addPackage node).defects =
        state.defects ++ (violation? before (.packageStatement node)).toList := by
  have reported : ∀ {defect}, ¬ (before.find? (!·.isStray)).isNone = true →
      (state.report defect).Follows (before ++ [.packageStatement node]) := fun matters =>
    h.report _ (by simp [isClass]) (by simp [isImport]) (by simp [keepsPackage_append, matters])
  rw [FileState.addPackage, violation?, h.outer, h.package]
  by_cases classed : before.any isClass = true
  · rw [if_pos classed, if_pos classed]
    exact ⟨reported (by rw [isNone_find?_iff]; simp [classed]), rfl⟩
  rw [if_neg classed, if_neg classed]
  rw [Bool.not_eq_true] at classed
  rw [h.imports classed, Bool.not_not]
  by_cases kept : keepsPackage before = true
  · rw [if_pos kept, if_pos kept]
    exact ⟨reported (by rw [isNone_find?_iff]; simp [kept]), rfl⟩
  rw [if_neg kept, if_neg kept]
  by_cases imported : before.any isImport = true
  · rw [if_pos imported, if_pos imported]
    exact ⟨reported (by rw [isNone_find?_iff]; simp [imported]), rfl⟩
  rw [if_neg imported, if_neg imported]
  have free := isNone_find?_iff.2 ⟨classed, by simpa using kept, by simpa using imported⟩
  refine ⟨⟨?_, ?_, fun _ => ?_⟩, by simp⟩
  · rw [any_isClass_append, h.outer]
    simp [isClass]
  · simp [keepsPackage_append, free, isPackage]
  · simpa [isImport] using h.imports classed

theorem Follows.addImport (h : state.Follows before) (node : Import) :
    (state.addImport node).Follows (before ++ [.importStatement node]) ∧
      (state.addImport node).defects =
        state.defects ++ (violation? before (.importStatement node)).toList := by
  have same : keepsPackage (before ++ [.importStatement node]) = keepsPackage before := by
    simp [keepsPackage_append, isPackage]
  rw [FileState.addImport, violation?, h.outer]
  by_cases classed : before.any isClass = true
  · rw [if_pos classed, if_pos classed]
    exact ⟨h.report _ (by simp [isClass]) (fun _ => classed) same, rfl⟩
  rw [if_neg classed, if_neg classed]
  refine ⟨⟨?_, h.package.trans same.symm, fun _ => ?_⟩, by simp⟩
  · rw [any_isClass_append, h.outer]
    simp [isClass]
  · simp [isImport]

theorem Follows.addDeclaration (h : state.Follows before) (node : Declaration) :
    (state.addDeclaration node).Follows (before ++ [.declaration node]) ∧
      (state.addDeclaration node).defects =
        state.defects ++ (violation? before (.declaration node)).toList := by
  have same : keepsPackage (before ++ [.declaration node]) = keepsPackage before := by
    simp [keepsPackage_append, isPackage]
  have stray : ∀ defect, (∀ outer, node ≠ .classDecl outer) →
      (state.report defect).Follows (before ++ [.declaration node]) := fun defect other =>
    h.report defect (by cases node <;> simp_all [isClass]) (by simp [isImport]) same
  cases node with
  | classDecl outer =>
      rw [FileState.addDeclaration, violation?, h.outer]
      by_cases classed : before.any isClass = true
      · rw [if_pos classed, if_pos classed]
        exact ⟨h.report _ (fun _ => classed) (by simp [isImport]) same, rfl⟩
      rw [if_neg classed, if_neg classed]
      exact ⟨⟨by simp [isClass], h.package.trans same.symm, by simp [isClass]⟩, by simp⟩
  | field => exact ⟨stray _ (by simp), rfl⟩
  | method => exact ⟨stray _ (by simp), rfl⟩

/-- One more item is reported exactly if it is out of order. -/
theorem Follows.add (h : state.Follows before) (item : FileItem) :
    (state.add item).Follows (before ++ [item]) ∧
      (state.add item).defects = state.defects ++ (violation? before item).toList := by
  cases item with
  | packageStatement node => exact h.addPackage node
  | importStatement node => exact h.addImport node
  | declaration node => exact h.addDeclaration node

/-- What is out of order in a file that ends here. -/
def allDefects (state : FileState) : List Defect :=
  state.defects ++ if state.outer.isSome then [] else [.missingClass]

/-- At the end, all that is out of order is reported. -/
theorem allDefects_foldl (h : state.Follows before) :
    (items.foldl add state).allDefects = state.defects ++ violations before items := by
  induction items generalizing state before with
  | nil => rw [List.foldl_nil, violations, allDefects, h.outer]
  | cons item rest ih =>
      obtain ⟨follows, reported⟩ := h.add item
      rw [List.foldl_cons, ih follows, reported, violations, List.append_assoc]

theorem foldl_imports (imports : List Import) (state : FileState) (waiting : state.outer = none) :
    (imports.map .importStatement).foldl add state =
      { state with imports := state.imports ++ imports } := by
  induction imports generalizing state with
  | nil => simp
  | cons node rest ih =>
      have added : state.add (.importStatement node) =
          { state with imports := state.imports ++ [node] } := by
        rw [add, FileState.addImport, waiting]
        rfl
      have later := ih { state with imports := state.imports ++ [node] } waiting
      rw [List.map_cons, List.foldl_cons, added, later]
      simp

/-- Items in order are all kept. -/
theorem foldl_inOrder (package : Option Package) (imports : List Import) (outer : ClassDecl) :
    (inOrder package imports outer).foldl add {} = { package, imports, outer := some outer } := by
  have opened : (package.toList.map .packageStatement).foldl add {} = { package } := by
    cases package <;> rfl
  rw [inOrder, List.foldl_append, List.foldl_append, opened, foldl_imports imports _ rfl]
  rfl

end FileState

end JavaUnit
