/-
Module: JavaUnit.Proofs.AnnotationSites
Purpose: The places in a class tree that hold annotations, in one list, and what a pass for canonical
  names does to them. The traversal of the tree visits that list from first to last and touches
  nothing else, so what a pass comes to is a fact about lists.
Main exports: Site, ClassDecl.sites, CanonicalName, Visited, ClassDecl.Resolves,
  ClassDecl.resolves
-/
import JavaUnit.CanonicalName
import JavaUnit.Proofs.Lines

namespace JavaUnit

/-! ### Annotation sites -/

/-- An annotation in a class tree, with the name of the class that encloses it most closely. -/
structure Site where
  className : Text
  node : Annotation
deriving DecidableEq, Repr

/-- The sites of annotations that stand directly in a class. -/
def sitesIn (className : Text) (annotations : List Annotation) : List Site :=
  annotations.map (Site.mk className)

/-- A parameter with every annotation changed. -/
def Parameter.mapAnnotations (f : Annotation → Annotation) (node : Parameter) : Parameter :=
  { node with annotations := node.annotations.map f }

namespace Member

mutual

/-- The sites of a member of a class: those in front of a field; those in front of a method, then
those of its parameters; for a class those in front of it, then those of its members. -/
def sites (className : Text) : Member → List Site
  | .field node => sitesIn className node.annotations
  | .method node =>
    sitesIn className (node.annotations ++ node.parameters.flatMap Parameter.annotations)
  | .classDecl head members => sitesIn head.name head.annotations ++ sitesEach head.name members
  | .staticBlock _ => []
  | .comment _ => []

/-- The sites of the members of a class, in the order of the members. -/
def sitesEach (className : Text) : List Member → List Site
  | [] => []
  | member :: rest => member.sites className ++ sitesEach className rest

end

mutual

/-- A member with every annotation changed. -/
def mapAnnotations (f : Annotation → Annotation) : Member → Member
  | .field node => .field { node with annotations := node.annotations.map f }
  | .method node =>
    .method { node with
      annotations := node.annotations.map f
      parameters := node.parameters.map (Parameter.mapAnnotations f) }
  | .classDecl head members =>
    .classDecl { head with annotations := head.annotations.map f } (mapAnnotationsEach f members)
  | .staticBlock node => .staticBlock node
  | .comment node => .comment node

def mapAnnotationsEach (f : Annotation → Annotation) : List Member → List Member
  | [] => []
  | member :: rest => member.mapAnnotations f :: mapAnnotationsEach f rest

end

end Member

/-- The annotation without its canonical name. -/
def Annotation.unnamed (node : Annotation) : Annotation :=
  { node with canonicalName := [] }

namespace ClassDecl

/-- All annotation sites of a class: its own, then those of its members. -/
def sites (node : ClassDecl) : List Site :=
  (Member.ofClass node).sites node.name

/-- The class with every annotation changed, at any depth. -/
def mapAnnotations (f : Annotation → Annotation) (node : ClassDecl) : ClassDecl :=
  ⟨{ node.toClassHead with annotations := node.annotations.map f },
    Member.mapAnnotationsEach f node.members⟩

/-- All of a class but the canonical names of its annotations. -/
def unnamed (node : ClassDecl) : ClassDecl :=
  node.mapAnnotations Annotation.unnamed

end ClassDecl

/-! ### Canonical names by rule -/

/-- Whether an import brings in a simple name: it imports a single name that ends in it, and is not
static. -/
def Import.BringsIn (node : Import) (written : Text) : Prop :=
  node.isStatic = false ∧ node.isWildcard = false ∧
    (node.name = written ∨ ∃ container, node.name = container ++ '.' :: written)

/-- The canonical name that a written name has under some imports: a qualified name is its own, a
simple one has that of the first import that brings it in. -/
inductive CanonicalName (imports : List Import) : Text → Text → Prop where
  | qualified {written} (dotted : '.' ∈ written) : CanonicalName imports written written
  | imported {written earlier node later} (simple : '.' ∉ written)
      (split : imports = earlier ++ node :: later) (brings : node.BringsIn written)
      (first : ∀ other ∈ earlier, ¬ other.BringsIn written) :
      CanonicalName imports written node.name

/-! ### Passes by rule -/

/-- What a first report says, and then a second one. -/
def Report.followedBy (first second : Report) : Report where
  resolved := first.resolved + second.resolved
  unresolved := first.unresolved ++ second.unresolved

/-- What a visit makes of one annotation, and what it reports: a canonical name that is there
stays; one that is found is written; without one the annotation stays as it is. -/
inductive Visited (imports : List Import) : Annotation → Annotation → Report → Prop where
  | kept {node} (known : node.isResolved = true) : Visited imports node node {}
  | written {node name} (blank : node.isResolved = false)
      (found : CanonicalName imports node.name name) :
      Visited imports node { node with canonicalName := name } { resolved := 1 }
  | unknown {node} (blank : node.isResolved = false)
      (lost : ∀ name, ¬ CanonicalName imports node.name name) :
      Visited imports node node { unresolved := [node.name] }

/-- What visits make of annotations one after another, each of them visited once. -/
inductive VisitedEach (imports : List Import) :
    List Annotation → List Annotation → Report → Prop where
  | nil : VisitedEach imports [] [] {}
  | cons {node node' nodes nodes' report later} (head : Visited imports node node' report)
      (tail : VisitedEach imports nodes nodes' later) :
      VisitedEach imports (node :: nodes) (node' :: nodes') (report.followedBy later)

/-! ### The rule for canonical names -/

/-- For a simple name, the test that the search makes of an import. -/
theorem Import.bringsIn_iff {node : Import} {written : Text} (simple : '.' ∉ written) :
    node.BringsIn written ↔
      (!node.isStatic && node.simpleName? = some written) = true := by
  rw [Import.BringsIn, ← simpleName_eq_iff simple, Import.simpleName?]
  by_cases wildcard : node.isWildcard = true
  · simp [wildcard]
  · simp [wildcard]

/-- The search finds the name that the rule gives. -/
theorem canonicalName?_eq_some_iff {imports : List Import} {written name : Text} :
    canonicalName? imports written = some name ↔ CanonicalName imports written name := by
  by_cases dotted : '.' ∈ written
  · rw [canonicalName?, if_pos dotted, Option.some.injEq]
    constructor
    · rintro rfl
      exact .qualified dotted
    · intro h
      cases h with
      | qualified => rfl
      | imported simple => exact absurd dotted simple
  · rw [canonicalName?, if_neg dotted, Option.map_eq_some_iff]
    constructor
    · rintro ⟨node, found, rfl⟩
      obtain ⟨passes, earlier, later, split, others⟩ := List.find?_eq_some_iff_append.1 found
      refine .imported dotted split ((Import.bringsIn_iff dotted).2 passes) ?_
      intro other member brings
      have fails := others other member
      rw [(Import.bringsIn_iff dotted).1 brings] at fails
      exact absurd fails (by decide)
    · intro h
      cases h with
      | qualified dotted' => exact absurd dotted' dotted
      | @imported earlier node later simple split brings first =>
          refine ⟨node, ?_, rfl⟩
          rw [List.find?_eq_some_iff_append]
          refine ⟨(Import.bringsIn_iff dotted).1 brings, earlier, later, split, ?_⟩
          intro other member
          rw [Bool.not_eq_true', Bool.eq_false_iff]
          exact fun passes => first other member ((Import.bringsIn_iff dotted).2 passes)

/-- The search fails for exactly the names without a canonical name. -/
theorem canonicalName?_eq_none_iff {imports : List Import} {written : Text} :
    canonicalName? imports written = none ↔ ∀ name, ¬ CanonicalName imports written name := by
  simp only [← canonicalName?_eq_some_iff, ← Option.not_isSome_iff_eq_none,
    Option.isSome_iff_exists, not_exists]

/-- A canonical name is not blank when the imports have names. -/
theorem CanonicalName.isBlank_eq_false {imports : List Import} {written name : Text}
    (named : ∀ node ∈ imports, node.name.isBlank = false)
    (h : CanonicalName imports written name) : name.isBlank = false := by
  cases h with
  | qualified dotted =>
      rw [Text.isBlank, List.all_eq_false]
      exact ⟨'.', dotted, by decide⟩
  | imported simple split =>
      exact named _ (by simp [split])

/-! ### Sweeps -/

/-- A pass goes through sites from first to last, visits each of them once, and besides that only
writes to its journal. -/
inductive Sweeps (imports : List Import) : List Site → List Site → Pass → Pass → Prop where
  | done {pass} : Sweeps imports [] [] pass pass
  | noted {sites sites' pass pass'} (event : Event)
      (later : Sweeps imports sites sites' (pass.note event) pass') :
      Sweeps imports sites sites' pass pass'
  | visit {site sites sites' pass pass'}
      (later : Sweeps imports sites sites'
        (Pass.annotationUse imports site.className site.node pass).2 pass') :
      Sweeps imports (site :: sites)
        (⟨site.className, (Pass.annotationUse imports site.className site.node pass).1⟩ :: sites')
        pass pass'

namespace Sweeps

variable {imports : List Import} {pass mid pass' : Pass}

/-- One sweep after another is a sweep of the sites of both. -/
theorem append {left left' right right' : List Site} (first : Sweeps imports left left' pass mid)
    (second : Sweeps imports right right' mid pass') :
    Sweeps imports (left ++ right) (left' ++ right') pass pass' := by
  induction first with
  | done => exact second
  | noted event _ ih => exact .noted event (ih second)
  | visit _ ih => exact .visit (ih second)

/-- The annotations of a class are swept in order. -/
theorem annotations (className : Text) (nodes : List Annotation) (pass : Pass) :
    Sweeps imports (sitesIn className nodes)
      (sitesIn className (Pass.annotations imports className nodes pass).1) pass
      (Pass.annotations imports className nodes pass).2 := by
  induction nodes generalizing pass with
  | nil => exact .done
  | cons node rest ih =>
      exact @Sweeps.visit imports ⟨className, node⟩ _ _ _ _ (ih _)

/-- So are those of the parameters of a method. -/
theorem parameters (className : Text) (nodes : List Parameter) (pass : Pass) :
    Sweeps imports (sitesIn className (nodes.flatMap Parameter.annotations))
      (sitesIn className
        ((Pass.parameters imports className nodes pass).1.flatMap Parameter.annotations)) pass
      (Pass.parameters imports className nodes pass).2 := by
  induction nodes generalizing pass with
  | nil => exact .done
  | cons node rest ih =>
      simp only [Pass.parameters, List.flatMap_cons, sitesIn, List.map_append]
      exact (annotations className node.annotations pass).append (ih _)

theorem method (className : Text) (node : Method) (pass : Pass) :
    Sweeps imports ((Member.method node).sites className)
      ((Member.method (Pass.method imports className node pass).1).sites className) pass
      (Pass.method imports className node pass).2 := by
  simp only [Member.sites, Pass.method, sitesIn, List.map_append]
  exact (annotations className node.annotations pass).append (parameters className _ _)

/-- The annotations of a class itself are swept after a note that the class is visited. -/
theorem head (node : ClassHead) (pass : Pass) :
    Sweeps imports (sitesIn node.name node.annotations)
      (sitesIn node.name (Pass.head imports node pass).1.annotations) pass
      (Pass.head imports node pass).2 := by
  rw [Pass.head]
  by_cases stopped : pass.stopped.isSome
  · rw [if_pos stopped]
    exact annotations node.name node.annotations pass
  · rw [if_neg stopped]
    exact .noted _ (annotations node.name node.annotations _)

mutual

/-- A visit of a member sweeps the sites of the member. -/
theorem member (className : Text) : ∀ (node : Member) (pass : Pass),
    Sweeps imports (node.sites className)
      ((Pass.member imports className node pass).1.sites className) pass
      (Pass.member imports className node pass).2
  | .field node, pass => annotations className node.annotations pass
  | .method node, pass => method className node pass
  | .classDecl node list, pass => by
      simp only [Member.sites, Pass.member]
      exact (head node pass).append (members node.name list _)
  | .staticBlock _, _ => .done
  | .comment _, _ => .done

theorem members (className : Text) : ∀ (list : List Member) (pass : Pass),
    Sweeps imports (Member.sitesEach className list)
      (Member.sitesEach className (Pass.members imports className list pass).1) pass
      (Pass.members imports className list pass).2
  | [], _ => .done
  | node :: rest, pass => by
      simp only [Member.sitesEach, Pass.members]
      exact (member className node pass).append (members className rest _)

end

end Sweeps

/-! ### The frame of a pass -/

namespace Pass

variable (imports : List Import)

/-- A visit writes at most the canonical name. -/
theorem unnamed_annotationUse (className : Text) (node : Annotation) (pass : Pass) :
    (annotationUse imports className node pass).1.unnamed = node.unnamed := by
  rw [annotationUse]
  by_cases skipped : pass.stopped.isSome || node.isResolved
  · rw [if_pos skipped]
  · rw [if_neg skipped]
    cases found : canonicalName? imports node.name with
    | none => rfl
    | some name =>
        cases node with
        | mk written canonicalName params editable =>
            cases editable <;> rfl

theorem unnamed_annotations (className : Text) (nodes : List Annotation) (pass : Pass) :
    (annotations imports className nodes pass).1.map Annotation.unnamed =
      nodes.map Annotation.unnamed := by
  induction nodes generalizing pass with
  | nil => rfl
  | cons node rest ih => simp only [annotations, List.map_cons, unnamed_annotationUse, ih]

theorem unnamed_parameters (className : Text) (nodes : List Parameter) (pass : Pass) :
    (parameters imports className nodes pass).1.map (Parameter.mapAnnotations Annotation.unnamed) =
      nodes.map (Parameter.mapAnnotations Annotation.unnamed) := by
  induction nodes generalizing pass with
  | nil => rfl
  | cons node rest ih =>
      simp only [parameters, List.map_cons, Parameter.mapAnnotations, unnamed_annotations]
      rw [← Parameter.mapAnnotations, ih]

mutual

/-- A visit of a member changes nothing in it but canonical names. -/
theorem unnamed_member (className : Text) : ∀ (node : Member) (pass : Pass),
    (member imports className node pass).1.mapAnnotations Annotation.unnamed =
      node.mapAnnotations Annotation.unnamed
  | .field node, pass => by
      simp only [member, field, Member.mapAnnotations, unnamed_annotations]
  | .method node, pass => by
      simp only [member, method, Member.mapAnnotations, unnamed_annotations, unnamed_parameters]
  | .classDecl node list, pass => by
      simp only [member, head, Member.mapAnnotations, unnamed_annotations, unnamed_members]
  | .staticBlock _, _ => rfl
  | .comment _, _ => rfl

theorem unnamed_members (className : Text) : ∀ (list : List Member) (pass : Pass),
    Member.mapAnnotationsEach Annotation.unnamed (members imports className list pass).1 =
      Member.mapAnnotationsEach Annotation.unnamed list
  | [], _ => rfl
  | node :: rest, pass => by
      simp only [members, Member.mapAnnotationsEach, unnamed_member, unnamed_members]

end

end Pass

/-! ### Rendering -/

variable {f : Annotation → Annotation}

theorem Lead.render_mapAnnotations (h : ∀ node, (f node).render = node.render)
    (lead : Lead) :
    Lead.render { lead with annotations := lead.annotations.map f } = lead.render := by
  have texts : (lead.annotations.map f).map Annotation.render =
      lead.annotations.map Annotation.render := by
    rw [List.map_map]
    exact List.map_congr_left fun node _ => h node
  simp only [Lead.render, texts]

theorem Parameter.render_mapAnnotations (h : ∀ node, (f node).render = node.render)
    (node : Parameter) :
    (node.mapAnnotations f).render = node.render := by
  have texts : (node.annotations.map f).flatMap (·.render ++ [' ']) =
      node.annotations.flatMap (·.render ++ [' ']) := by
    simp only [List.flatMap_map, h]
  rw [Parameter.mapAnnotations, Parameter.render, texts]
  rfl

theorem ClassHead.render_mapAnnotations (h : ∀ node, (f node).render = node.render)
    (head : ClassHead) (members : List Text) :
    ClassHead.render { head with annotations := head.annotations.map f } members =
      head.render members := by
  simp only [ClassHead.render, ClassHead.renderDeclaration, ClassHead.renderFileHead,
    Lead.render_mapAnnotations h]

theorem Method.render_mapAnnotations (h : ∀ node, (f node).render = node.render)
    (node : Method) :
    ((Member.method node).mapAnnotations f).render = node.render := by
  have texts : (node.parameters.map (Parameter.mapAnnotations f)).map Parameter.render =
      node.parameters.map Parameter.render := by
    rw [List.map_map]
    exact List.map_congr_left fun parameter _ => Parameter.render_mapAnnotations h parameter
  simp only [Member.mapAnnotations, Member.render, Method.render, Lead.render_mapAnnotations h,
    texts]

mutual

/-- Changing annotations without changing their renderings changes no rendering. -/
theorem Member.render_mapAnnotations (h : ∀ node, (f node).render = node.render) :
    ∀ node : Member, (node.mapAnnotations f).render = node.render
  | .field node => by
      simp only [Member.mapAnnotations, Member.render, Field.render, Lead.render_mapAnnotations h]
  | .method node => Method.render_mapAnnotations h node
  | .classDecl head members => by
      rw [Member.mapAnnotations, Member.render, Member.render, renderEach_mapAnnotations h members,
        ClassHead.render_mapAnnotations h]
  | .staticBlock _ => rfl
  | .comment _ => rfl

theorem Member.renderEach_mapAnnotations (h : ∀ node, (f node).render = node.render) :
    ∀ list : List Member,
      Member.renderEach (Member.mapAnnotationsEach f list) = Member.renderEach list
  | [] => rfl
  | node :: rest => by
      rw [Member.mapAnnotationsEach, Member.renderEach, Member.renderEach,
        render_mapAnnotations h node, renderEach_mapAnnotations h rest]

end

/-- Canonical names are not rendered. -/
theorem ClassDecl.render_unnamed (node : ClassDecl) : node.unnamed.render = node.render := by
  have unnamed : ∀ annotation : Annotation, annotation.unnamed.render = annotation.render :=
    fun _ => rfl
  simp only [ClassDecl.render, ClassDecl.unnamed, ClassDecl.mapAnnotations,
    ← Member.renderEach_eq_map, Member.renderEach_mapAnnotations unnamed]
  exact ClassHead.render_mapAnnotations unnamed node.toClassHead _

/-! ### What a sweep comes to -/

namespace Report

@[simp] theorem followedBy_empty (report : Report) : report.followedBy {} = report := by
  simp [followedBy]

theorem followedBy_assoc (first second third : Report) :
    (first.followedBy second).followedBy third = first.followedBy (second.followedBy third) := by
  simp [followedBy, Nat.add_assoc]

end Report

variable {imports : List Import}

/-- A visit of an annotation that can be changed obeys the rules and does not stop the pass. -/
theorem Pass.visited_annotationUse (imports : List Import) (className : Text) {node : Annotation} {pass : Pass}
    (running : pass.stopped = none) (editable : node.editable = true) :
    ∃ report, Visited imports node (annotationUse imports className node pass).1 report ∧
      (annotationUse imports className node pass).2.report = pass.report.followedBy report ∧
      (annotationUse imports className node pass).2.stopped = none := by
  rw [annotationUse]
  by_cases known : node.isResolved = true
  · rw [if_pos (by simp [known])]
    exact ⟨{}, .kept known, by simp, running⟩
  · rw [if_neg (by simp [known, running])]
    have blank : node.isResolved = false := by simpa using known
    cases found : canonicalName? imports node.name with
    | none =>
        exact ⟨_, .unknown blank (canonicalName?_eq_none_iff.1 found), rfl, running⟩
    | some name =>
        simp only [node.setCanonicalName_of_editable editable]
        exact ⟨_, .written blank (canonicalName?_eq_some_iff.1 found),
          by simp [countResolved, Report.followedBy], running⟩

/-- A sweep over annotations that can all be changed visits them by the rules. -/
theorem Sweeps.visitedEach {sites sites' : List Site} {pass pass' : Pass}
    (h : Sweeps imports sites sites' pass pass') (running : pass.stopped = none)
    (editable : ∀ site ∈ sites, site.node.editable = true) :
    ∃ report, VisitedEach imports (sites.map Site.node) (sites'.map Site.node) report ∧
      pass'.report = pass.report.followedBy report ∧ pass'.stopped = none := by
  induction h with
  | done => exact ⟨{}, .nil, by simp, running⟩
  | noted event _ ih => exact ih running editable
  | @visit site sites sites' pass pass' _ ih =>
      obtain ⟨first, visited, counted, running⟩ :=
        Pass.visited_annotationUse imports site.className running
          (editable site List.mem_cons_self)
      obtain ⟨later, each, total, running⟩ :=
        ih running fun other member => editable other (List.mem_cons_of_mem _ member)
      refine ⟨first.followedBy later, .cons visited each, ?_, running⟩
      rw [total, counted, Report.followedBy_assoc]

/-! ### Passes over the result of a pass -/

/-- An annotation that no pass with these imports has anything to write to. -/
def Annotation.Settled (imports : List Import) (node : Annotation) : Prop :=
  node.isResolved = true ∨ ∀ name, ¬ CanonicalName imports node.name name

/-- What a visit leaves behind is settled: a canonical name that was written is not blank. -/
theorem Visited.settled {node node' : Annotation} {report : Report}
    (named : ∀ node ∈ imports, node.name.isBlank = false)
    (h : Visited imports node node' report) : node'.Settled imports := by
  cases h with
  | kept known => exact .inl known
  | written _ found =>
      refine .inl ?_
      simp [found.isBlank_eq_false named, Annotation.isResolved]
  | unknown _ lost => exact .inr lost

/-- A visit of a settled annotation counts nothing, and reports the annotation as a visit before
it did. -/
theorem Visited.again {node node' node'' : Annotation} {report report' : Report}
    (named : ∀ node ∈ imports, node.name.isBlank = false)
    (first : Visited imports node node' report) (second : Visited imports node' node'' report') :
    report' = { unresolved := report.unresolved } := by
  have settled := first.settled named
  cases first with
  | kept known =>
      cases second with
      | kept => rfl
      | written blank => simp [blank] at known
      | unknown blank => simp [blank] at known
  | written _ found =>
      have known := settled.resolve_right fun lost => lost _ found
      cases second with
      | kept => rfl
      | written blank => rw [blank] at known; cases known
      | unknown blank => rw [blank] at known; cases known
  | unknown blank lost =>
      cases second with
      | kept known => simp [blank] at known
      | written _ found => exact absurd found (lost _)
      | unknown => rfl

theorem VisitedEach.settled {nodes nodes' : List Annotation} {report : Report}
    (named : ∀ node ∈ imports, node.name.isBlank = false)
    (h : VisitedEach imports nodes nodes' report) : ∀ node ∈ nodes', node.Settled imports := by
  induction h with
  | nil => simp
  | cons head _ ih =>
      intro node member
      rcases List.mem_cons.1 member with rfl | member
      · exact head.settled named
      · exact ih node member

theorem VisitedEach.again {nodes nodes' nodes'' : List Annotation} {report report' : Report}
    (named : ∀ node ∈ imports, node.name.isBlank = false)
    (first : VisitedEach imports nodes nodes' report)
    (second : VisitedEach imports nodes' nodes'' report') :
    report' = { unresolved := report.unresolved } := by
  induction first generalizing nodes'' report' with
  | nil =>
      cases second
      rfl
  | cons head _ ih =>
      cases second with
      | cons head' tail' =>
          rw [head.again named head', ih tail']
          simp [Report.followedBy]

theorem VisitedEach.editable {nodes nodes' : List Annotation} {report : Report}
    (h : VisitedEach imports nodes nodes' report)
    (editable : ∀ node ∈ nodes, node.editable = true) : ∀ node ∈ nodes', node.editable = true := by
  induction h with
  | nil => simp
  | cons head _ ih =>
      rw [List.forall_mem_cons] at editable ⊢
      refine ⟨?_, ih editable.2⟩
      cases head with
      | kept => exact editable.1
      | written => exact editable.1
      | unknown => exact editable.1

namespace Pass

theorem annotationUse_of_settled (className : Text) {node : Annotation} (pass : Pass)
    (settled : node.Settled imports) : (annotationUse imports className node pass).1 = node := by
  rw [annotationUse]
  by_cases skipped : (pass.stopped.isSome || node.isResolved) = true
  · rw [if_pos skipped]
  · rw [if_neg skipped]
    have lost := settled.resolve_left fun known => skipped (by simp [known])
    rw [canonicalName?_eq_none_iff.2 lost]

theorem annotations_of_settled (className : Text) {nodes : List Annotation} (pass : Pass)
    (settled : ∀ site ∈ sitesIn className nodes, site.node.Settled imports) :
    (annotations imports className nodes pass).1 = nodes := by
  induction nodes generalizing pass with
  | nil => rfl
  | cons node rest ih =>
      rw [sitesIn, List.map_cons, List.forall_mem_cons] at settled
      simp only [annotations, annotationUse_of_settled className pass settled.1, ih _ settled.2]

theorem parameters_of_settled (className : Text) {nodes : List Parameter} (pass : Pass)
    (settled : ∀ site ∈ sitesIn className (nodes.flatMap Parameter.annotations),
      site.node.Settled imports) :
    (parameters imports className nodes pass).1 = nodes := by
  induction nodes generalizing pass with
  | nil => rfl
  | cons node rest ih =>
      rw [List.flatMap_cons, sitesIn, List.map_append, List.forall_mem_append] at settled
      simp only [parameters, annotations_of_settled className pass settled.1, ih _ settled.2]

mutual

/-- A member whose annotations are all settled stays as it is. -/
theorem member_of_settled (className : Text) : ∀ (node : Member) (pass : Pass),
    (∀ site ∈ node.sites className, site.node.Settled imports) →
      (member imports className node pass).1 = node
  | .field node, pass, settled => by
      rw [Member.sites] at settled
      simp only [member, field, annotations_of_settled className pass settled]
  | .method node, pass, settled => by
      rw [Member.sites, sitesIn, List.map_append, List.forall_mem_append] at settled
      simp only [member, method, annotations_of_settled className pass settled.1,
        parameters_of_settled className _ settled.2]
  | .classDecl node list, pass, settled => by
      rw [Member.sites, List.forall_mem_append] at settled
      simp only [member, head, annotations_of_settled node.name _ settled.1,
        members_of_settled node.name list _ settled.2]
  | .staticBlock _, _, _ => rfl
  | .comment _, _, _ => rfl

theorem members_of_settled (className : Text) : ∀ (list : List Member) (pass : Pass),
    (∀ site ∈ Member.sitesEach className list, site.node.Settled imports) →
      (members imports className list pass).1 = list
  | [], _, _ => rfl
  | node :: rest, pass, settled => by
      rw [Member.sitesEach, List.forall_mem_append] at settled
      simp only [members, member_of_settled className node pass settled.1,
        members_of_settled className rest _ settled.2]

end

end Pass

/-! ### Passes over a class -/

namespace ClassDecl

/-- A pass over a class that can be changed is a visit of it as a member. -/
theorem resolve_node (node : ClassDecl) (editable : node.editable = true) :
    Member.ofClass (node.resolve imports).node =
      (Pass.member imports node.name (Member.ofClass node) {}).1 := by
  simp only [resolve, editable, if_true, Member.ofClass, Pass.member]
  split <;> rfl

theorem resolve_outcome (node : ClassDecl) (editable : node.editable = true)
    (finished : (Pass.member imports node.name (Member.ofClass node) {}).2.stopped = none) :
    (node.resolve imports).outcome =
      .ok (Pass.member imports node.name (Member.ofClass node) {}).2.report := by
  simp only [Member.ofClass, Pass.member] at finished
  simp only [resolve, editable, if_true, Member.ofClass, Pass.member]
  split
  · next stopped => exact absurd (stopped.symm.trans finished) (by simp)
  · rfl

theorem ofClass_inj {first second : ClassDecl} (h : Member.ofClass first = Member.ofClass second) :
    first = second := by
  cases first
  cases second
  simpa [Member.ofClass] using h

/-- A pass over a class that can be changed with all its annotations comes to an end. It visits the
sites of the annotations in order, each of them once. -/
theorem visitedEach_resolve (imports : List Import) (node : ClassDecl)
    (editable : node.editable = true)
    (sites : ∀ site ∈ node.sites, site.node.editable = true) :
    ∃ report, (node.resolve imports).outcome = .ok report ∧
      VisitedEach imports (node.sites.map Site.node)
        ((node.resolve imports).node.sites.map Site.node) report := by
  have swept : Sweeps imports node.sites _ {} _ :=
    Sweeps.member node.name (Member.ofClass node) {}
  obtain ⟨report, each, total, finished⟩ := swept.visitedEach rfl sites
  rw [← resolve_node node editable] at each
  refine ⟨report, ?_, each⟩
  rw [resolve_outcome node editable finished, total]
  simp [Report.followedBy]

/-- A pass writes nothing but canonical names. -/
theorem unnamed_resolve (imports : List Import) (node : ClassDecl)
    (editable : node.editable = true) :
    (node.resolve imports).node.unnamed = node.unnamed := by
  have same := Pass.unnamed_member imports node.name (Member.ofClass node) {}
  rw [← resolve_node node editable] at same
  exact ofClass_inj same

/-- All that a pass over a class does, by its report. -/
structure Resolves (imports : List Import) (node : ClassDecl) (report : Report) : Prop where
  outcome : (node.resolve imports).outcome = .ok report
  sites : VisitedEach imports (node.sites.map Site.node)
    ((node.resolve imports).node.sites.map Site.node) report
  unnamed : (node.resolve imports).node.unnamed = node.unnamed
  render : (node.resolve imports).node.render = node.render
  /-- A second pass finds nothing to write. -/
  outcome_again : ((node.resolve imports).node.resolve imports).outcome =
    .ok { resolved := 0, unresolved := report.unresolved }
  node_again : ((node.resolve imports).node.resolve imports).node = (node.resolve imports).node

/-- A pass over a class that can be changed with all its annotations succeeds, visits the sites of
the annotations by the rules, and leaves nothing to do for a second pass. -/
theorem resolves {node : ClassDecl} (editable : node.editable = true)
    (sites : ∀ site ∈ node.sites, site.node.editable = true)
    (named : ∀ node ∈ imports, node.name.isBlank = false) :
    ∃ report, Resolves imports node report := by
  obtain ⟨report, outcome, each⟩ := visitedEach_resolve imports node editable sites
  have unnamed := unnamed_resolve imports node editable
  have stillEditable : (node.resolve imports).node.editable = true := by
    have same : (node.resolve imports).node.editable = node.editable :=
      congrArg (fun other => other.editable) unnamed
    rw [same, editable]
  have stillEach : ∀ site ∈ (node.resolve imports).node.sites, site.node.editable = true := by
    have kept := each.editable (by simpa using sites)
    simpa using kept
  have settled : ∀ site ∈ (node.resolve imports).node.sites, site.node.Settled imports := by
    have kept := each.settled named
    simpa using kept
  obtain ⟨later, outcomeAgain, eachAgain⟩ :=
    visitedEach_resolve imports (node.resolve imports).node stillEditable stillEach
  refine ⟨report, outcome, each, unnamed, ?_, ?_, ?_⟩
  · rw [← render_unnamed, unnamed, render_unnamed]
  · rw [outcomeAgain, each.again named eachAgain]
  · refine ofClass_inj ?_
    rw [resolve_node _ stillEditable]
    exact Pass.member_of_settled _ _ _ settled

/-- A class with a method in front of a nested class. Its annotations stand on the class, on a
parameter of the method and on the nested class. -/
def annotatedSample : ClassDecl where
  sectionComment := none
  javadoc := none
  annotations := [{ name := "Nullable".toList, params := [] }]
  modifiers := .ofList []
  headerComments := []
  package := none
  imports := []
  kind := .class
  name := ['C']
  typeParameters := none
  superclass := none
  interfaces := []
  trailingComments := []
  inner := false
  members :=
    [.method
      { sectionComment := none, javadoc := none, annotations := [], modifiers := .ofList [],
        typeParameters := none, returnType := none, name := ['C'],
        parameters :=
          [⟨[{ name := "Inject".toList, params := [] }], false, "int".toList, ['p']⟩],
        throws := [], body := none },
    .classDecl
      { sectionComment := none, javadoc := none,
        annotations := [{ name := "a.B".toList, params := [] }], modifiers := .ofList [],
        headerComments := [], package := none, imports := [], kind := .class, name := ['D'],
        typeParameters := none, superclass := none, interfaces := [], trailingComments := [],
        inner := true } []]

/-- A static import is passed over, and the name without an import is reported. -/
theorem resolves_annotatedSample :
    (annotatedSample.resolve
      [⟨"s.Nullable".toList, true, false, true⟩,
        ⟨"x.Nullable".toList, false, false, true⟩]).outcome.toOption =
      some ⟨2, ["Inject".toList]⟩ ∧
    ∃ report, Resolves
      [⟨"s.Nullable".toList, true, false, true⟩, ⟨"x.Nullable".toList, false, false, true⟩]
      annotatedSample report :=
  ⟨by decide +kernel,
    resolves (by decide) (by decide +kernel) (by decide +kernel)⟩

end ClassDecl

end JavaUnit
