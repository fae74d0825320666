/-
Module: JavaUnit.Proofs.FrozenSites
Purpose: Where a pass for canonical names stops in a tree that is frozen in part. One kind of site
  stops it, a frozen annotation that the pass has a name to write to. A pass names the sites in
  front of the first one of these and leaves that one and all later ones alone.
Main exports: Annotation.Blocks, Annotation.named, Sweeps.of_blocked, ClassDecl.Halts,
  ClassDecl.halts
-/
import JavaUnit.Proofs.AnnotationSites

namespace JavaUnit

/-! ### Sites that stop a pass -/

/-- No pass gets past the annotation: it is frozen, has no canonical name, and the imports have one
for it. -/
def Annotation.Blocks (imports : List Import) (node : Annotation) : Prop :=
  node.editable = false ∧ node.isResolved = false ∧
    ∃ name, CanonicalName imports node.name name

instance (imports : List Import) (node : Annotation) : Decidable (node.Blocks imports) :=
  decidable_of_iff
    (node.editable = false ∧ node.isResolved = false ∧
      (canonicalName? imports node.name).isSome = true)
    (by simp only [Option.isSome_iff_exists, canonicalName?_eq_some_iff, Annotation.Blocks])

/-- The annotation as a pass that gets past it leaves it: with the canonical name it has already,
or else with the one that the imports have for it, if any. -/
def Annotation.named (imports : List Import) (node : Annotation) : Annotation :=
  if node.isResolved then node
  else
    match canonicalName? imports node.name with
    | none => node
    | some name => { node with canonicalName := name }

/-- The site as a pass that gets past it leaves it. -/
def Site.named (imports : List Import) (site : Site) : Site :=
  ⟨site.className, site.node.named imports⟩

/-! ### One visit -/

namespace Pass

variable {imports : List Import} {pass : Pass}

/-- A pass that is stopped passes over an annotation. -/
theorem annotationUse_of_stopped (className : Text) (node : Annotation) {fault : FrozenClass}
    (stopped : pass.stopped = some fault) :
    annotationUse imports className node pass = (node, pass) := by
  rw [annotationUse, if_pos (by simp [stopped])]

/-- An annotation that blocks it stops a pass, with the name of the class, and stays as it is. -/
theorem annotationUse_of_blocks (className : Text) {node : Annotation}
    (running : pass.stopped = none) (blocks : node.Blocks imports) :
    annotationUse imports className node pass =
      (node, { pass with stopped := some ⟨className⟩ }) := by
  obtain ⟨frozen, blank, name, found⟩ := blocks
  have refused : node.setCanonicalName name =
      .error ⟨.annotationUse, [.frozen .annotationUse]⟩ :=
    if_neg (by simp [frozen])
  rw [annotationUse, if_neg (by simp [running, blank]), canonicalName?_eq_some_iff.2 found]
  simp only [refused]

/-- Any other annotation is named, and the pass goes on. -/
theorem annotationUse_of_not_blocks (className : Text) {node : Annotation}
    (running : pass.stopped = none) (clear : ¬ node.Blocks imports) :
    (annotationUse imports className node pass).1 = node.named imports ∧
      (annotationUse imports className node pass).2.stopped = none := by
  rw [annotationUse, Annotation.named]
  by_cases known : node.isResolved = true
  · rw [if_pos (by simp [known]), if_pos known]
    exact ⟨rfl, running⟩
  · have blank : node.isResolved = false := by simpa using known
    rw [if_neg (by simp [running, blank]), if_neg known]
    cases found : canonicalName? imports node.name with
    | none => exact ⟨rfl, running⟩
    | some name =>
        have editable : node.editable = true := by
          rw [← Bool.not_eq_false]
          exact fun frozen => clear ⟨frozen, blank, name, canonicalName?_eq_some_iff.1 found⟩
        simp only [node.setCanonicalName_of_editable editable]
        exact ⟨trivial, running⟩

end Pass

/-! ### Sweeps that stop -/

namespace Sweeps

variable {imports : List Import} {pass pass' : Pass}

/-- A sweep of two lists of sites is a sweep of the first one, and then one of the second. -/
theorem split {left right sites' : List Site}
    (h : Sweeps imports (left ++ right) sites' pass pass') :
    ∃ left' right' mid, sites' = left' ++ right' ∧ Sweeps imports left left' pass mid ∧
      Sweeps imports right right' mid pass' := by
  generalize whole : left ++ right = sites at h
  induction h generalizing left with
  | done =>
      obtain ⟨rfl, rfl⟩ := List.append_eq_nil_iff.1 whole
      exact ⟨[], [], _, rfl, .done, .done⟩
  | noted event _ ih =>
      obtain ⟨left', right', mid, rfl, first, second⟩ := ih whole
      exact ⟨left', right', mid, rfl, .noted event first, second⟩
  | @visit site sites sites' pass pass' later ih =>
      cases left with
      | nil =>
          rw [List.nil_append] at whole
          exact ⟨[], _, _, rfl, .done, whole ▸ .visit later⟩
      | cons other left =>
          obtain ⟨rfl, rest⟩ := List.cons.inj whole
          obtain ⟨left', right', mid, rfl, first, second⟩ := ih rest
          exact ⟨_ :: left', right', mid, rfl, .visit first, second⟩

/-- A pass that is stopped leaves the sites alone, and stays stopped where it was. -/
theorem of_stopped {sites sites' : List Site} {fault : FrozenClass}
    (h : Sweeps imports sites sites' pass pass') (stopped : pass.stopped = some fault) :
    sites' = sites ∧ pass'.stopped = some fault := by
  induction h with
  | done => exact ⟨rfl, stopped⟩
  | noted event _ ih => exact ih stopped
  | @visit site sites sites' pass pass' _ ih =>
      rw [Pass.annotationUse_of_stopped site.className site.node stopped] at ih ⊢
      obtain ⟨rfl, still⟩ := ih stopped
      exact ⟨rfl, still⟩

/-- A sweep of sites that do not block it names them all. -/
theorem of_clear {sites sites' : List Site} (h : Sweeps imports sites sites' pass pass')
    (running : pass.stopped = none) (clear : ∀ site ∈ sites, ¬ site.node.Blocks imports) :
    sites' = sites.map (Site.named imports) ∧ pass'.stopped = none := by
  induction h with
  | done => exact ⟨rfl, running⟩
  | noted event _ ih => exact ih running clear
  | @visit site sites sites' pass pass' _ ih =>
      rw [List.forall_mem_cons] at clear
      obtain ⟨named, running⟩ :=
        Pass.annotationUse_of_not_blocks site.className running clear.1
      obtain ⟨rfl, running⟩ := ih running clear.2
      rw [named]
      exact ⟨rfl, running⟩

/-- A sweep stops at a site that blocks it, and leaves this one and the later ones alone. -/
theorem of_blocks {site : Site} {after sites' : List Site}
    (h : Sweeps imports (site :: after) sites' pass pass') (running : pass.stopped = none)
    (blocks : site.node.Blocks imports) :
    sites' = site :: after ∧ pass'.stopped = some ⟨site.className⟩ := by
  generalize whole : site :: after = sites at h
  induction h with
  | done => cases whole
  | noted event _ ih => exact ih running whole
  | @visit other sites sites' pass pass' later =>
      obtain ⟨rfl, rfl⟩ := List.cons.inj whole
      rw [Pass.annotationUse_of_blocks site.className running blocks] at later ⊢
      obtain ⟨rfl, stopped⟩ := later.of_stopped rfl
      exact ⟨rfl, stopped⟩

/-- The first site that blocks a sweep divides the sites that it names from those that it leaves
alone. -/
theorem of_blocked {before after sites' : List Site} {site : Site}
    (h : Sweeps imports (before ++ site :: after) sites' pass pass')
    (running : pass.stopped = none) (clear : ∀ other ∈ before, ¬ other.node.Blocks imports)
    (blocks : site.node.Blocks imports) :
    sites' = before.map (Site.named imports) ++ site :: after ∧
      pass'.stopped = some ⟨site.className⟩ := by
  obtain ⟨before', rest, mid, rfl, first, second⟩ := h.split
  obtain ⟨rfl, running⟩ := first.of_clear running clear
  obtain ⟨rfl, stopped⟩ := second.of_blocks running blocks
  exact ⟨rfl, stopped⟩

end Sweeps

/-- Sites of which one blocks a pass have a first one that does. -/
theorem exists_first_blocks {imports : List Import} {sites : List Site}
    (blocked : ∃ site ∈ sites, site.node.Blocks imports) :
    ∃ before site after, sites = before ++ site :: after ∧
      (∀ other ∈ before, ¬ other.node.Blocks imports) ∧ site.node.Blocks imports := by
  have found : (sites.find? fun site => site.node.Blocks imports).isSome = true := by
    simpa using blocked
  obtain ⟨site, found⟩ := Option.isSome_iff_exists.1 found
  obtain ⟨blocks, before, after, split, clear⟩ := List.find?_eq_some_iff_append.1 found
  exact ⟨before, site, after, split, by simpa using clear, by simpa using blocks⟩

/-! ### Passes that stop -/

namespace ClassDecl

variable {imports : List Import} {node : ClassDecl}

/-- A frozen class is refused as a whole. -/
theorem resolve_of_frozen (frozen : node.editable = false) :
    (node.resolve imports).node = node ∧
      (node.resolve imports).outcome = .error ⟨node.name⟩ := by
  rw [resolve, if_neg (by simp [frozen])]
  exact ⟨rfl, rfl⟩

/-- A pass that is stopped ends with the fault that stopped it. -/
theorem resolve_outcome_of_stopped {fault : FrozenClass} (editable : node.editable = true)
    (stopped : (Pass.member imports node.name (Member.ofClass node) {}).2.stopped = some fault) :
    (node.resolve imports).outcome = .error fault := by
  simp only [Member.ofClass, Pass.member] at stopped
  simp only [resolve, editable, if_true, stopped]

/-- A pass over a class that can be changed is a sweep of its sites. -/
theorem sweeps_resolve (imports : List Import) (editable : node.editable = true) :
    Sweeps imports node.sites (node.resolve imports).node.sites {}
      (Pass.member imports node.name (Member.ofClass node) {}).2 := by
  have swept : Sweeps imports node.sites _ {} _ :=
    Sweeps.member node.name (Member.ofClass node) {}
  rw [← resolve_node node editable] at swept
  exact swept

/-- Without a site that blocks it a pass over a class that can be changed names all sites. -/
theorem resolve_of_clear (editable : node.editable = true)
    (clear : ∀ site ∈ node.sites, ¬ site.node.Blocks imports) :
    (node.resolve imports).node.sites = node.sites.map (Site.named imports) ∧
      ∃ report, (node.resolve imports).outcome = .ok report := by
  obtain ⟨named, finished⟩ := (sweeps_resolve imports editable).of_clear rfl clear
  exact ⟨named, _, resolve_outcome node editable finished⟩

/-- With such a site it stops at the first one. -/
theorem resolve_of_blocked {before after : List Site} {site : Site}
    (editable : node.editable = true) (split : node.sites = before ++ site :: after)
    (clear : ∀ other ∈ before, ¬ other.node.Blocks imports) (blocks : site.node.Blocks imports) :
    (node.resolve imports).outcome = .error ⟨site.className⟩ ∧
      (node.resolve imports).node.sites = before.map (Site.named imports) ++ site :: after := by
  have swept := sweeps_resolve imports editable
  rw [split] at swept
  obtain ⟨halfDone, stopped⟩ := swept.of_blocked rfl clear blocks
  exact ⟨resolve_outcome_of_stopped editable stopped, halfDone⟩

/-- A pass fails on exactly the classes that are frozen or hold a site that blocks it. -/
theorem resolve_fails_iff :
    (∃ fault, (node.resolve imports).outcome = .error fault) ↔
      node.editable = false ∨ ∃ site ∈ node.sites, site.node.Blocks imports := by
  constructor
  · rintro ⟨fault, failed⟩
    by_cases editable : node.editable = true
    · by_cases blocked : ∃ site ∈ node.sites, site.node.Blocks imports
      · exact .inr blocked
      · obtain ⟨-, report, succeeded⟩ :=
          resolve_of_clear editable fun site mem blocks => blocked ⟨site, mem, blocks⟩
        cases failed.symm.trans succeeded
    · exact .inl (by simpa using editable)
  · intro faulty
    by_cases editable : node.editable = true
    · obtain ⟨before, site, after, split, clear, blocks⟩ :=
        exists_first_blocks (faulty.resolve_left (by simp [editable]))
      exact ⟨_, (resolve_of_blocked editable split clear blocks).1⟩
    · exact ⟨_, (resolve_of_frozen (by simpa using editable)).2⟩

/-- How a pass over a class fails, and what it leaves behind then. -/
structure Halts (imports : List Import) (node : ClassDecl) : Prop where
  fails_iff : (∃ fault, (node.resolve imports).outcome = .error fault) ↔
    node.editable = false ∨ ∃ site ∈ node.sites, site.node.Blocks imports
  frozen : node.editable = false →
    (node.resolve imports).node = node ∧ (node.resolve imports).outcome = .error ⟨node.name⟩
  /-- At the first site that blocks the pass, the fault names the class around it. What is in front
  of that site is named, and the rest is as it was. -/
  stops : ∀ before site after, node.editable = true → node.sites = before ++ site :: after →
    (∀ other ∈ before, ¬ other.node.Blocks imports) → site.node.Blocks imports →
      (node.resolve imports).outcome = .error ⟨site.className⟩ ∧
        (node.resolve imports).node.sites = before.map (Site.named imports) ++ site :: after
  /-- A pass that succeeds names all sites in the same way. -/
  sites_ok : ∀ report, (node.resolve imports).outcome = .ok report →
    (node.resolve imports).node.sites = node.sites.map (Site.named imports)
  /-- Apart from canonical names nothing changes. -/
  unnamed : (node.resolve imports).node.unnamed = node.unnamed

/-- In a tree that mixes what is frozen with what is not, a pass fails for no other reason than the
class itself or a site that blocks it. It stops right at the first of these sites. -/
theorem halts (imports : List Import) (node : ClassDecl) : Halts imports node where
  fails_iff := resolve_fails_iff
  frozen := resolve_of_frozen
  stops _ _ _ := resolve_of_blocked
  sites_ok report succeeded := by
    have passes : ¬ (node.editable = false ∨ ∃ site ∈ node.sites, site.node.Blocks imports) := by
      rw [← resolve_fails_iff, succeeded]
      rintro ⟨fault, failed⟩
      cases failed
    rw [not_or, Bool.not_eq_false] at passes
    exact (resolve_of_clear passes.1 fun site mem blocks => passes.2 ⟨site, mem, blocks⟩).1
  unnamed := by
    by_cases editable : node.editable = true
    · exact unnamed_resolve imports node editable
    · rw [(resolve_of_frozen (by simpa using editable)).1]

/-- A class whose first nested class has a frozen annotation, followed by a class that can be
changed throughout. -/
def mixedSample : ClassDecl :=
  let front := annotatedSample.mapAnnotations fun node =>
    { node with editable := node.name ≠ "a.B".toList }
  { front with members := front.members ++ [Member.ofClass annotatedSample] }

/-- The pass names the annotations of the outer class and stops in the nested one. -/
theorem halts_mixedSample :
    (mixedSample.resolve [⟨"x.Nullable".toList, false, false, true⟩]).outcome =
        .error ⟨['D']⟩ ∧
      (mixedSample.resolve [⟨"x.Nullable".toList, false, false, true⟩]).node.sites =
        (mixedSample.sites.take 2).map
            (Site.named [⟨"x.Nullable".toList, false, false, true⟩]) ++
          mixedSample.sites.drop 2 :=
  (halts [⟨"x.Nullable".toList, false, false, true⟩] mixedSample).stops
    (mixedSample.sites.take 2) (mixedSample.sites.get ⟨2, by decide⟩) (mixedSample.sites.drop 3)
    rfl rfl (by decide +kernel) (by decide +kernel)

end ClassDecl

end JavaUnit
