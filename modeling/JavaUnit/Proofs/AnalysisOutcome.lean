/-
Module: JavaUnit.Proofs.AnalysisOutcome
Purpose: What analysing a source text can come to. It fails exactly if the text cannot be read, for
  a class that was just read has nothing frozen in it that validation could run into; and the
  options decide about canonical names and freezing, but not about the text.
Main exports: parseFile, ClassDecl.holds_of_mem_sites, AnalysisOptions.finish_of_fresh,
  analyze_outcome
-/
import JavaUnit.Analysis
import JavaUnit.Proofs.Freezing

namespace JavaUnit

/-! ### Annotation sites -/

/-- Where a site of an annotation stands, the tree holds the annotation. -/
theorem Node.holds_of_mem_sitesIn {className : Text} {annotations : List Annotation} {node : Node}
    (owned : ∀ used ∈ annotations, .annotationUse used ∈ node.owned) {site : Site}
    (h : site ∈ sitesIn className annotations) : node.Holds (.annotationUse site.node) := by
  obtain ⟨used, mem, rfl⟩ := List.mem_map.1 h
  exact .single (owned used mem)

namespace Member

mutual

theorem holds_of_mem_sites {className : Text} {site : Site} :
    ∀ {node : Member}, site ∈ node.sites className → (Node.member node).Holds (.annotationUse site.node)
  | .field node, h =>
      Node.holds_of_mem_sitesIn (fun used mem => by simp [Node.owned, owned, Lead.owned, mem]) h
  | .method node, h =>
      Node.holds_of_mem_sitesIn (fun used mem => by
        rcases List.mem_append.1 mem with front | inside
        · simp [Node.owned, owned, Method.owned, Lead.owned, front]
        · exact List.mem_append_right _ (List.mem_map_of_mem inside)) h
  | .classDecl head members, h => by
      rw [sites] at h
      rcases List.mem_append.1 h with front | inside
      · refine Node.holds_of_mem_sitesIn (fun used mem => ?_) front
        exact ClassDecl.mem_owned.2 (.inl (by simp [Lead.owned, mem]))
      · obtain ⟨member, mem, holds⟩ := holds_of_mem_sitesEach inside
        refine .head ?_ holds
        exact ClassDecl.mem_owned.2 (.inr (.inr (.inr (.inr (.inr ⟨member, mem, rfl⟩)))))
  | .staticBlock _, h => absurd h List.not_mem_nil
  | .comment _, h => absurd h List.not_mem_nil

theorem holds_of_mem_sitesEach {className : Text} {site : Site} :
    ∀ {list : List Member}, site ∈ sitesEach className list →
      ∃ member ∈ list, (Node.member member).Holds (.annotationUse site.node)
  | [], h => absurd h List.not_mem_nil
  | member :: rest, h => by
      rw [sitesEach] at h
      rcases List.mem_append.1 h with here | later
      · exact ⟨member, .head _, holds_of_mem_sites here⟩
      · obtain ⟨other, mem, holds⟩ := holds_of_mem_sitesEach later
        exact ⟨other, .tail _ mem, holds⟩

end

end Member

namespace ClassDecl

variable {node : ClassDecl}

theorem holds_of_mem_sites {site : Site} (h : site ∈ node.sites) :
    (Node.classDecl node).Holds (.annotationUse site.node) := by
  -- As a member the class owns what it owns on its own.
  rcases (Member.holds_of_mem_sites h).cases_head with same | ⟨part, owns, holds⟩
  · cases same
  · exact .head (show (Node.classDecl node).Owns part from owns) holds

/-! ### Validation -/

/-- Validating a class that is editable throughout succeeds. The class keeps its text and stays
editable throughout. -/
theorem resolve_of_editable (imports : List Import)
    (h : (Node.classDecl node).Throughout fun part => part.editable = true) :
    (∃ report, (node.resolve imports).outcome = .ok report) ∧
      (node.resolve imports).node.render = node.render ∧
      (Node.classDecl (node.resolve imports).node).Throughout fun part => part.editable = true := by
  have editable : node.editable = true := h _ .refl
  obtain ⟨report, outcome, -⟩ := visitedEach_resolve imports node editable
    fun site mem => h _ (holds_of_mem_sites mem)
  have unnamed := unnamed_resolve imports node editable
  refine ⟨⟨report, outcome⟩, ?_, ?_⟩
  · rw [← render_unnamed, unnamed, render_unnamed]
  · rw [← Node.throughout_unnamed (P := (· = true))] at h ⊢
    rwa [Node.mapAnnotations_resolve imports editable]

end ClassDecl

/-! ### Analysis -/

/-- Reads a source text from its first token on as a file. -/
def parseFile (name source : Text) : Except Problem ClassDecl := do
  let stream ← TokenStream.make name source
  let (node, _) ← Entry.file.parseAt stream 0
  return node

theorem Entry.read_map {entry : Entry α} {f : α → β} {tokens rest : List Token} {node : α}
    (h : entry.read tokens = .ok (node, rest)) : (entry.map f).read tokens = .ok (f node, rest) := by
  obtain ⟨skipped, reads⟩ := Entry.read_eq_ok_iff.1 h
  exact Entry.read_eq_ok_iff.2 ⟨skipped, Reading.reads_map.2 ⟨node, reads, rfl⟩⟩

theorem exists_read_of_parseFile {name source : Text} {node : ClassDecl}
    (h : parseFile name source = .ok node) :
    ∃ tokens rest, Goal.file.entry.read tokens = .ok (.classDecl node, rest) := by
  obtain ⟨stream, -, h⟩ := bind_eq_ok_iff.1 h
  obtain ⟨⟨_, next⟩, parsed, ⟨⟩⟩ := bind_eq_ok_iff.1 h
  obtain ⟨rest, read, -⟩ := Entry.parseAt_eq_ok_iff.1 parsed
  exact ⟨_, rest, Entry.read_map (f := Node.classDecl) read⟩

/-- What has been read as a file is fresh. -/
theorem fresh_of_parseFile {name source : Text} {node : ClassDecl}
    (h : parseFile name source = .ok node) : (Node.classDecl node).Fresh := by
  obtain ⟨tokens, rest, read⟩ := exists_read_of_parseFile h
  exact (Goal.made_of_read read).fresh

/-- An analysis reads the text as a file and goes on from the class. -/
theorem analyze_eq (options : AnalysisOptions) (name source : Text) :
    analyze options name source =
      (parseFile name source >>= fun parsed => (options.finish parsed).1.mapError .frozen) := by
  rw [analyze, parseFile]
  cases TokenStream.make name source with
  | error => rfl
  | ok stream =>
      simp only [bind, Except.bind, analyzeStream, Entry.parseAt, Entry.read,
        TokenStream.startingAt, List.drop_zero]
      cases Entry.file.reading.run stream.tokens <;> rfl

/-- Finishing the analysis of a fresh class succeeds, with all options. -/
theorem AnalysisOptions.finish_of_fresh (options : AnalysisOptions) {parsed : ClassDecl}
    (fresh : (Node.classDecl parsed).Fresh) :
    ∃ analysis, (options.finish parsed).1 = .ok analysis ∧ analysis.unresolved = parsed ∧
      analysis.node.render = parsed.render ∧
      (Node.classDecl analysis.node).Throughout fun part => part.editable = !options.freeze := by
  have editable : (Node.classDecl parsed).Throughout fun part => part.editable = true :=
    fresh.mono fun _ both => both.1
  obtain ⟨report, outcome, same, still⟩ : ∃ report,
      (options.resolution parsed).outcome = .ok report ∧
      (options.resolution parsed).node.render = parsed.render ∧
      (Node.classDecl (options.resolution parsed).node).Throughout
        fun part => part.editable = true := by
    rw [AnalysisOptions.resolution]
    split
    · obtain ⟨⟨report, outcome⟩, same, still⟩ :=
        ClassDecl.resolve_of_editable parsed.imports editable
      exact ⟨report, outcome, same, still⟩
    · exact ⟨{}, rfl, rfl, editable⟩
  simp only [AnalysisOptions.finish, outcome]
  refine ⟨_, rfl, rfl, ?_, ?_⟩
  · cases options.freeze with
    | false => exact same
    | true => exact (Node.render_freeze (.classDecl _)).trans same
  · cases options.freeze with
    | false => exact still
    | true => exact Node.frozen_freeze (.classDecl _)

/-- An analysis fails exactly if its text cannot be read as a file, and as reading it does, whatever
the options. Otherwise it keeps the class as it was read, without canonical names and editable
throughout; the class that it answers with has the same text, and is editable or frozen
throughout as the options say. -/
theorem analyze_outcome (options : AnalysisOptions) (name source : Text) :
    (∀ problem, analyze options name source = .error problem ↔
      parseFile name source = .error problem) ∧
    ∀ analysis, analyze options name source = .ok analysis →
      parseFile name source = .ok analysis.unresolved ∧
      (Node.classDecl analysis.unresolved).Fresh ∧
      analysis.node.render = analysis.unresolved.render ∧
      (Node.classDecl analysis.node).Throughout fun part => part.editable = !options.freeze := by
  rw [analyze_eq]
  cases parsed : parseFile name source with
  | error fault =>
      exact ⟨fun problem => by simp [bind, Except.bind], fun analysis h => by cases h⟩
  | ok node =>
      have fresh := fresh_of_parseFile parsed
      obtain ⟨analysis, finished, rfl, render, editable⟩ := options.finish_of_fresh fresh
      have outcome : (Except.ok analysis.unresolved >>= fun parsed =>
          (options.finish parsed).1.mapError Problem.frozen) = Except.ok analysis :=
        congrArg (Except.mapError Problem.frozen) finished
      rw [outcome]
      refine ⟨fun problem => by simp, fun other h => ?_⟩
      obtain rfl := Except.ok.inj h
      exact ⟨rfl, fresh, render, editable⟩

/-- What an analysis answers with comes about by reading, validating and freezing. -/
theorem AnalysisOptions.reachable_of_finish {options : AnalysisOptions} {parsed : ClassDecl}
    {analysis : Analysis} (h : (options.finish parsed).1 = .ok analysis)
    (from_ : Reachable (.classDecl parsed)) : Reachable (.classDecl analysis.node) := by
  have resolved : Reachable (.classDecl (options.resolution parsed).node) := by
    rw [AnalysisOptions.resolution]
    split
    · exact from_.validate parsed.imports
    · exact from_
  rw [AnalysisOptions.finish] at h
  cases outcome : (options.resolution parsed).outcome with
  | error => simp [outcome] at h
  | ok report =>
      simp only [outcome, Except.ok.injEq] at h
      rw [← h]
      dsimp only
      split
      · exact resolved.freeze
      · exact resolved

/-- Both classes of an analysis come about so. -/
theorem reachable_of_analyze {options : AnalysisOptions} {name source : Text} {analysis : Analysis}
    (h : analyze options name source = .ok analysis) :
    Reachable (.classDecl analysis.unresolved) ∧ Reachable (.classDecl analysis.node) := by
  rw [analyze_eq] at h
  obtain ⟨node, parsed, h⟩ := bind_eq_ok_iff.1 h
  obtain ⟨tokens, rest, read⟩ := exists_read_of_parseFile parsed
  obtain ⟨answer, finished, rfl, -, -⟩ := options.finish_of_fresh (fresh_of_parseFile parsed)
  rw [finished] at h
  obtain rfl : answer = analysis := Except.ok.inj h
  exact ⟨.read read, options.reachable_of_finish finished (.read read)⟩

/-- A file with an annotation that an import names and one that none does. -/
def analyzedSample : Text :=
  "import a.B;\n\n@B class C \x7b\n    void f(@D int x) \x7b \x7d\n\x7d".toList

theorem analyze_outcome_analyzedSample :
    ∃ analysis, analyze ⟨true, true⟩ [] analyzedSample = .ok analysis ∧
      analysis.report = ⟨1, ["D".toList]⟩ ∧
      parseFile [] analyzedSample = .ok analysis.unresolved ∧
      (Node.classDecl analysis.unresolved).Fresh ∧
      analysis.node.render = analysis.unresolved.render ∧
      (Node.classDecl analysis.node).Throughout fun part => part.editable = false := by
  have reports : (analyze ⟨true, true⟩ [] analyzedSample).toOption.map Analysis.report =
      some ⟨1, ["D".toList]⟩ := by decide +kernel
  obtain ⟨analysis, is, report⟩ := Option.map_eq_some_iff.1 reports
  have analyzed := eq_ok_of_toOption is
  exact ⟨analysis, analyzed, report,
    (analyze_outcome ⟨true, true⟩ [] analyzedSample).2 analysis analyzed⟩

end JavaUnit
