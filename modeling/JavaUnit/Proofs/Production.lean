/-
Module: JavaUnit.Proofs.Production
Purpose: Builder code determines the rendering of whatever reading and the builders produce. A
  comment is produced as lines, whether it is read or given text by text, and nothing that is done
  to a tree afterwards touches its comments: they are only moved around as they are. So every tree
  that a program comes by is told by its code.
Main exports: Produced, Produced.lined, builderCode_determines_render
-/
import JavaUnit.Proofs.CodeDetermines
import JavaUnit.Proofs.Freezing

namespace JavaUnit

/-- The nodes that reading and the builders produce, and what can be done to them. -/
inductive Produced : Node → Prop where
  | read {goal : Goal} {tokens rest : List Token} {node : Node}
      (read : goal.entry.read tokens = .ok (node, rest)) : Produced node
  /-- A comment is built of the texts that it is given, one after another. -/
  | comment {style : CommentStyle} {texts : List Text} {node : Comment}
      (built : (texts.foldl CommentDraft.addText { style }).build = .ok node) :
      Produced (.comment node)
  /-- A comment may start as a copy. -/
  | commentCopy {origin node : Comment} {texts : List Text} (from_ : Produced (.comment origin))
      (built : (texts.foldl CommentDraft.addText (.ofNode origin)).build = .ok node) :
      Produced (.comment node)
  /-- The drafts of all other nodes may hold any texts, and parts from anywhere. -/
  | built {node : Node} (built : Built node) (other : node.kind ≠ .comment)
      (parts : ∀ part ∈ node.owned, Produced part) : Produced node
  | part {node part : Node} (from_ : Produced node) (owns : node.Owns part) : Produced part
  | member {node : Member} (from_ : Produced node.toNode) : Produced (.member node)
  | ofMember {node : Member} (from_ : Produced (.member node)) : Produced node.toNode
  | freeze {node : Node} (from_ : Produced node) : Produced node.freeze
  | set {node : Node} {parts : List Node} {outcome : Except BuildError Node}
      (from_ : Produced node) (given : ∀ part ∈ parts, Produced part)
      (call : node.Sets parts outcome) : Produced (node.after outcome)
  | validate {node : ClassDecl} (from_ : Produced (.classDecl node)) (imports : List Import) :
      Produced (.classDecl (node.resolve imports).node)

/-! ### Comments stay what they are -/

theorem CommentDraft.plain_foldl_addText {draft : CommentDraft}
    (plain : ∀ line ∈ draft.lines, '\n' ∉ line) (texts : List Text) :
    ∀ line ∈ (texts.foldl addText draft).lines, '\n' ∉ line := by
  intro line mem
  rw [foldl_addText] at mem
  rcases List.mem_append.1 mem with own | added
  · exact plain line own
  · obtain ⟨text, -, listed⟩ := List.mem_flatMap.1 added
    exact (plain_of_mem_trimmedLines listed).1

namespace Node

theorem throughout_lined_comment {node : Comment} :
    (Node.comment node).Throughout Lined ↔ node.Lined := by
  rw [throughout_iff]
  exact and_iff_left (List.forall_mem_nil _)

theorem throughout_lined_member {node : Member} :
    (Node.member node).Throughout Lined ↔ node.toNode.Throughout Lined := by
  have root : (Node.member node).Lined ↔ node.toNode.Lined := by
    cases node <;> exact Iff.rfl
  rw [throughout_iff, throughout_iff, root, Member.owned_toNode]
  rfl

theorem lined_freeze (node : Node) : node.freeze.Lined ↔ node.Lined := by
  have same : ∀ node : Comment, node.freeze.Lined ↔ node.Lined :=
    fun _ => ⟨fun h => ⟨h.plain, h.some⟩, fun h => ⟨h.plain, h.some⟩⟩
  cases node with
  | comment node => exact same node
  | member node =>
      cases node with
      | comment node => exact same node
      | _ => exact Iff.rfl
  | _ => exact Iff.rfl

theorem lined_mapAnnotations (f : Annotation → Annotation) (node : Node) :
    (node.mapAnnotations f).Lined ↔ node.Lined := by
  cases node with
  | member node => cases node <;> exact Iff.rfl
  | _ => exact Iff.rfl

/-- No setter changes a comment. -/
theorem Sets.lined {node changed : Node} {parts : List Node}
    (call : node.Sets parts (.ok changed)) : changed.Lined := by
  generalize comes : Except.ok changed = outcome at call
  cases call with
  | canonicalName node name =>
      cases set : node.setCanonicalName name <;> rw [set] at comes <;> cases comes
      trivial
  | field node edit =>
      cases set : edit.onField node <;> rw [set] at comes <;> cases comes
      trivial
  | method node edit =>
      cases set : edit.onMethod node <;> rw [set] at comes <;> cases comes
      trivial
  | classDecl node edit =>
      cases set : edit.apply node <;> rw [set] at comes <;> cases comes
      trivial

end Node

/-- Writing canonical names leaves the comments of a class as they are. -/
theorem ClassDecl.lined_resolve {node : ClassDecl} (imports : List Import)
    (h : (Node.classDecl node).Throughout Node.Lined) :
    (Node.classDecl (node.resolve imports).node).Throughout Node.Lined := by
  have unnamed : ∀ node : Node, (node.mapAnnotations Annotation.unnamed).Throughout Node.Lined ↔
      node.Throughout Node.Lined := by
    intro node
    rw [Node.throughout_map (Node.owned_mapAnnotations _)]
    simp only [Node.lined_mapAnnotations]
  by_cases editable : node.editable = true
  · rwa [← unnamed, Node.mapAnnotations_resolve imports editable, unnamed]
  · have same : (node.resolve imports).node = node := by simp [resolve, editable]
    rwa [same]

/-! ### What is produced -/

/-- Whatever reading makes holds only comments that are made of lines. -/
theorem Made.throughout_lined {node : Node} (h : Made node) : node.Throughout Node.Lined := by
  intro part holds
  have made := h.of_holds holds
  cases part with
  | comment node => exact made.lined
  | member node =>
      cases node with
      | comment node => exact (Made.member_iff.1 made).lined
      | _ => trivial
  | _ => trivial

namespace Produced

variable {node other : Node}

/-- Every comment in what is produced is made of lines. -/
theorem lined (h : Produced node) : node.Throughout Node.Lined := by
  have comment : ∀ {draft : CommentDraft} {node : Comment},
      (∀ line ∈ draft.lines, '\n' ∉ line) → draft.build = .ok node →
      (Node.comment node).Throughout Node.Lined :=
    fun plain built => Node.throughout_lined_comment.2 (CommentDraft.lined_of_build plain built)
  induction h with
  | read read => exact (Goal.made_of_read read).throughout_lined
  | @comment style texts node built =>
      have empty : ∀ line ∈ ({ style } : CommentDraft).lines, '\n' ∉ line := nofun
      exact comment (CommentDraft.plain_foldl_addText empty texts) built
  | @commentCopy origin node texts _ built ih =>
      have copied : ∀ line ∈ (CommentDraft.ofNode origin).lines, '\n' ∉ line :=
        (Node.throughout_lined_comment.1 ih).plain
      exact comment (CommentDraft.plain_foldl_addText copied texts) built
  | built built other _ ih =>
      refine Node.throughout_iff.2 ⟨?_, ih⟩
      cases built with
      | comment => exact absurd rfl other
      | _ => trivial
  | part _ owns ih => exact (Node.throughout_iff.1 ih).2 _ owns
  | member _ ih => exact Node.throughout_lined_member.2 ih
  | ofMember _ ih => exact Node.throughout_lined_member.1 ih
  | freeze _ ih =>
      rw [Node.throughout_map Node.owned_freeze]
      simpa only [Node.lined_freeze] using ih
  | @set node parts outcome _ _ call ih given =>
      cases outcome with
      | error => exact ih
      | ok changed =>
          refine Node.throughout_iff.2 ⟨call.lined, fun part mem => ?_⟩
          exact (call.changed.2 part mem).elim ((Node.throughout_iff.1 ih).2 part) (given part)
  | validate _ imports ih => exact ClassDecl.lined_resolve imports ih

end Produced

/-- Builder code determines the node: produced nodes with the same code are of one kind and are
rendered alike. -/
theorem builderCode_determines_render {node other : Node} (produced : Produced node)
    (produced' : Produced other) (same : node.builderCode = other.builderCode) :
    node.kind = other.kind ∧ node.render = other.render :=
  ⟨Node.kind_of_builderCode same, Node.render_of_builderCode produced.lined produced'.lined same⟩

/-- The draft of a class behind a comment of two paragraphs and an annotation. -/
def codeSample (canonicalName : Text) : ClassDraft where
  sectionComment := some ⟨.block, [['a'], [], [' ', '"']], true⟩
  annotations := [{ name := ['A'], canonicalName, params := [] }]
  name := some ['C']

/-- What does not show in the code does not show in the text either: a blank canonical name, and
that a tree is frozen. -/
theorem builderCode_determines_render_codeSample :
    Produced (.classDecl (codeSample []).node) ∧
    Produced (Node.classDecl (codeSample [' ']).node).freeze ∧
    (Node.classDecl (codeSample []).node).builderCode =
      (Node.classDecl (codeSample [' ']).node).freeze.builderCode ∧
    (Node.classDecl (codeSample []).node).render =
      (Node.classDecl (codeSample [' ']).node).freeze.render := by
  have comment : Produced (.comment ⟨.block, [['a'], [], [' ', '"']], true⟩) :=
    @Produced.comment .block [['a', '\n', '\n', ' ', '"']] _ (by decide +kernel)
  have used : Produced (.annotationUse { name := ['A'], params := [] }) :=
    .built (@Built.annotationUse { name := some ['A'] } _ (by decide)) nofun
      (List.forall_mem_nil _)
  have blank : Produced (.annotationUse { name := ['A'], canonicalName := [' '], params := [] }) :=
    used.set (List.forall_mem_nil _) (.canonicalName _ [' '])
  have produced : ∀ name,
      Produced (.annotationUse { name := ['A'], canonicalName := name, params := [] }) →
      (codeSample name).defects = [] → Produced (.classDecl (codeSample name).node) := by
    intro name part clean
    refine .built (.classDecl (settle_eq_ok_iff.2 ⟨clean, rfl⟩)) nofun fun other mem => ?_
    have parts : (Node.classDecl (codeSample name).node).owned =
        [.comment ⟨.block, [['a'], [], [' ', '"']], true⟩,
          .annotationUse { name := ['A'], canonicalName := name, params := [] }] := rfl
    rw [parts] at mem
    rcases List.mem_cons.1 mem with rfl | mem
    · exact comment
    · exact List.mem_singleton.1 mem ▸ part
  have plain := produced [] used (by decide)
  have named := (produced [' '] blank (by decide)).freeze
  have same : (Node.classDecl (codeSample []).node).builderCode =
      (Node.classDecl (codeSample [' ']).node).freeze.builderCode := by decide +kernel
  exact ⟨plain, named, same, (builderCode_determines_render plain named same).2⟩

end JavaUnit
