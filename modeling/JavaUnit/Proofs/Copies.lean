/-
Module: JavaUnit.Proofs.Copies
Purpose: A draft that starts from a node and is built as it stands gives the node back, if building
  leaves the texts of the node as they are. Whatever else building asks for, a node that was built
  or read has it. Comments, Javadoc, names and the lines of blocks stay; types, annotation values and
  initializers are spelled again, and that may change them: the first line of an initializer is
  taken for what shares a line with the equals sign.
Main exports: Copied, Node.Normal, Built.copied_iff, Made.copied_iff, Node.copied_iff_normal,
  Text.blockText_blockText_iff, FieldDraft.copied_iff_flush
-/
import JavaUnit.Proofs.Origins
import JavaUnit.Proofs.Statements

namespace JavaUnit

open Text

/-! ### Modifiers -/

namespace Modifier

/-- Modifiers are reported as repeated unless they differ from each other and from the earlier
ones. -/
theorem repeatsAfter_eq_nil_iff {earlier given : List Modifier} :
    repeatsAfter earlier given = [] ↔ given.Nodup ∧ ∀ m ∈ given, m ∉ earlier := by
  induction given generalizing earlier with
  | nil => simp [repeatsAfter]
  | cons m rest ih =>
      rw [repeatsAfter]
      split
      · next again => simp [again]
      · next first =>
          rw [ih, List.nodup_cons]
          constructor
          · rintro ⟨distinct, apart⟩
            refine ⟨⟨fun mem => apart m mem List.mem_cons_self, distinct⟩, ?_⟩
            rintro m' mem
            rcases List.mem_cons.1 mem with rfl | mem
            · exact first
            · exact fun old => apart m' mem (List.mem_cons_of_mem _ old)
          · rintro ⟨⟨alone, distinct⟩, apart⟩
            refine ⟨distinct, fun m' mem => ?_⟩
            rw [List.mem_cons, not_or]
            exact ⟨fun same => alone (same ▸ mem), apart m' (List.mem_cons_of_mem _ mem)⟩

theorem length_visibilities_le_one {given : List Modifier} :
    (visibilities given).length ≤ 1 ↔
      ∀ left ∈ given, ∀ right ∈ given, left.isVisibility = true → right.isVisibility = true →
        left = right := by
  have each : ∀ m, m ∈ given.filter isVisibility ↔ m ∈ given ∧ m.isVisibility = true :=
    fun m => List.mem_filter
  rw [visibilities]
  generalize given.filter isVisibility = visible at each
  have all : visible.eraseDups.length ≤ 1 ↔ ∀ left ∈ visible, ∀ right ∈ visible, left = right := by
    cases visible with
    | nil => simp
    | cons m rest =>
        have none : (rest.filter fun other => !other == m).eraseDups.length = 0 ↔
            ∀ other ∈ rest, other = m := by
          rw [List.length_eq_zero_iff, List.eq_nil_iff_forall_not_mem]
          simp [List.mem_eraseDups]
        rw [List.eraseDups_cons, List.length_cons, Nat.succ_le_succ_iff, Nat.le_zero, none]
        constructor
        · intro same left mem right mem'
          have own : ∀ other ∈ m :: rest, other = m := by simpa using same
          rw [own left mem, own right mem']
        · exact fun same other mem => same other (List.mem_cons_of_mem _ mem) m List.mem_cons_self
  rw [all]
  constructor
  · exact fun same left mem right mem' seen seen' =>
      same left ((each left).2 ⟨mem, seen⟩) right ((each right).2 ⟨mem', seen'⟩)
  · exact fun same left mem right mem' =>
      same left ((each left).1 mem).1 right ((each right).1 mem').1 ((each left).1 mem).2
        ((each right).1 mem').2

end Modifier

/-- Modifiers that were accepted as a list are accepted as a set. -/
theorem modifierDefects_ofList {kind : NodeKind} {allowed given : List Modifier}
    (clean : modifierDefects kind allowed given = []) :
    modifierDefects kind allowed (Modifiers.ofList given).toList = [] := by
  rw [modifierDefects, modifierRunDefects, List.append_eq_nil_iff, List.append_eq_nil_iff,
    requirement_eq_nil, decide_eq_true_iff] at clean ⊢
  obtain ⟨⟨-, visible⟩, known⟩ := clean
  refine ⟨⟨?_, ?_⟩, ?_⟩
  · rw [List.map_eq_nil_iff, Modifier.repeats, Modifier.repeatsAfter_eq_nil_iff]
    refine ⟨?_, fun _ _ => List.not_mem_nil⟩
    have distinct : Modifier.all.Nodup := by decide
    rw [(Modifiers.ofList given).canonical]
    exact List.Pairwise.filter _ distinct
  · rw [Modifier.length_visibilities_le_one] at visible ⊢
    exact fun left mem right mem' =>
      visible left (Modifiers.mem_ofList.1 mem) right (Modifiers.mem_ofList.1 mem')
  · rwa [Modifiers.ofList_toList]

/-- Conflicts between modifiers do not depend on the order in which they are given. -/
theorem conflictDefects_ofList (given : List Modifier) (left : Modifier) (others : List Modifier) :
    conflictDefects (Modifiers.ofList given).toList left others =
      conflictDefects given left others := by
  simp [conflictDefects]

/-! ### Texts that are spelled again -/

theorem map_eq_self_iff {f : α → α} {list : List α} :
    list.map f = list ↔ ∀ x ∈ list, f x = x := by
  have same := @List.map_inj_left _ _ list f id
  rwa [List.map_id] at same

theorem option_map_eq_self_iff {f : α → α} {value : Option α} :
    value.map f = value ↔ ∀ x ∈ value, f x = x := by
  cases value <;> simp

/-- The types and type parameters that a method holds as text. -/
def Method.types (node : Method) : List Text :=
  node.typeParameters.toList ++ node.returnType.toList ++ node.parameters.map (·.type)
    ++ node.throws

/-- The types and type parameters that a class holds as text. -/
def ClassDecl.types (node : ClassDecl) : List Text :=
  node.typeParameters.toList ++ node.superclass.toList ++ node.interfaces

/-- Whether the texts of a node have the spelling that building gives them. -/
def Node.Normal : Node → Prop
  | .annotationUse node => ∀ param ∈ node.params, collapseWhitespace param.value = some param.value
  | .field node =>
    normalizeType node.type = some node.type ∧ ∀ value ∈ node.value, blockText value = value
  | .method node => ∀ text ∈ node.types, normalizeType text = some text
  | .classDecl node => ∀ text ∈ node.types, normalizeType text = some text
  | _ => True

/-- White space is cut into white space. -/
theorem Cuts.isWhitespace_of_isBlank {text rest : Text} {tokens : List Token}
    (h : Cuts text tokens rest) (blank : text.isBlank = true) :
    ∀ token ∈ tokens, token.isWhitespace = true := by
  induction h with
  | nil => exact fun _ mem => absurd mem List.not_mem_nil
  | @cons text token mid tokens rest head tail ih =>
      rw [head.text_eq, isBlank_append, Bool.and_eq_true] at blank
      rintro token' mem
      rcases List.mem_cons.1 mem with rfl | mem
      · obtain ⟨c, more, same⟩ := List.exists_cons_of_ne_nil head.text_ne_nil
        have start : isBlank c = true := isBlank_iff.1 blank.1 c (by simp [same])
        have kind := head.whitespace_of_blank (by simp [head.text_eq, same, start])
        simp [Token.isWhitespace, kind]
      · exact ih blank.2 token' mem

/-- A type that has a spelling is not blank. -/
theorem given_of_normalizeType {text spelled : Text} (h : normalizeType text = some spelled) :
    given (some text) = true := by
  by_contra blank
  have blank : text.isBlank = true := by simpa [given] using blank
  rw [normalizeType] at h
  cases lexed : lex text with
  | error => simp [lexed] at h
  | ok tokens =>
      obtain ⟨lexemes, rfl, cuts⟩ := lexed_iff_cuts.1 (lex_eq_ok_iff.1 lexed)
      have insignificant : significantTokens (lexemes ++ [Token.endOfInput]) = [] := by
        rw [significantTokens, List.filter_eq_nil_iff]
        intro token mem
        rcases List.mem_append.1 mem with inside | last
        · simp [cuts.isWhitespace_of_isBlank blank token inside, Token.isTrivia]
        · simp [List.mem_singleton.1 last, Token.endOfInput, Token.isEnd]
      simp [lexed, insignificant, joinTokens] at h

-- Spelling a type can join tokens that begin a comment.
example : normalizeType "a / / b".toList = some "a//b".toList ∧
    normalizeType "a//b".toList = some ['a'] := by
  decide +kernel

/-! ### Copies -/

/-- A draft that starts from the node, built as it stands, gives the node back. -/
inductive Copied : Node → Prop where
  | packageStatement {node : Package} (built : (PackageDraft.ofNode node).build = .ok node) :
      Copied (.packageStatement node)
  | importStatement {node : Import} (built : (ImportDraft.ofNode node).build = .ok node) :
      Copied (.importStatement node)
  | annotationUse {node : Annotation} (built : (AnnotationDraft.ofNode node).build = .ok node) :
      Copied (.annotationUse node)
  | javadoc {node : Javadoc} (built : (JavadocDraft.ofNode node).build = .ok node) :
      Copied (.javadoc node)
  | comment {node : Comment} (built : (CommentDraft.ofNode node).build = .ok node) :
      Copied (.comment node)
  | field {node : Field} (built : (FieldDraft.ofNode node).build = .ok node) :
      Copied (.field node)
  | method {node : Method} (built : (MethodDraft.ofNode node).build = .ok node) :
      Copied (.method node)
  | staticBlock {node : StaticBlock} (built : (StaticBlockDraft.ofNode node).build = .ok node) :
      Copied (.staticBlock node)
  | classDecl {node : ClassDecl} (built : (ClassDraft.ofNode node).build = .ok node) :
      Copied (.classDecl node)

/-! ### Names, comments and blocks -/

theorem Package.build_ofNode {node : Package} (canonical : node.Canonical) :
    (PackageDraft.ofNode node).build = .ok node := by
  obtain ⟨name, editable⟩ := node
  obtain ⟨known, rfl⟩ := canonical
  obtain ⟨present, rule⟩ := @clean_qualifiedName .packageStatement _ known
  refine settle_eq_ok_iff.2 ⟨?_, rfl⟩
  rw [PackageDraft.defects, PackageDraft.ofNode, present, rule]
  rfl

theorem Import.build_ofNode {node : Import} (canonical : node.Canonical) :
    (ImportDraft.ofNode node).build = .ok node := by
  obtain ⟨name, isStatic, isWildcard, editable⟩ := node
  obtain ⟨known, rfl⟩ := canonical
  obtain ⟨present, rule⟩ := @clean_qualifiedName .importStatement _ known
  refine settle_eq_ok_iff.2 ⟨?_, rfl⟩
  rw [ImportDraft.defects, ImportDraft.ofNode, present, rule]
  rfl

/-- Lines that are trimmed, or kept, are so once more. -/
theorem Comment.build_ofNode {draft : CommentDraft} {node : Comment} (h : draft.build = .ok node) :
    (CommentDraft.ofNode node).build = .ok node := by
  obtain ⟨clean, rfl⟩ := settle_eq_ok_iff.1 h
  obtain ⟨starts, ends⟩ := draft.off_lines
  have content : (CommentDraft.ofNode draft.node).content = draft.node.lines :=
    strip_of_off starts ends
  have style : (CommentDraft.ofNode draft.node).style = draft.style := rfl
  refine settle_eq_ok_iff.2 ⟨?_, ?_⟩
  · have single : draft.style = .line → draft.node.lines.length ≤ 1 := by
      intro line
      obtain ⟨f, lines, -⟩ := draft.exists_lines
      rw [CommentDraft.defects, line] at clean
      simpa [lines] using clean
    rw [CommentDraft.defects, content, style]
    cases kind : draft.style with
    | line => simpa using single kind
    | block | doc =>
        refine List.flatMap_eq_nil_iff.2 fun line mem => requirement_eq_nil.2 ?_
        rw [CommentDraft.holdsCloser_of_mem_lines clean (by simp [kind]) mem]
        rfl
  · rw [CommentDraft.node, content]
    cases style : draft.style with
    | line => simp [CommentDraft.ofNode, CommentDraft.node, style]
    | block | doc =>
        rcases own : draft.content with _ | ⟨line, _ | ⟨second, others⟩⟩ <;>
          simp [CommentDraft.ofNode, CommentDraft.node, style, own]

theorem Javadoc.build_ofNode {draft : JavadocDraft} {node : Javadoc} (h : draft.build = .ok node) :
    (JavadocDraft.ofNode node).build = .ok node := by
  obtain ⟨clean, rfl⟩ := settle_eq_ok_iff.1 h
  obtain ⟨starts, ends, -⟩ := strip_spec Text.isBlank draft.description
  have content : (JavadocDraft.ofNode draft.node).content = draft.content := strip_of_off starts ends
  refine settle_eq_ok_iff.2 ⟨?_, ?_⟩
  · rw [JavadocDraft.defects] at clean ⊢
    rw [content]
    exact clean
  · rw [JavadocDraft.node, content]
    rfl

theorem StaticBlock.build_ofNode {draft : StaticBlockDraft} {node : StaticBlock}
    (h : draft.build = .ok node) : (StaticBlockDraft.ofNode node).build = .ok node := by
  obtain ⟨-, rfl⟩ := settle_eq_ok_iff.1 h
  refine settle_eq_ok_iff.2 ⟨rfl, ?_⟩
  have kept : blockLines (blockLines draft.lines) = blockLines draft.lines :=
    blockLines_of_settled (settled_block _)
  exact congrArg (StaticBlock.mk · true) kept

/-! ### Annotations -/

/-- A value passes if something is left of it when it is collapsed. -/
theorem AnnotationDraft.valueDefects_eq_nil_iff {param : AnnotationParam} :
    valueDefects param = [] ↔
      ∃ value, collapseWhitespace param.value = some value ∧ value ≠ [] := by
  rw [valueDefects]
  cases collapseWhitespace param.value <;> simp

/-- An annotation is copied if its values are normal. -/
theorem Annotation.build_ofNode_iff {draft : AnnotationDraft} {node : Annotation}
    (h : draft.build = .ok node) :
    (AnnotationDraft.ofNode node).build = .ok node ↔ (Node.annotationUse node).Normal := by
  obtain ⟨clean, rfl⟩ := settle_eq_ok_iff.1 h
  simp only [AnnotationDraft.defects, List.append_eq_nil_iff, List.flatMap_eq_nil_iff,
    AnnotationDraft.paramDefects] at clean
  obtain ⟨⟨present, known⟩, params⟩ := clean
  obtain ⟨name, named, rule⟩ := exists_name present known
  obtain ⟨present, known⟩ := @clean_qualifiedName .annotationUse name rule
  rw [AnnotationDraft.build, settle_eq_ok_iff]
  constructor
  · rintro ⟨clean, same⟩ param mem
    have same : draft.node.params.map AnnotationDraft.canonicalParam = draft.node.params :=
      congrArg Annotation.params same
    have values := (List.append_eq_nil_iff.1 clean).2
    rw [List.flatMap_eq_nil_iff] at values
    obtain ⟨value, collapsed, -⟩ := AnnotationDraft.valueDefects_eq_nil_iff.1
      (List.append_eq_nil_iff.1 (values param mem)).2
    have kept : AnnotationDraft.canonicalParam param = param :=
      map_eq_self_iff.1 same param mem
    rw [collapsed, ← congrArg AnnotationParam.value kept, AnnotationDraft.canonicalParam, collapsed]
    rfl
  · intro normal
    have kept : draft.node.params.map AnnotationDraft.canonicalParam = draft.node.params := by
      refine map_eq_self_iff.2 fun param mem => ?_
      rw [AnnotationDraft.canonicalParam, normal param mem]
      rfl
    refine ⟨?_, ?_⟩
    · have name' : (AnnotationDraft.ofNode draft.node).name = some name :=
        congrArg (fun given : Option Text => some (given.getD [])) named
      rw [AnnotationDraft.defects, name', present, known, List.nil_append, List.nil_append,
        List.flatMap_eq_nil_iff]
      intro param mem
      obtain ⟨source, listed, rfl⟩ := List.mem_map.1 mem
      obtain ⟨own, value⟩ := params source listed
      obtain ⟨text, collapsed, some⟩ := AnnotationDraft.valueDefects_eq_nil_iff.1 value
      refine List.append_eq_nil_iff.2 ⟨?_, ?_⟩
      · have count : (AnnotationDraft.ofNode draft.node).params.length = draft.params.length :=
          List.length_map _
        rwa [count]
      · refine AnnotationDraft.valueDefects_eq_nil_iff.2 ⟨_, normal _ mem, ?_⟩
        rw [AnnotationDraft.canonicalParam, collapsed]
        exact some
    · exact congrArg (fun params => { draft.node with params }) kept

/-! ### Fields -/

theorem clean_identifier_iff {role : NameRole} {name : Text} :
    requirePart .name (some name) = [] ∧ requireName role isIdentifier (some name) = [] ↔
      isIdentifier name = true := by
  constructor
  · rintro ⟨present, known⟩
    obtain ⟨_, same, rule⟩ := exists_name present known
    rwa [Option.some.inj same]
  · intro rule
    obtain ⟨some, parts⟩ := isWordPart_of_isIdentifier rule
    have present : given (Option.some name) = true := given_of_ink some fun c mem => by
      cases blank : JavaUnit.isBlank c with
      | false => rfl
      | true => rw [← parts c mem, not_isWordPart_of_isBlank blank]
    rw [requirePart, requireName, if_pos present, requirement_eq_nil, requirement_eq_nil]
    exact ⟨present, rule⟩

/-- A text that can be spelled as a type is no defect. -/
theorem typeDefects_of_normalizeType {role : TypeRole} {text spelled : Text}
    (h : normalizeType text = some spelled) : typeDefects role text = [] := by
  rw [typeDefects, h]
  rfl

theorem canonicalType_of_normalizeType {text spelled : Text}
    (h : normalizeType text = some spelled) : canonicalType text = spelled := by
  rw [canonicalType, h]
  rfl

/-- A type that is accepted and stays is spelled as it is. -/
theorem normalizeType_of_canonicalType {role : TypeRole} {text : Text}
    (clean : typeDefects role text = []) (same : canonicalType text = text) :
    normalizeType text = some text := by
  obtain ⟨spelled, is⟩ := Option.isSome_iff_exists.1 (requirement_eq_nil.1 clean)
  rw [is, ← canonicalType_of_normalizeType is, same]

/-- What building asks of a field, the spelling of its texts apart. -/
structure Field.Lawful (node : Field) : Prop where
  plain : node.sectionComment.any Comment.isDoc = false
  modifiers : modifierDefects .field FieldDraft.modifiersAllowed node.modifiers.toList = []
  compatible : conflictDefects node.modifiers.toList .final [.volatile] = []
  name : isIdentifier node.name = true
  value : ∀ value ∈ node.value, value ≠ []
  editable : node.editable = true

/-- What a draft of a field spells again is its type and its value. -/
theorem FieldDraft.node_ofNode_eq_iff {node : Field} :
    (ofNode node).node = node ↔ canonicalType node.type = node.type ∧
      (∀ value ∈ node.value, blockText value = value) ∧ node.editable = true := by
  obtain ⟨lead, type, name, value, editable⟩ := node
  simp only [FieldDraft.node, ofNode, LeadDraft.lead_ofLead, Option.getD_some, Field.mk.injEq,
    true_and, option_map_eq_self_iff, @eq_comm _ true]

theorem Field.lawful_of_build {draft : FieldDraft} {node : Field} (h : draft.build = .ok node) :
    node.Lawful := by
  obtain ⟨clean, rfl⟩ := settle_eq_ok_iff.1 h
  simp only [FieldDraft.defects, List.append_eq_nil_iff, and_assoc] at clean
  obtain ⟨plain, -, present, modifiers, compatible, -, known, value⟩ := clean
  obtain ⟨name, named, rule⟩ := exists_name present known
  refine ⟨LeadDraft.commentDefects_eq_nil_iff.1 plain, modifierDefects_ofList modifiers,
    (conflictDefects_ofList _ _ _).trans compatible, ?_, ?_, rfl⟩
  · rw [FieldDraft.node, named]
    exact rule
  · intro text mem
    obtain ⟨raw, given, rfl⟩ := Option.map_eq_some_iff.1 mem
    simpa [given] using value

/-- A field is built again exactly if it keeps the rules and its texts are normal. -/
theorem Field.build_ofNode_iff {node : Field} :
    (FieldDraft.ofNode node).build = .ok node ↔ node.Lawful ∧ (Node.field node).Normal := by
  constructor
  · intro built
    have lawful := Field.lawful_of_build built
    rw [FieldDraft.build, settle_eq_ok_iff, FieldDraft.node_ofNode_eq_iff] at built
    obtain ⟨clean, same, each, -⟩ := built
    simp only [FieldDraft.defects, List.append_eq_nil_iff, and_assoc] at clean
    obtain ⟨-, type, -, -, -, types, -⟩ := clean
    rw [if_pos (requirement_eq_nil.1 type)] at types
    have types : typeDefects .type node.type = [] := by simpa [FieldDraft.ofNode] using types
    exact ⟨lawful, normalizeType_of_canonicalType types same, each⟩
  · rintro ⟨lawful, spelled, each⟩
    obtain ⟨present, known⟩ := @clean_identifier_iff .field _ |>.2 lawful.name
    have there := given_of_normalizeType spelled
    rw [FieldDraft.build, settle_eq_ok_iff, FieldDraft.node_ofNode_eq_iff]
    refine ⟨?_, canonicalType_of_normalizeType spelled, each, lawful.editable⟩
    simp only [FieldDraft.defects, List.append_eq_nil_iff, List.flatMap_eq_nil_iff,
      Option.mem_toList, and_assoc]
    refine ⟨LeadDraft.commentDefects_eq_nil_iff.2 lawful.plain, requirement_eq_nil.2 there, present,
      lawful.modifiers, lawful.compatible, ?_, known, fun text mem => ?_⟩
    · simp [FieldDraft.ofNode, there, typeDefects_of_normalizeType spelled]
    · simpa [each text mem] using lawful.value text mem

/-! ### Methods -/

/-- Type parameters stand in angle brackets. -/
def IsBracketed (text : Text) : Prop :=
  text.head? = some '<' ∧ text.getLast? = some '>'

theorem bracketed_of_typeParameterDefects {text : Text} (clean : typeParameterDefects text = []) :
    IsBracketed (canonicalType text) := by
  simpa [typeParameterDefects, IsBracketed] using (List.append_eq_nil_iff.1 clean).2

/-- Type parameters that are accepted and stay are spelled as they are, in brackets. -/
theorem bracketed_of_canonicalType {text : Text} (clean : typeParameterDefects text = [])
    (same : canonicalType text = text) : IsBracketed text ∧ normalizeType text = some text :=
  ⟨same ▸ bracketed_of_typeParameterDefects clean,
    normalizeType_of_canonicalType (List.append_eq_nil_iff.1 clean).1 same⟩

theorem typeParameterDefects_of_bracketed {text : Text} (bracketed : IsBracketed text)
    (spelled : normalizeType text = some text) : typeParameterDefects text = [] := by
  simp [typeParameterDefects, typeDefects_of_normalizeType spelled,
    canonicalType_of_normalizeType spelled, bracketed.1, bracketed.2]

/-- Parameters pass one by one, and with names that all differ. -/
theorem MethodDraft.parameterDefects_eq_nil_iff {earlier : List Text}
    {parameters : List Parameter} :
    parameterDefects earlier parameters = [] ↔
      (∀ parameter ∈ parameters, typeDefects .parameterType parameter.type = [] ∧
        isIdentifier parameter.name = true ∧ parameter.name ∉ earlier) ∧
      (parameters.map (·.name)).Nodup := by
  induction parameters generalizing earlier with
  | nil => exact iff_of_true rfl ⟨by simp, List.nodup_nil⟩
  | cons parameter rest ih =>
      show typeDefects .parameterType parameter.type ++ requirement (isIdentifier parameter.name) _
        ++ requirement (decide (parameter.name ∉ earlier)) _
        ++ parameterDefects (parameter.name :: earlier) rest = [] ↔ _
      simp only [List.append_eq_nil_iff, requirement_eq_nil, ih, decide_eq_true_eq, List.mem_cons,
        not_or, List.map_cons, List.nodup_cons, List.mem_map]
      constructor
      · rintro ⟨⟨⟨type, name⟩, new⟩, others, distinct⟩
        refine ⟨?_, ?_, distinct⟩
        · rintro other (rfl | mem)
          · exact ⟨type, name, new⟩
          · obtain ⟨type, name, -, new⟩ := others other mem
            exact ⟨type, name, new⟩
        · rintro ⟨other, mem, same⟩
          exact (others other mem).2.2.1 same
      · rintro ⟨each, alone, distinct⟩
        obtain ⟨type, name, new⟩ := each parameter (.inl rfl)
        refine ⟨⟨⟨type, name⟩, new⟩, fun other mem => ?_, distinct⟩
        obtain ⟨type, name, new⟩ := each other (.inr mem)
        exact ⟨type, name, fun same => alone ⟨other, mem, same⟩, new⟩

/-- What building asks of a method, the spelling of its types apart. -/
structure Method.Lawful (node : Method) : Prop where
  plain : node.sectionComment.any Comment.isDoc = false
  modifiers : modifierDefects .method MethodDraft.modifiersAllowed node.modifiers.toList = []
  compatible : conflictDefects node.modifiers.toList .abstract MethodDraft.neverAbstract = []
  name : isIdentifier node.name = true
  bodiless : node.body.isSome = true →
    Modifier.abstract ∉ node.modifiers.toList ∧ Modifier.native ∉ node.modifiers.toList
  typeParameters : ∀ text ∈ node.typeParameters, IsBracketed text
  parameters : ∀ parameter ∈ node.parameters, isIdentifier parameter.name = true
  distinct : (node.parameters.map (·.name)).Nodup
  body : ∀ lines ∈ node.body, blockLines lines = lines
  editable : node.editable = true

theorem MethodDraft.bodyDefects_eq_nil_iff {draft : MethodDraft} :
    draft.bodyDefects = [] ↔ (draft.body.isSome = true →
      Modifier.abstract ∉ draft.modifiers ∧ Modifier.native ∉ draft.modifiers) := by
  rw [bodyDefects]
  split
  · next there =>
      rw [List.map_eq_nil_iff, List.filter_eq_nil_iff]
      simp [there]
  · next missing => simp [missing]

theorem Method.lawful_of_build {draft : MethodDraft} {node : Method} (h : draft.build = .ok node) :
    node.Lawful := by
  obtain ⟨clean, rfl⟩ := settle_eq_ok_iff.1 h
  simp only [MethodDraft.defects, List.append_eq_nil_iff, and_assoc] at clean
  obtain ⟨plain, present, -, modifiers, compatible, known, body, brackets, -, parameters, -⟩ := clean
  obtain ⟨name, named, rule⟩ := exists_name present known
  obtain ⟨each, distinct⟩ := MethodDraft.parameterDefects_eq_nil_iff.1 parameters
  refine ⟨LeadDraft.commentDefects_eq_nil_iff.1 plain, modifierDefects_ofList modifiers,
    (conflictDefects_ofList _ _ _).trans compatible, ?_, fun there => ?_, fun text mem => ?_,
    fun parameter mem => ?_, ?_, fun lines mem => ?_, rfl⟩
  · rw [MethodDraft.node, named]
    exact rule
  · have there : draft.body.isSome = true := by simpa [MethodDraft.node] using there
    have apart := MethodDraft.bodyDefects_eq_nil_iff.1 body there
    exact ⟨fun mem => apart.1 (Modifiers.mem_ofList.1 mem),
      fun mem => apart.2 (Modifiers.mem_ofList.1 mem)⟩
  · obtain ⟨raw, given, rfl⟩ := Option.map_eq_some_iff.1 mem
    exact bracketed_of_typeParameterDefects
      (List.flatMap_eq_nil_iff.1 brackets raw (Option.mem_toList.2 given))
  · obtain ⟨parameter, listed, rfl⟩ := List.mem_map.1 mem
    exact (each parameter listed).2.1
  · simpa [MethodDraft.node, Function.comp_def] using distinct
  · obtain ⟨raw, given, rfl⟩ := Option.map_eq_some_iff.1 mem
    exact blockLines_of_settled (settled_block _)

theorem MethodDraft.declaredReturnType_ofNode {node : Method} :
    (ofNode node).declaredReturnType = node.returnType := by
  cases type : node.returnType <;> simp [declaredReturnType, ofNode, type]

theorem MethodDraft.node_ofNode_eq_iff {node : Method} :
    (ofNode node).node = node ↔ (∀ text ∈ node.typeParameters, canonicalType text = text) ∧
      (∀ text ∈ node.returnType, canonicalType text = text) ∧
      (∀ parameter ∈ node.parameters, canonicalType parameter.type = parameter.type) ∧
      (∀ text ∈ node.throws, canonicalType text = text) ∧
      (∀ lines ∈ node.body, blockLines lines = lines) ∧ node.editable = true := by
  rw [MethodDraft.node, declaredReturnType_ofNode]
  obtain ⟨lead, typeParameters, returnType, name, parameters, throws, body, editable⟩ := node
  have types : ∀ parameter : Parameter,
      { parameter with type := canonicalType parameter.type } = parameter ↔
        canonicalType parameter.type = parameter.type := by
    rintro ⟨annotations, isFinal, type, name⟩
    simp
  simp only [ofNode, LeadDraft.lead_ofLead, Option.getD_some, Method.mk.injEq, true_and,
    option_map_eq_self_iff, map_eq_self_iff, types, @eq_comm _ true]

/-- The types of a method are normal if those of its parts are. -/
theorem Method.normal_iff {node : Method} :
    (Node.method node).Normal ↔
      (∀ text ∈ node.typeParameters, normalizeType text = some text) ∧
      (∀ text ∈ node.returnType, normalizeType text = some text) ∧
      (∀ parameter ∈ node.parameters, normalizeType parameter.type = some parameter.type) ∧
      ∀ text ∈ node.throws, normalizeType text = some text := by
  simp only [Node.Normal, types, List.forall_mem_append, List.forall_mem_map, Option.mem_toList,
    Option.mem_def, and_assoc]

/-- A method is built again exactly if it keeps the rules and its texts are normal. -/
theorem Method.build_ofNode_iff {node : Method} :
    (MethodDraft.ofNode node).build = .ok node ↔ node.Lawful ∧ (Node.method node).Normal := by
  constructor
  · intro built
    have lawful := Method.lawful_of_build built
    rw [MethodDraft.build, settle_eq_ok_iff, MethodDraft.node_ofNode_eq_iff] at built
    obtain ⟨clean, typeParameters, returnType, types, throws, -⟩ := built
    simp only [MethodDraft.defects, MethodDraft.declaredReturnType_ofNode, List.append_eq_nil_iff,
      List.flatMap_eq_nil_iff, Option.mem_toList, and_assoc] at clean
    obtain ⟨-, -, -, -, -, -, -, brackets, returned, parameters, thrown⟩ := clean
    obtain ⟨each, -⟩ := MethodDraft.parameterDefects_eq_nil_iff.1 parameters
    refine ⟨lawful, normal_iff.2 ⟨fun text mem => ?_, fun text mem => ?_, fun parameter mem => ?_,
      fun text mem => ?_⟩⟩
    · exact (bracketed_of_canonicalType (brackets text mem) (typeParameters text mem)).2
    · exact normalizeType_of_canonicalType (returned text mem) (returnType text mem)
    · exact normalizeType_of_canonicalType (each parameter mem).1 (types parameter mem)
    · exact normalizeType_of_canonicalType (thrown text mem) (throws text mem)
  · rintro ⟨lawful, normal⟩
    obtain ⟨typeParameters, returnType, parameters, throws⟩ := normal_iff.1 normal
    obtain ⟨present, known⟩ := @clean_identifier_iff .method _ |>.2 lawful.name
    rw [MethodDraft.build, settle_eq_ok_iff, MethodDraft.node_ofNode_eq_iff]
    refine ⟨?_, fun text mem => canonicalType_of_normalizeType (typeParameters text mem),
      fun text mem => canonicalType_of_normalizeType (returnType text mem),
      fun parameter mem => canonicalType_of_normalizeType (parameters parameter mem),
      fun text mem => canonicalType_of_normalizeType (throws text mem), lawful.body,
      lawful.editable⟩
    simp only [MethodDraft.defects, MethodDraft.declaredReturnType_ofNode, List.append_eq_nil_iff,
      List.flatMap_eq_nil_iff, Option.mem_toList, and_assoc]
    refine ⟨LeadDraft.commentDefects_eq_nil_iff.2 lawful.plain, present, ?_, lawful.modifiers,
      lawful.compatible, known, MethodDraft.bodyDefects_eq_nil_iff.2 lawful.bodiless,
      fun text mem => typeParameterDefects_of_bracketed (lawful.typeParameters text mem)
        (typeParameters text mem),
      fun text mem => typeDefects_of_normalizeType (returnType text mem),
      MethodDraft.parameterDefects_eq_nil_iff.2 ⟨fun parameter mem => ?_, lawful.distinct⟩,
      fun text mem => typeDefects_of_normalizeType (throws text mem)⟩
    · cases type : node.returnType with
      | none => simp [MethodDraft.returnTypeDefects, MethodDraft.ofNode, type]
      | some text =>
          have there := given_of_normalizeType (returnType text type)
          simpa [MethodDraft.returnTypeDefects, MethodDraft.ofNode, type, requirePart] using there
    · exact ⟨typeDefects_of_normalizeType (parameters parameter mem),
        lawful.parameters parameter mem, List.not_mem_nil⟩

/-! ### Classes -/

/-- What building asks of a class besides the rules for its file and its members, the spelling of
its types apart. -/
structure ClassDecl.Lawful (node : ClassDecl) : Prop where
  modifiers : modifierDefects .classDecl ClassDraft.modifiersAllowed node.modifiers.toList = []
  compatible : conflictDefects node.modifiers.toList .abstract [.final] = []
  name : isIdentifier node.name = true
  superclass : node.kind = .interface → node.superclass = none
  typeParameters : ∀ text ∈ node.typeParameters, IsBracketed text
  editable : node.editable = true

theorem ClassDecl.lawful_of_build {draft : ClassDraft} {node : ClassDecl}
    (h : draft.build = .ok node) : node.Lawful := by
  obtain ⟨clean, rfl⟩ := settle_eq_ok_iff.1 h
  simp only [ClassDraft.defects, List.append_eq_nil_iff, and_assoc] at clean
  obtain ⟨-, -, -, present, known, modifiers, compatible, -, superclass, brackets, -⟩ := clean
  obtain ⟨name, named, rule⟩ := exists_name present known
  refine ⟨modifierDefects_ofList modifiers, (conflictDefects_ofList _ _ _).trans compatible, ?_,
    fun interface => ?_, fun text mem => ?_, rfl⟩
  · rw [ClassDraft.node, named]
    exact rule
  · have interface : draft.kind = .interface := interface
    simpa [interface, ClassDraft.node] using superclass
  · obtain ⟨raw, given, rfl⟩ := Option.map_eq_some_iff.1 mem
    exact bracketed_of_typeParameterDefects
      (List.flatMap_eq_nil_iff.1 brackets raw (Option.mem_toList.2 given))

theorem ClassDraft.node_ofNode_eq_iff {node : ClassDecl} :
    (ofNode node).node = node ↔ (∀ text ∈ node.typeParameters, canonicalType text = text) ∧
      (∀ text ∈ node.superclass, canonicalType text = text) ∧
      (∀ text ∈ node.interfaces, canonicalType text = text) ∧ node.editable = true := by
  obtain ⟨⟨lead, headerComments, package, imports, kind, name, typeParameters, superclass,
    interfaces, trailingComments, inner, editable⟩, members⟩ := node
  simp only [ClassDraft.node, ofNode, LeadDraft.lead_ofLead, Option.getD_some, ClassDecl.mk.injEq,
    ClassHead.mk.injEq, true_and, and_true, option_map_eq_self_iff, map_eq_self_iff,
    @eq_comm _ true]

/-- The texts of a class are types, all of them. -/
theorem ClassDecl.normal_iff {node : ClassDecl} :
    (Node.classDecl node).Normal ↔
      (∀ text ∈ node.typeParameters, normalizeType text = some text) ∧
      (∀ text ∈ node.superclass, normalizeType text = some text) ∧
      ∀ text ∈ node.interfaces, normalizeType text = some text := by
  simp only [Node.Normal, types, List.forall_mem_append, Option.mem_toList, Option.mem_def,
    and_assoc]

theorem ClassDraft.hasFileScope_ofNode {node : ClassDecl} :
    (ofNode node).hasFileScope = true ↔ node.HasFileScope :=
  hasFileScope_iff

theorem ClassDraft.header_ofNode {node : ClassDecl} (sound : node.Sound) :
    requirement ((ofNode node).hasFileScope || !(ofNode node).headerComments.any Comment.isDoc)
      .docHeaderAlone = [] := by
  rw [requirement_eq_nil]
  cases doc : (ofNode node).headerComments.any Comment.isDoc with
  | false => simp
  | true => simp [hasFileScope_ofNode.2 (sound.header doc)]

theorem ClassDraft.innerDefects_ofNode {node : ClassDecl} (sound : node.Sound) :
    (ofNode node).innerDefects = [] := by
  rw [innerDefects]
  split
  · next inner =>
      have outside : (ofNode node).hasFileScope = false := by
        rw [← Bool.not_eq_true, hasFileScope_ofNode]
        exact sound.scope inner
      obtain ⟨headers, trailing⟩ := sound.file inner
      refine List.append_eq_nil_iff.2 ⟨by rw [outside]; rfl, requirement_eq_nil.2 ?_⟩
      simp [ofNode, headers, trailing]
  · rfl

/-- A class is built again exactly if it keeps all the rules and its types are normal. -/
theorem ClassDecl.build_ofNode_iff {node : ClassDecl} :
    (ClassDraft.ofNode node).build = .ok node ↔
      node.Sound ∧ node.Lawful ∧ (Node.classDecl node).Normal := by
  constructor
  · intro built
    have sound := ClassDraft.sound_of_build built
    have lawful := ClassDecl.lawful_of_build built
    rw [ClassDraft.build, settle_eq_ok_iff, ClassDraft.node_ofNode_eq_iff] at built
    obtain ⟨clean, typeParameters, superclass, interfaces, -⟩ := built
    simp only [ClassDraft.defects, List.append_eq_nil_iff, List.flatMap_eq_nil_iff,
      Option.mem_toList, and_assoc] at clean
    obtain ⟨-, -, -, -, -, -, -, -, -, brackets, extended, implemented, -⟩ := clean
    refine ⟨sound, lawful, normal_iff.2 ⟨fun text mem => ?_, fun text mem => ?_,
      fun text mem => ?_⟩⟩
    · exact (bracketed_of_canonicalType (brackets text mem) (typeParameters text mem)).2
    · exact normalizeType_of_canonicalType (extended text mem) (superclass text mem)
    · exact normalizeType_of_canonicalType (implemented text mem) (interfaces text mem)
  · rintro ⟨sound, lawful, normal⟩
    obtain ⟨typeParameters, superclass, interfaces⟩ := normal_iff.1 normal
    obtain ⟨present, known⟩ := @clean_identifier_iff .classDecl _ |>.2 lawful.name
    rw [ClassDraft.build, settle_eq_ok_iff, ClassDraft.node_ofNode_eq_iff]
    refine ⟨?_, fun text mem => canonicalType_of_normalizeType (typeParameters text mem),
      fun text mem => canonicalType_of_normalizeType (superclass text mem),
      fun text mem => canonicalType_of_normalizeType (interfaces text mem), lawful.editable⟩
    simp only [ClassDraft.defects, List.append_eq_nil_iff, List.flatMap_eq_nil_iff,
      Option.mem_toList, and_assoc]
    refine ⟨LeadDraft.commentDefects_eq_nil_iff.2 sound.plain, ?_, ClassDraft.header_ofNode sound,
      present, known, lawful.modifiers, lawful.compatible, ClassDraft.innerDefects_ofNode sound, ?_,
      fun text mem => typeParameterDefects_of_bracketed (lawful.typeParameters text mem)
        (typeParameters text mem),
      fun text mem => typeDefects_of_normalizeType (superclass text mem),
      fun text mem => typeDefects_of_normalizeType (interfaces text mem),
      fun member mem => ClassDraft.memberDefects_eq_nil.2 (sound.members member mem)⟩
    · intro comment mem
      exact plainComment_eq_nil.2 (by simpa using List.any_eq_false.1 sound.trailing comment mem)
    · by_cases interface : node.kind = .interface
      · simp [ClassDraft.ofNode, lawful.superclass interface]
      · simp [ClassDraft.ofNode, interface]

/-! ### Nodes that were built or read -/

/-- What building asks of a declaration, the spelling of its texts apart. -/
def Node.Lawful : Node → Prop
  | .field node => node.Lawful
  | .method node => node.Lawful
  | .classDecl node => node.Lawful
  | _ => True

/-- Whatever was built keeps the rules that building asks for. -/
theorem Built.lawful {node : Node} (h : Built node) : node.Lawful := by
  cases h with
  | field built => exact Field.lawful_of_build built
  | method built => exact Method.lawful_of_build built
  | classDecl built => exact ClassDecl.lawful_of_build built
  | _ => trivial

/-- Other things in front of a declaration, and a file around a class, change nothing about it. -/
theorem Made.lawful {node : Node} (h : Made node) : node.Lawful := by
  induction h with
  | built built => exact built.lawful
  | @field node lead _ replaces _ ih =>
      have own : node.Lawful := ih
      refine { own with plain := replaces.plain, modifiers := ?_, compatible := ?_ }
      · exact replaces.modifiers ▸ own.modifiers
      · exact replaces.modifiers ▸ own.compatible
  | @method node lead _ replaces _ ih =>
      have own : node.Lawful := ih
      refine { own with plain := replaces.plain, modifiers := ?_, compatible := ?_, bodiless := ?_ }
      · exact replaces.modifiers ▸ own.modifiers
      · exact replaces.modifiers ▸ own.compatible
      · exact replaces.modifiers ▸ own.bodiless
  | @classDecl node lead _ replaces _ ih =>
      have own : node.Lawful := ih
      refine { own with modifiers := ?_, compatible := ?_ }
      · exact replaces.modifiers ▸ own.modifiers
      · exact replaces.modifiers ▸ own.compatible
  | file _ _ _ _ _ ih => exact { ih with }
  | member => trivial

theorem Field.copied_iff {node : Field} (lawful : node.Lawful) :
    Copied (.field node) ↔ (Node.field node).Normal :=
  ⟨fun | .field own => (build_ofNode_iff.1 own).2,
    fun normal => .field (build_ofNode_iff.2 ⟨lawful, normal⟩)⟩

theorem Method.copied_iff {node : Method} (lawful : node.Lawful) :
    Copied (.method node) ↔ (Node.method node).Normal :=
  ⟨fun | .method own => (build_ofNode_iff.1 own).2,
    fun normal => .method (build_ofNode_iff.2 ⟨lawful, normal⟩)⟩

theorem ClassDecl.copied_iff {node : ClassDecl} (sound : node.Sound) (lawful : node.Lawful) :
    Copied (.classDecl node) ↔ (Node.classDecl node).Normal :=
  ⟨fun | .classDecl own => (build_ofNode_iff.1 own).2.2,
    fun normal => .classDecl (build_ofNode_iff.2 ⟨sound, lawful, normal⟩)⟩

/-- A node that was built is copied exactly if its texts are normal. -/
theorem Built.copied_iff {node : Node} (h : Built node) : Copied node ↔ node.Normal := by
  cases h with
  | packageStatement built =>
      exact iff_of_true (.packageStatement (Package.build_ofNode (Package.canonical_of_build built)))
        trivial
  | importStatement built =>
      exact iff_of_true (.importStatement (Import.build_ofNode (Import.canonical_of_build built)))
        trivial
  | javadoc built => exact iff_of_true (.javadoc (Javadoc.build_ofNode built)) trivial
  | comment built => exact iff_of_true (.comment (Comment.build_ofNode built)) trivial
  | staticBlock built => exact iff_of_true (.staticBlock (StaticBlock.build_ofNode built)) trivial
  | annotationUse built =>
      rw [← Annotation.build_ofNode_iff built]
      exact ⟨fun | .annotationUse own => own, .annotationUse⟩
  | field built => exact Field.copied_iff (Field.lawful_of_build built)
  | method built => exact Method.copied_iff (Method.lawful_of_build built)
  | classDecl built =>
      exact ClassDecl.copied_iff (ClassDraft.sound_of_build built)
        (ClassDecl.lawful_of_build built)

/-- The same of a node that was read, unless it is a class that breaks the rules for its file. -/
theorem Made.copied_iff {node : Node} (h : Made node) (only : node.isMember = false)
    (sound : ∀ decl, node = .classDecl decl → decl.Sound) : Copied node ↔ node.Normal := by
  have lawful := h.lawful
  cases node with
  | member => cases only
  | field => exact Field.copied_iff lawful
  | method => exact Method.copied_iff lawful
  | classDecl decl => exact ClassDecl.copied_iff (sound decl rfl) lawful
  | packageStatement | importStatement | annotationUse | javadoc | comment | staticBlock =>
      cases h with
      | built built => exact built.copied_iff

/-- What is read from all of a text is copied exactly if its texts are normal. -/
theorem Goal.copied_iff_of_parseText {goal : Goal} {name source : Text} {node : Node}
    (h : goal.entry.parseText name source = .ok node) (only : node.isMember = false) :
    Copied node ↔ node.Normal := by
  obtain ⟨tokens, rest, skipped, -, reads, ends⟩ := exists_reads_of_parseText h
  refine (Goal.made_of_read (Entry.read_eq_ok_iff.2 ⟨skipped, reads⟩)).copied_iff only ?_
  rintro decl rfl
  cases goal with
  | file =>
      obtain ⟨_, reads, same⟩ := Reading.reads_map.1 reads
      cases same
      exact Reading.sound_of_compilationUnit reads ends
  | _ =>
      obtain ⟨_, -, same⟩ := Reading.reads_map.1 reads
      cases same

/-- A node of any kind that was read or built is copied exactly if its texts are normal. -/
theorem Node.copied_iff_normal {node : Node} (only : node.isMember = false)
    (origin : Built node ∨
      ∃ (goal : Goal) (name source : Text), goal.entry.parseText name source = .ok node) :
    Copied node ↔ node.Normal := by
  rcases origin with built | ⟨goal, name, source, parsed⟩
  · exact built.copied_iff
  · exact Goal.copied_iff_of_parseText parsed only

/-! ### Initializers that stay -/

namespace Text

/-- Whether lines are those of an initializer that stays: its first line is not indented, nor are
all of the others. -/
def Flush : List Text → Prop
  | [] => True
  | first :: others => StartsInked first ∧ commonIndentation others = 0

theorem block_unlines {first : Text} {others : List Text} (settled : Settled (first :: others)) :
    block (unlines (first :: others)) =
      first.trim :: others.map (dedent (commonIndentation others)) := by
  have plain := settled.plain
  have whole := split_unlines (List.cons_ne_nil first others) fun line mem => (plain line mem).1
  have trimmed : others.map trimEnd = others := map_eq_self_iff.2 fun line mem =>
    trimEnd_eq_self_iff.2 (plain line (List.mem_cons_of_mem _ mem)).2
  have some : first ≠ [] := by simpa using startsOff_cons.1 settled.starts
  have ink := isBlank_eq_false_of_endsInked (plain first List.mem_cons_self).2 some
  have opening : first.trim ≠ [] := fun empty => by simp [trim_eq_nil_iff.1 empty] at ink
  rw [block_eq whole, trimmed, openLines, if_neg opening, List.singleton_append]
  refine strip_of_off (startsOff_cons.2 (by simpa using opening)) ?_
  rcases List.eq_nil_or_concat others with rfl | ⟨init, final, same⟩
  · exact (@endsOff_concat _ _ [] _).2 (by simpa using opening)
  · rw [List.concat_eq_append] at same
    subst same
    have some : final ≠ [] := by
      have ends := settled.ends
      rw [← List.cons_append, endsOff_concat] at ends
      simpa using ends
    have mem : final ∈ init ++ [final] := by simp
    have ink := isBlank_eq_false_of_endsInked (plain final (List.mem_cons_of_mem _ mem)).2 some
    have kept := dedent_ne_nil ink ((commonIndentation_spec ⟨final, mem, ink⟩).2 final mem ink)
    rw [List.map_append, List.map_singleton, ← List.cons_append, endsOff_concat]
    simpa using kept

/-- Only lines that have no common indentation stay when they lose it. -/
theorem map_dedent_eq_self_iff {lines : List Text} (plain : ∀ line ∈ lines, EndsInked line) :
    lines.map (dedent (commonIndentation lines)) = lines ↔ commonIndentation lines = 0 := by
  rw [map_eq_self_iff]
  constructor
  · intro kept
    by_cases some : ∃ line ∈ lines, line.isBlank = false
    · obtain ⟨⟨line, mem, ink, least⟩, -⟩ := commonIndentation_spec some
      have same := kept line mem
      rw [dedent, ink, if_neg (by simp)] at same
      have length := congrArg List.length same
      have bound : 0 < line.length := List.length_pos_iff.2 fun empty => by simp [empty] at ink
      rw [List.length_drop] at length
      omega
    · have none : lines.filter (!·.isBlank) = [] := by
        rw [List.filter_eq_nil_iff]
        exact fun line mem ink => some ⟨line, mem, by simpa using ink⟩
      rw [commonIndentation, none]
      rfl
  · intro flush line mem
    rw [flush]
    by_cases present : line = []
    · rw [present]
      rfl
    · rw [dedent, isBlank_eq_false_of_endsInked (plain line mem) present, if_neg (by simp)]
      rfl

/-- A block that is kept as one text stays, once it is canonical, exactly if it is flush. -/
theorem blockText_blockText_iff (raw : Text) :
    blockText (blockText raw) = blockText raw ↔ Flush (block raw) := by
  have settled := settled_block raw
  rw [blockText, blockText]
  cases lines : block raw with
  | nil => exact iff_of_true rfl trivial
  | cons first others =>
      rw [lines] at settled
      have plain := fun line mem => (settled.plain line mem).1
      have again := (settled_block (unlines (first :: others))).plain
      have same : unlines (block (unlines (first :: others))) = unlines (first :: others) ↔
          block (unlines (first :: others)) = first :: others := by
        refine ⟨fun same => ?_, congrArg unlines⟩
        have present : block (unlines (first :: others)) ≠ [] := by
          rw [block_unlines settled]
          exact List.cons_ne_nil _ _
        rw [← split_unlines present fun line mem => (again line mem).1, same,
          split_unlines (List.cons_ne_nil _ _) plain]
      have ends := (settled.plain first List.mem_cons_self).2
      rw [same, block_unlines settled, List.cons.injEq, map_dedent_eq_self_iff fun line mem =>
        (settled.plain line (List.mem_cons_of_mem _ mem)).2, Flush]
      refine and_congr_left fun _ => ⟨fun kept => ?_, fun starts => trim_of_inked starts ends⟩
      rw [← kept]
      exact (trim_spec first).1

end Text

/-- A field that was built is copied exactly if its type is normal and its initializer, if it has
one, is flush. -/
theorem FieldDraft.copied_iff_flush {draft : FieldDraft} {node : Field}
    (h : draft.build = .ok node) :
    Copied (.field node) ↔ normalizeType node.type = some node.type ∧
      ∀ raw ∈ draft.value, Text.Flush (Text.block raw) := by
  have values : node.value = draft.value.map blockText := by
    obtain ⟨-, rfl⟩ := settle_eq_ok_iff.1 h
    rfl
  rw [(Built.field h).copied_iff, Node.Normal, values]
  simp [Text.blockText_blockText_iff]

def indentedSample : FieldDraft where
  type := some "int".toList
  name := some ['x']
  value := some "\n    1\n        + 2".toList

/-- The first line loses its own indentation, the second one that of the first; in the copy the
second line is alone behind the equals sign and loses what it had left. -/
theorem Node.copied_iff_normal_indentedSample :
    ∃ node, indentedSample.build = .ok node ∧ node.render = "int x = 1\n    + 2;".toList ∧
      ¬ Copied (.field node) ∧
      (FieldDraft.ofNode node).build.toOption.map Field.render =
        some "int x = 1\n+ 2;".toList := by
  have built : indentedSample.build = .ok indentedSample.node :=
    settle_eq_ok_iff.2 ⟨by decide +kernel, rfl⟩
  have changed : indentedSample.node.value.map Text.blockText ≠ indentedSample.node.value := by
    decide +kernel
  refine ⟨_, built, by decide +kernel, fun copied => changed ?_, by decide +kernel⟩
  have normal := (Node.copied_iff_normal rfl (.inl (.field built))).1 copied
  exact option_map_eq_self_iff.2 normal.2

end JavaUnit
