/-
Module: JavaUnit.Proofs.CodeDetermines
Purpose: Builder code tells the rendering of its node. The code of a node holds a call for every
  part of it that shows, so that the parts are found again one after another, and with them those
  of the nodes that it owns. What the code leaves out does not show: whether a node can be changed,
  and a blank canonical name. Comments are told by their text, and so only if their lines are the
  lines of that text.
Main exports: Node.Lined, Lead.render_of_segments, Member.render_of_builderCode,
  Node.render_of_builderCode
-/
import JavaUnit.Proofs.Blocks
import JavaUnit.Proofs.ChainText
import JavaUnit.Proofs.CommentText
import JavaUnit.Proofs.Ownership

namespace JavaUnit

open Text

/-- Where equal codes mean equal tellings, equal lists of codes mean equal lists of tellings. -/
theorem map_eq_map_of_imp {f : α → β} {g : α → γ} {xs ys : List α}
    (imp : ∀ x ∈ xs, ∀ y ∈ ys, f x = f y → g x = g y) (same : xs.map f = ys.map f) :
    xs.map g = ys.map g := by
  induction xs generalizing ys with
  | nil =>
      cases ys with
      | nil => rfl
      | cons => simp at same
  | cons x xs ih =>
      cases ys with
      | nil => simp at same
      | cons y ys =>
          simp only [List.map_cons, List.cons.injEq] at same ⊢
          refine ⟨imp x List.mem_cons_self y List.mem_cons_self same.1, ih ?_ same.2⟩
          intro x mem y mem'
          exact imp x (List.mem_cons_of_mem _ mem) y (List.mem_cons_of_mem _ mem')

/-- Calls with one text each tell the texts. -/
theorem callWith_map_inj {method : Text} {texts others : List Text} :
    texts.map (fun text => callWith method [text]) = others.map (fun text => callWith method [text])
      ↔ texts = others :=
  List.map_inj_right fun text other same => by simpa using same

/-- So do calls with two texts each. -/
theorem callWith_pairs_inj {method : Text} {pairs others : List (Text × Text)} :
    pairs.map (fun pair => callWith method [pair.1, pair.2]) =
      others.map (fun pair => callWith method [pair.1, pair.2]) ↔ pairs = others :=
  List.map_inj_right fun pair other same => Prod.ext_iff.2 (by simpa using same)

/-- Calls with one node each tell of the nodes what the code of a node tells. -/
theorem map_of_nestedCalls {method : Text} {code : α → Text} {told : α → γ} {nodes others : List α}
    (imp : ∀ node ∈ nodes, ∀ other ∈ others, code node = code other → told node = told other)
    (same : nodes.map (fun node => nestedCall method (code node)) =
      others.map (fun node => nestedCall method (code node))) :
    nodes.map told = others.map told :=
  map_eq_map_of_imp
    (fun node mem other mem' call => imp node mem other mem' (nestedCall_inj.1 call).2) same

theorem option_toList_inj {value other : Option α} :
    value.toList = other.toList ↔ value = other := by
  cases value <;> cases other <;> simp

/-! ### Nodes that own none -/

namespace Package

def layout : Layout := ⟨[["name".toList]], by decide +kernel, by decide +kernel⟩

def segments (node : Package) : List (List BuilderCall) :=
  [[callWith "name".toList [node.name]]]

/-- The code of a statement is its builder, then a chain with a call for its name. -/
theorem writes (node : Package) :
    layout.Writes "PackageBuilder::new()".toList node.segments node.builderCode where
  line := by decide
  spells := by
    rw [layout, segments]
    exact .cons (segment_callWith [node] (fun node => [node.name]) (by simp)) .nil
  code := rfl

/-- A package statement shows nothing but its name, which its code holds. -/
theorem render_of_builderCode {node other : Package} (same : node.builderCode = other.builderCode) :
    node.render = other.render := by
  have parts := (node.writes.inj other.writes same).2
  simp only [segments, List.cons.injEq, callWith_inj, true_and, and_true] at parts
  unfold render
  rw [parts]

end Package

namespace Import

def layout : Layout :=
  ⟨[["name".toList], ["is_static".toList], ["wildcard".toList]], by decide +kernel,
    by decide +kernel⟩

def segments (node : Import) : List (List BuilderCall) :=
  [[callWith "name".toList [node.name]],
    if node.isStatic then [rawCall "is_static".toList yes] else [],
    if node.isWildcard then [rawCall "wildcard".toList yes] else []]

theorem writes (node : Import) :
    layout.Writes "ImportBuilder::new()".toList node.segments node.builderCode where
  line := by decide
  spells := by
    have flag : ∀ (is : Bool) (method : Text), ∀ call ∈ (if is then [rawCall method yes] else []),
        call.method ∈ [method] ∧ Breaks 4 '.' call.arguments := by
      intro is method
      cases is with
      | false => exact nofun
      | true => exact segment_rawCall (by simp) (by decide)
    rw [layout, segments]
    exact .cons (segment_callWith [node] (fun node => [node.name]) (by simp))
      (.cons (flag _ _) (.cons (flag _ _) .nil))
  code := by
    simp only [builderCode, segments, List.flatten_cons, List.flatten_nil, List.append_nil,
      List.append_assoc]

/-- The two flags of an import are told by whether their calls are there. -/
theorem render_of_builderCode {node other : Import} (same : node.builderCode = other.builderCode) :
    node.render = other.render := by
  have parts := (node.writes.inj other.writes same).2
  have flag : ∀ {is is' : Bool} {call : BuilderCall},
      (if is then [call] else []) = (if is' then [call] else []) → is = is' := by
    intro is is' call
    cases is <;> cases is' <;> simp
  simp only [segments, List.cons.injEq, callWith_inj, true_and, and_true] at parts
  obtain ⟨name, isStatic, isWildcard⟩ := parts
  unfold render
  rw [name, flag isStatic, flag isWildcard]

end Import

namespace Annotation

def layout : Layout :=
  ⟨[["name".toList], ["canonical_name".toList], ["param".toList, "value".toList]],
    by decide +kernel, by decide +kernel⟩

def segments (node : Annotation) : List (List BuilderCall) :=
  [[callWith "name".toList [node.name]],
    if node.isResolved then [callWith "canonical_name".toList [node.canonicalName]] else [],
    node.params.map AnnotationParam.builderCall]

/-- An annotation has a call for its name and one for each parameter. A blank canonical name has
none, and does not show either. -/
theorem writes (node : Annotation) :
    layout.Writes "AnnotationBuilder::new()".toList node.segments node.builderCode where
  line := by decide
  spells := by
    rw [layout, segments]
    refine .cons (segment_callWith [node] (fun node => [node.name]) (by simp))
      (.cons ?_ (.cons ?_ .nil))
    · split
      · exact segment_callWith [node] (fun node => [node.canonicalName]) (by simp)
      · exact nofun
    · intro call mem
      obtain ⟨param, -, rfl⟩ := List.mem_map.1 mem
      rw [AnnotationParam.builderCall]
      cases param.name with
      | some name => exact ⟨by simp [callWith], breaks_callWith _ _⟩
      | none => exact ⟨by simp [callWith], breaks_callWith _ _⟩
  code := by
    simp only [builderCode, segments, List.flatten_cons, List.flatten_nil, List.append_nil,
      List.append_assoc]

/-- A parameter is told by its call, the unnamed one by the method that is called. -/
theorem builderCall_injective : Function.Injective AnnotationParam.builderCall := by
  rintro ⟨name, value⟩ ⟨name', value'⟩ same
  cases name <;> cases name' <;> simp [AnnotationParam.builderCall] at same <;> simp [same]

theorem render_of_builderCode {node other : Annotation}
    (same : node.builderCode = other.builderCode) : node.render = other.render := by
  have parts := (node.writes.inj other.writes same).2
  simp only [segments, List.cons.injEq, callWith_inj, true_and, and_true] at parts
  obtain ⟨name, -, params⟩ := parts
  have params := List.map_injective_iff.2 builderCall_injective params
  simp [render, name, params]

end Annotation

namespace Javadoc

def layout : Layout :=
  ⟨[["description".toList], ["param".toList], ["return_desc".toList], ["author".toList],
    ["version".toList], ["since".toList], ["tag".toList]], by decide +kernel, by decide +kernel⟩

def segments (node : Javadoc) : List (List BuilderCall) :=
  [node.description.map (fun line => callWith "description".toList [line]),
    node.params.map (fun param => callWith "param".toList [param.1, param.2]),
    node.returns.toList.map (fun text => callWith "return_desc".toList [text]),
    node.author.toList.map (fun text => callWith "author".toList [text]),
    node.version.toList.map (fun text => callWith "version".toList [text]),
    node.since.toList.map (fun text => callWith "since".toList [text]),
    node.tags.map fun tag => callWith "tag".toList [tag.1, tag.2]]

theorem writes (node : Javadoc) :
    layout.Writes "JavadocBuilder::new()".toList node.segments node.builderCode where
  line := by decide
  spells := by
    rw [layout, segments]
    exact .cons (segment_callWith _ _ (by simp)) (.cons (segment_callWith _ _ (by simp))
      (.cons (segment_callWith _ _ (by simp)) (.cons (segment_callWith _ _ (by simp))
      (.cons (segment_callWith _ _ (by simp)) (.cons (segment_callWith _ _ (by simp))
      (.cons (segment_callWith _ _ (by simp)) .nil))))))
  code := by
    simp only [builderCode, segments, List.flatten_cons, List.flatten_nil, List.append_nil,
      List.append_assoc]

theorem render_of_builderCode {node other : Javadoc}
    (same : node.builderCode = other.builderCode) : node.render = other.render := by
  have parts := (node.writes.inj other.writes same).2
  simp only [segments, List.cons.injEq, callWith_map_inj, callWith_pairs_inj, option_toList_inj,
    and_true] at parts
  obtain ⟨description, params, returns, author, version, since, tags⟩ := parts
  have kept : node.freeze = other.freeze := by
    simp only [freeze, description, params, returns, author, version, since, tags]
  calc node.render
      = node.freeze.render := rfl
    _ = other.freeze.render := by rw [kept]
    _ = other.render := rfl

end Javadoc

/-! ### Comments -/

namespace Comment

def layout : Layout := ⟨[["text".toList]], by decide +kernel, by decide +kernel⟩

def segments (node : Comment) : List (List BuilderCall) :=
  [[callWith "text".toList [node.text]]]

theorem writes (node : Comment) :
    layout.Writes node.style.builder node.segments node.builderCode where
  line := by cases node.style <;> decide
  spells := by
    rw [layout, segments]
    exact .cons (segment_callWith [node] (fun node => [node.text]) (by simp)) .nil
  code := rfl

theorem builder_injective : Function.Injective CommentStyle.builder := by
  intro style other same
  cases style <;> cases other <;> first | rfl | exact absurd same (by decide)

/-- Lines are found again in the text that is made of them, if they are the lines of that text. -/
theorem lines_of_text {node other : Comment} (lined : node.Lined) (lined' : other.Lined)
    (same : node.text = other.text) : node.lines = other.lines := by
  have back : ∀ {node : Comment}, node.Lined → node.lines ≠ [] →
      node.text.split '\n' = node.lines := fun lined some => split_unlines some lined.plain
  have empty : ∀ {node other : Comment}, node.lines = [] → other.Lined →
      node.text = other.text → other.lines = [] := by
    intro node other none lined same
    by_contra some
    have lines := back lined some
    rw [← same, text, none] at lines
    exact lined.some lines.symm
  by_cases none : node.lines = []
  · rw [none, empty none lined' same]
  · by_cases none' : other.lines = []
    · exact absurd (empty none' lined same.symm) none
    · rw [← back lined none, ← back lined' none', same]

theorem render_of_builderCode {node other : Comment} (lined : node.Lined) (lined' : other.Lined)
    (same : node.builderCode = other.builderCode) : node.render = other.render := by
  have heads := (node.writes.inj other.writes same).1
  have parts := (node.writes.inj other.writes same).2
  simp only [segments, List.cons.injEq, callWith_inj, true_and, and_true] at parts
  simp only [render, builder_injective heads, lines_of_text lined lined' parts]

end Comment

/-! ### What stands in front of a declaration -/

namespace Lead

def methods : List (List Text) :=
  [["section_comment".toList], ["javadoc".toList], ["annotation".toList], ["modifier".toList]]

def segments (lead : Lead) : List (List BuilderCall) :=
  [lead.sectionComment.toList.map (fun comment =>
      nestedCall "section_comment".toList comment.builderCode),
    lead.javadoc.toList.map (fun javadoc => nestedCall "javadoc".toList javadoc.builderCode),
    lead.annotations.map (fun used => nestedCall "annotation".toList used.builderCode),
    lead.modifiers.toList.map fun modifier =>
      rawCall "modifier".toList ("Modifier::".toList ++ modifier.capitalized)]

/-- What stands in front of a declaration is written in a fixed order, one segment for each kind of
part. -/
theorem builderCalls_eq (lead : Lead) : lead.builderCalls = lead.segments.flatten := by
  simp only [builderCalls, segments, List.flatten_cons, List.flatten_nil, List.append_nil,
    List.append_assoc]

theorem spells (lead : Lead) : Spells methods lead.segments := by
  rw [methods, segments]
  refine .cons (segment_nestedCall _ (fun node _ => node.writes.isCode) (by simp))
    (.cons (segment_nestedCall _ (fun node _ => node.writes.isCode) (by simp))
    (.cons (segment_nestedCall _ (fun node _ => node.writes.isCode) (by simp)) (.cons ?_ .nil)))
  intro call mem
  obtain ⟨modifier, -, rfl⟩ := List.mem_map.1 mem
  have line : ∀ modifier ∈ Modifier.all, '\n' ∉ "Modifier::".toList ++ modifier.capitalized := by
    decide +kernel
  exact ⟨by simp [rawCall], breaks_of_notMem (line modifier modifier.mem_all)⟩

/-- Modifiers are told apart by the names of their constants. -/
theorem capitalized_inj : ∀ first ∈ Modifier.all, ∀ second ∈ Modifier.all,
    first.capitalized = second.capitalized → first = second := by
  decide +kernel

/-- The calls for what stands in front of a declaration tell how it is rendered. -/
theorem render_of_segments {lead other : Lead} (lined : ∀ node ∈ lead.sectionComment, node.Lined)
    (lined' : ∀ node ∈ other.sectionComment, node.Lined) (same : lead.segments = other.segments) :
    lead.render = other.render := by
  simp only [segments, List.cons.injEq, and_true] at same
  obtain ⟨comment, javadoc, annotations, modifiers⟩ := same
  have comment : lead.sectionComment.toList.map Comment.render =
      other.sectionComment.toList.map Comment.render :=
    map_of_nestedCalls (fun node mem node' mem' => Comment.render_of_builderCode
      (lined node (by simpa using mem)) (lined' node' (by simpa using mem'))) comment
  have javadoc : lead.javadoc.toList.map Javadoc.render =
      other.javadoc.toList.map Javadoc.render :=
    map_of_nestedCalls (fun _ _ _ _ => Javadoc.render_of_builderCode) javadoc
  have annotations : lead.annotations.map Annotation.render =
      other.annotations.map Annotation.render :=
    map_of_nestedCalls (fun _ _ _ _ => Annotation.render_of_builderCode) annotations
  have listed : lead.modifiers.toList = other.modifiers.toList := by
    refine (List.map_inj_right fun first second same => ?_).1 modifiers
    simp only [rawCall_inj, true_and, List.append_cancel_left_eq] at same
    exact capitalized_inj first first.mem_all second second.mem_all same
  have modifiers : lead.modifiers = other.modifiers := Modifiers.ext_mem (by simp [listed])
  rw [render, render, comment, javadoc, annotations, modifiers]

end Lead

/-! ### Fields -/

namespace Field

def layout : Layout :=
  ⟨Lead.methods ++ [["field_type".toList], ["name".toList], ["value".toList]], by decide +kernel,
    by decide +kernel⟩

def segments (node : Field) : List (List BuilderCall) :=
  node.toLead.segments ++ [[callWith "field_type".toList [node.type]],
    [callWith "name".toList [node.name]],
    node.value.toList.map fun value => callWith "value".toList [value]]

/-- Behind what stands in front of it, a field has calls for its type, its name and its value. -/
theorem writes (node : Field) :
    layout.Writes "FieldBuilder::new()".toList node.segments node.builderCode where
  line := by decide
  spells := by
    rw [layout, segments]
    exact node.toLead.spells.append
      (.cons (segment_callWith [node] (fun node => [node.type]) (by simp))
      (.cons (segment_callWith [node] (fun node => [node.name]) (by simp))
      (.cons (segment_callWith _ _ (by simp)) .nil)))
  code := by
    simp only [builderCode, segments, Lead.builderCalls_eq, List.flatten_append, List.flatten_cons,
      List.flatten_nil, List.append_nil, List.append_assoc, List.cons_append, List.nil_append]

theorem render_of_builderCode {node other : Field}
    (lined : ∀ comment ∈ node.sectionComment, comment.Lined)
    (lined' : ∀ comment ∈ other.sectionComment, comment.Lined)
    (same : node.builderCode = other.builderCode) : node.render = other.render := by
  have parts := (node.writes.inj other.writes same).2
  obtain ⟨lead, parts⟩ := List.append_inj parts rfl
  simp only [List.cons.injEq, callWith_inj, callWith_map_inj, option_toList_inj, true_and,
    and_true] at parts
  obtain ⟨type, name, value⟩ := parts
  simp only [render, Lead.render_of_segments lined lined' lead, type, name, value]

end Field

/-! ### Methods -/

namespace Parameter

/-- The code of the annotations of a parameter. -/
def annotationsCode (node : Parameter) : Text :=
  join ", ".toList (node.annotations.map fun used => nestedCode used.builderCode)

/-- The code of a parameter behind its annotations, and the letter that it begins with. -/
def codeBehind (node : Parameter) : Text :=
  "s_final: ".toList ++ ((if node.isFinal then yes else "false".toList) ++ ',' ::
    ("\n        param_type: ".toList ++ (node.type.quote ++ (".to_string(),".toList
      ++ ("\n        name: ".toList ++ (node.name.quote ++ (".to_string(),".toList
        ++ "\n    \x7d".toList)))))))

/-- A parameter is written as a record of its fields, not as a chain of calls. -/
theorem builderCode_eq (node : Parameter) :
    node.builderCode = "Parameter \x7b".toList ++ ("\n        annotations: vec![".toList
      ++ (deeper node.annotationsCode ++ "],".toList
        ++ '\n' :: (List.replicate 8 ' ' ++ 'i' :: node.codeBehind))) := by
  have flag : "\n        is_final: ".toList =
      '\n' :: (List.replicate 8 ' ' ++ 'i' :: "s_final: ".toList) := by decide
  have comma : ",".toList = [','] := rfl
  unfold builderCode codeBehind
  simp only [annotationsCode, flag, comma, List.append_assoc, List.cons_append, List.nil_append]

theorem breaks_annotationsCode (node : Parameter) {mark : Char} (ink : mark ≠ ' ') :
    Breaks 4 mark node.annotationsCode := by
  apply breaks_join _ (by decide)
  intro part mem
  obtain ⟨used, -, rfl⟩ := List.mem_map.1 mem
  exact breaks_nestedCode used.writes.isCode ink

/-- No line of the record begins like a call of the chain around it. -/
theorem breaks_builderCode (node : Parameter) : Breaks 4 '.' node.builderCode := by
  have flat : ∀ {text : Text}, '\n' ∉ text → Breaks 4 '.' text := breaks_of_notMem
  have deep : ∀ {text : Text}, '\n' ∉ text →
      Breaks 4 '.' ('\n' :: (List.replicate 4 ' ' ++ ' ' :: text)) :=
    fun plain => breaks_of_line (by decide) (by simp [plain])
  have annotations : Breaks 4 '.' (deeper node.annotationsCode) :=
    breaks_deeper ((@breaks_annotationsCode node '.' (by decide)).indented (by decide))
  have flag : '\n' ∉ if node.isFinal then yes else "false".toList := by
    cases node.isFinal <;> decide
  have closing : Breaks 4 '.' "\n    \x7d".toList :=
    @breaks_of_line 4 '.' [] '\x7d' (by decide) (by decide)
  have name := breaks_append (@deep "   name: ".toList (by decide))
    (breaks_append (flat (notMem_quote node.name))
    (breaks_append (@flat ".to_string(),".toList (by decide)) closing))
  have type := breaks_append (@deep "   param_type: ".toList (by decide))
    (breaks_append (flat (notMem_quote node.type))
    (breaks_append (@flat ".to_string(),".toList (by decide)) name))
  have isFinal := breaks_append (@deep "   is_final: ".toList (by decide))
    (breaks_append (flat flag) (breaks_append (@flat [','] (by decide)) type))
  have whole := breaks_append (@flat "Parameter \x7b".toList (by decide))
    (breaks_append (@deep "   annotations: vec![".toList (by decide))
    (breaks_append (breaks_append annotations (@flat "],".toList (by decide))) isFinal))
  rw [builderCode_eq]
  exact whole

/-- The fields of the record are cut off one after another, each by the line that the next one
begins with. -/
theorem render_of_builderCode {node other : Parameter}
    (same : node.builderCode = other.builderCode) : node.render = other.render := by
  simp only [builderCode_eq, List.append_cancel_left_eq] at same
  have closed : ∀ node : Parameter, Breaks 8 'i' (deeper node.annotationsCode ++ "],".toList) :=
    fun node => breaks_append (breaks_deeper (@breaks_annotationsCode node 'i' (by decide)))
      (breaks_of_notMem (by decide))
  obtain ⟨front, behind⟩ := breaks_inj (closed node) (closed other) same
  have each : ∀ node : Parameter,
      ∀ part ∈ node.annotations.map fun used => nestedCode used.builderCode,
        (∃ code, IsCode code ∧ part = nestedCode code) ∧ part ≠ [] := by
    intro node part mem
    obtain ⟨used, -, rfl⟩ := List.mem_map.1 mem
    exact ⟨⟨_, used.writes.isCode, rfl⟩, by simp [nestedCode]⟩
  have codes := join_inj (prefixFree_nestedCode prefixFree_code) (by decide) (each node)
    (each other) (deeper_inj (List.append_cancel_right front))
  have annotations : node.annotations.map Annotation.render =
      other.annotations.map Annotation.render :=
    map_eq_map_of_imp
      (fun _ _ _ _ code => Annotation.render_of_builderCode (nestedCode_inj code)) codes
  have word : ∀ flag : Bool, ',' ∉ if flag then yes else "false".toList := by decide
  unfold codeBehind at behind
  simp only [List.append_cancel_left_eq] at behind
  obtain ⟨flag, behind⟩ := append_mark_inj (word _) (word _) behind
  have isFinal : node.isFinal = other.isFinal := by
    revert flag
    cases node.isFinal <;> cases other.isFinal <;> decide
  obtain ⟨type, behind⟩ := quote_append_inj (List.append_cancel_left behind)
  simp only [List.append_cancel_left_eq] at behind
  obtain ⟨name, -⟩ := quote_append_inj behind
  have front : ∀ node : Parameter, node.annotations.flatMap (·.render ++ [' ']) =
      (node.annotations.map Annotation.render).flatMap (· ++ [' ']) := by
    intro node
    rw [List.flatMap_map]
  simp only [render, front, annotations, isFinal, type, name]

theorem render_of_builderCall {node other : Parameter}
    (same : node.builderCall = other.builderCall) : node.render = other.render := by
  have methods : "param".toList ≠ "parameter".toList := by decide
  simp only [builderCall] at same
  split at same
  · next short =>
      split at same
      · next short' =>
          simp only [callWith_inj, true_and, List.cons.injEq, and_true] at same
          simp only [render, short, short', same]
      · exact absurd (congrArg BuilderCall.method same) methods
  · split at same
    · exact absurd (congrArg BuilderCall.method same) methods.symm
    · simp only [rawCall_inj, true_and] at same
      exact render_of_builderCode same

end Parameter

namespace Method

def layout : Layout :=
  ⟨Lead.methods ++ [["type_parameters".toList], ["return_type".toList, "constructor".toList],
    ["name".toList], ["param".toList, "parameter".toList], ["throws".toList],
    ["body_line".toList, "without_body".toList]], by decide +kernel, by decide +kernel⟩

/-- The call for the return type, or for the lack of one. -/
def returnCall : Option Text → BuilderCall
  | some type => callWith "return_type".toList [type]
  | none => rawCall "constructor".toList []

/-- The calls for the body, or the one for the lack of one. -/
def bodyCalls : Option (List Text) → List BuilderCall
  | some lines => lines.map fun line => callWith "body_line".toList [line]
  | none => [rawCall "without_body".toList []]

def segments (node : Method) : List (List BuilderCall) :=
  node.toLead.segments
    ++ [node.typeParameters.toList.map (fun text => callWith "type_parameters".toList [text]),
      [returnCall node.returnType], [callWith "name".toList [node.name]],
      node.parameters.map Parameter.builderCall,
      node.throws.map (fun type => callWith "throws".toList [type]), bodyCalls node.body]

/-- The parameters, the throws clause and the body have segments of their own, in that order. -/
theorem writes (node : Method) :
    layout.Writes "MethodBuilder::new()".toList node.segments node.builderCode where
  line := by decide
  spells := by
    rw [layout, segments]
    refine node.toLead.spells.append
      (.cons (segment_callWith _ _ (by simp)) (.cons ?_
      (.cons (segment_callWith [node] (fun node => [node.name]) (by simp)) (.cons ?_
      (.cons (segment_callWith _ _ (by simp)) (.cons ?_ .nil))))))
    · cases node.returnType with
      | some type => exact segment_callWith [type] (fun type => [type]) (by simp)
      | none => exact segment_rawCall (by simp) (by decide)
    · intro call mem
      obtain ⟨parameter, -, rfl⟩ := List.mem_map.1 mem
      rw [Parameter.builderCall]
      split
      · exact ⟨by simp [callWith], breaks_callWith _ _⟩
      · exact ⟨by simp [rawCall], parameter.breaks_builderCode⟩
    · cases node.body with
      | some lines => exact segment_callWith _ _ (by simp)
      | none => exact segment_rawCall (by simp) (by decide)
  code := by
    simp only [builderCode, segments, Lead.builderCalls_eq, List.flatten_append, List.flatten_cons,
      List.flatten_nil, List.append_nil, List.append_assoc, List.cons_append, List.nil_append]
    rfl

/-- A constructor is told from a method with a result by the call that stands for the result. -/
theorem returnCall_injective : Function.Injective returnCall := by
  have methods : "return_type".toList ≠ "constructor".toList := by decide
  intro type other same
  cases type with
  | none =>
      cases other with
      | none => rfl
      | some => exact absurd (congrArg BuilderCall.method same) methods.symm
  | some type =>
      cases other with
      | none => exact absurd (congrArg BuilderCall.method same) methods
      | some other => simpa [returnCall] using same

/-- An empty body and a missing one are written differently. -/
theorem bodyCalls_injective : Function.Injective bodyCalls := by
  have methods : "body_line".toList ≠ "without_body".toList := by decide
  have apart : ∀ lines : List Text, bodyCalls (some lines) ≠ bodyCalls none := by
    intro lines same
    cases lines with
    | nil => cases same
    | cons line others =>
        simp only [bodyCalls, List.map_cons, List.cons.injEq] at same
        exact methods (congrArg BuilderCall.method same.1)
  intro body other same
  cases body with
  | none =>
      cases other with
      | none => rfl
      | some lines => exact absurd same.symm (apart lines)
  | some lines =>
      cases other with
      | none => exact absurd same (apart lines)
      | some lines' => exact congrArg some (callWith_map_inj.1 same)

theorem render_of_builderCode {node other : Method}
    (lined : ∀ comment ∈ node.sectionComment, comment.Lined)
    (lined' : ∀ comment ∈ other.sectionComment, comment.Lined)
    (same : node.builderCode = other.builderCode) : node.render = other.render := by
  have parts := (node.writes.inj other.writes same).2
  obtain ⟨lead, parts⟩ := List.append_inj parts rfl
  simp only [List.cons.injEq, callWith_inj, callWith_map_inj, option_toList_inj, true_and,
    and_true] at parts
  obtain ⟨typeParameters, returnType, name, parameters, throws, body⟩ := parts
  have parameters : node.parameters.map Parameter.render =
      other.parameters.map Parameter.render :=
    map_eq_map_of_imp (fun _ _ _ _ call => Parameter.render_of_builderCall call) parameters
  simp only [render, Lead.render_of_segments lined lined' lead, typeParameters,
    returnCall_injective returnType, name, parameters, throws, bodyCalls_injective body]

end Method

/-! ### Static blocks -/

namespace StaticBlock

def layout : Layout := ⟨[["line".toList]], by decide +kernel, by decide +kernel⟩

def segments (node : StaticBlock) : List (List BuilderCall) :=
  [node.lines.map fun line => callWith "line".toList [line]]

theorem writes (node : StaticBlock) :
    layout.Writes "StaticBlockBuilder::new()".toList node.segments node.builderCode where
  line := by decide
  spells := by
    rw [layout, segments]
    exact .cons (segment_callWith _ _ (by simp)) .nil
  code := by
    simp only [builderCode, segments, List.flatten_cons, List.flatten_nil, List.append_nil]

theorem render_of_builderCode {node other : StaticBlock}
    (same : node.builderCode = other.builderCode) : node.render = other.render := by
  have parts := (node.writes.inj other.writes same).2
  simp only [segments, List.cons.injEq, callWith_map_inj, and_true] at parts
  unfold render
  rw [parts]

end StaticBlock

/-! ### Classes -/

namespace ClassHead

/-- The methods that add members. -/
def memberMethods : List Text :=
  ["field".toList, "method".toList, "static_block".toList, "inner_class".toList, "comment".toList]

def layout : Layout :=
  ⟨[["header_comment".toList], ["package".toList], ["import".toList]] ++ (Lead.methods
    ++ [["name".toList], ["inner".toList], ["type_parameters".toList], ["super_class".toList],
      ["interface_name".toList], memberMethods, ["trailing_comment".toList]]),
    by decide +kernel, by decide +kernel⟩

/-- The segments for what the file of a class holds in front of it. -/
def fileSegments (head : ClassHead) : List (List BuilderCall) :=
  [head.headerComments.map (fun comment =>
      nestedCall "header_comment".toList comment.builderCode),
    head.package.toList.map (fun package => nestedCall "package".toList package.builderCode),
    head.imports.map fun node => nestedCall "import".toList node.builderCode]

/-- The segments behind what stands in front of a class, with the calls for its members. -/
def ownSegments (head : ClassHead) (members : List BuilderCall) : List (List BuilderCall) :=
  [[callWith "name".toList [head.name]],
    if head.inner then [rawCall "inner".toList yes] else [],
    head.typeParameters.toList.map (fun text => callWith "type_parameters".toList [text]),
    head.superclass.toList.map (fun type => callWith "super_class".toList [type]),
    head.interfaces.map (fun type => callWith "interface_name".toList [type]),
    members,
    head.trailingComments.map fun comment =>
      nestedCall "trailing_comment".toList comment.builderCode]

/-- A class has the segments of its file first, then those of its front, and its members among its
own. The calls for the members may be any that keep to the layout. -/
theorem writes (head : ClassHead) {members : List BuilderCall} (inside : ∀ call ∈ members,
    call.method ∈ memberMethods ∧ Breaks 4 '.' call.arguments) :
    layout.Writes head.kind.builder
      (head.fileSegments ++ (head.toLead.segments ++ head.ownSegments members))
      (head.builderCode members) where
  line := by cases head.kind <;> decide
  spells := by
    rw [layout, fileSegments, ownSegments]
    refine .append
      (.cons (segment_nestedCall _ (fun node _ => node.writes.isCode) (by simp))
      (.cons (segment_nestedCall _ (fun node _ => node.writes.isCode) (by simp))
      (.cons (segment_nestedCall _ (fun node _ => node.writes.isCode) (by simp)) .nil)))
      (head.toLead.spells.append
      (.cons (segment_callWith [head] (fun head => [head.name]) (by simp)) (.cons ?_
      (.cons (segment_callWith _ _ (by simp)) (.cons (segment_callWith _ _ (by simp))
      (.cons (segment_callWith _ _ (by simp)) (.cons inside
      (.cons (segment_nestedCall _ (fun node _ => node.writes.isCode) (by simp)) .nil))))))))
    cases head.inner with
    | false => exact nofun
    | true => exact segment_rawCall (by simp) (by decide)
  code := by
    simp only [builderCode, fileSegments, ownSegments, Lead.builderCalls_eq, List.flatten_append,
      List.flatten_cons, List.flatten_nil, List.append_nil, List.append_assoc, List.cons_append,
      List.nil_append]

theorem builder_injective : Function.Injective ClassKind.builder := by
  intro kind other same
  cases kind <;> cases other <;> first | rfl | exact absurd same (by decide)

/-- Every comment of a class but those among its members is made of lines. -/
structure Lined (head : ClassHead) : Prop where
  front : ∀ comment ∈ head.sectionComment, comment.Lined
  headers : ∀ comment ∈ head.headerComments, comment.Lined
  trailing : ∀ comment ∈ head.trailingComments, comment.Lined

theorem renderFileHead_of_segments {head other : ClassHead} (lined : head.Lined)
    (lined' : other.Lined) (same : head.fileSegments = other.fileSegments) :
    head.renderFileHead = other.renderFileHead := by
  simp only [fileSegments, List.cons.injEq, and_true] at same
  obtain ⟨headers, package, imports⟩ := same
  have headers : head.headerComments.map Comment.render =
      other.headerComments.map Comment.render :=
    map_of_nestedCalls (fun node mem node' mem' => Comment.render_of_builderCode
      (lined.headers node mem) (lined'.headers node' mem')) headers
  have package : head.package.map Package.render = other.package.map Package.render := by
    rw [← option_toList_inj, Option.toList_map, Option.toList_map]
    exact map_of_nestedCalls (fun _ _ _ _ => Package.render_of_builderCode) package
  have imports : head.imports.map Import.render = other.imports.map Import.render :=
    map_of_nestedCalls (fun _ _ _ _ => Import.render_of_builderCode) imports
  have whole : ∀ head : ClassHead, head.renderFileHead =
      (head.headerComments.map Comment.render).flatMap (· ++ ['\n'])
        ++ ((head.package.map Package.render).map (· ++ "\n\n".toList)).getD []
        ++ (if head.imports.map Import.render = [] then []
            else (head.imports.map Import.render).flatMap (· ++ ['\n']) ++ ['\n']) := by
    intro head
    simp only [renderFileHead, List.flatMap_map, Option.map_map, List.map_eq_nil_iff]
    rfl
  rw [whole, whole, headers, package, imports]

/-- The code of a class tells the calls for its members, and how the rest of it is rendered. -/
theorem render_of_builderCode {head other : ClassHead} (lined : head.Lined) (lined' : other.Lined)
    {members members' : List BuilderCall} (inside : ∀ call ∈ members,
      call.method ∈ memberMethods ∧ Breaks 4 '.' call.arguments)
    (inside' : ∀ call ∈ members', call.method ∈ memberMethods ∧ Breaks 4 '.' call.arguments)
    (same : head.builderCode members = other.builderCode members') :
    members = members' ∧ ∀ texts, head.render texts = other.render texts := by
  obtain ⟨kind, parts⟩ := (head.writes inside).inj (other.writes inside') same
  have kind := builder_injective kind
  obtain ⟨file, parts⟩ := List.append_inj parts rfl
  obtain ⟨lead, parts⟩ := List.append_inj parts rfl
  have file := renderFileHead_of_segments lined lined' file
  have lead := Lead.render_of_segments lined.front lined'.front lead
  simp only [ownSegments, List.cons.injEq, callWith_inj, callWith_map_inj, option_toList_inj,
    true_and, and_true] at parts
  obtain ⟨name, -, typeParameters, superclass, interfaces, calls, trailing⟩ := parts
  have trailing : head.trailingComments.map Comment.render =
      other.trailingComments.map Comment.render :=
    map_of_nestedCalls (fun node mem node' mem' => Comment.render_of_builderCode
      (lined.trailing node mem) (lined'.trailing node' mem')) trailing
  have behind : head.trailingComments.flatMap ('\n' :: ·.render) =
      other.trailingComments.flatMap ('\n' :: ·.render) := by
    have whole : ∀ comments : List Comment, comments.flatMap ('\n' :: ·.render) =
        (comments.map Comment.render).flatMap ('\n' :: ·) := by
      intro comments
      rw [List.flatMap_map]
    rw [whole, whole, trailing]
  have declaration : head.renderDeclaration = other.renderDeclaration := by
    rw [renderDeclaration, renderDeclaration, lead, kind, name, typeParameters, superclass,
      interfaces]
  refine ⟨calls, fun texts => ?_⟩
  rw [render, render, file, declaration, behind]

end ClassHead

/-! ### Members -/

theorem Member.builderMethod_mem (node : Member) :
    node.builderMethod ∈ ClassHead.memberMethods := by
  cases node with
  | field => exact .head _
  | method => exact .tail _ (.head _)
  | staticBlock => exact .tail _ (.tail _ (.head _))
  | classDecl => exact .tail _ (.tail _ (.tail _ (.head _)))
  | comment => exact .tail _ (.tail _ (.tail _ (.tail _ (.head _))))

mutual

theorem Member.isCode : ∀ node : Member, IsCode node.builderCode
  | .field node => node.writes.isCode
  | .method node => node.writes.isCode
  | .staticBlock node => node.writes.isCode
  | .classDecl head members => (head.writes (segment_builderCalls members)).isCode
  | .comment node => node.writes.isCode

/-- The code of a member is indented as an argument, so that it never goes on with the chain around
it. -/
theorem Member.segment_builderCalls : ∀ members : List Member, ∀ call ∈ builderCalls members,
    call.method ∈ ClassHead.memberMethods ∧ Breaks 4 '.' call.arguments
  | [] => nofun
  | node :: rest => by
      intro call mem
      rw [builderCalls, List.mem_cons] at mem
      rcases mem with rfl | mem
      · exact ⟨node.builderMethod_mem, breaks_nestedCode (isCode node) (by decide)⟩
      · exact segment_builderCalls rest call mem

end

/-! ### Kinds -/

/-- The builder of a kind of nodes. -/
def NodeKind.builder : NodeKind → Text
  | .packageStatement => "PackageBuilder".toList
  | .importStatement => "ImportBuilder".toList
  | .annotationUse => "AnnotationBuilder".toList
  | .javadoc => "JavadocBuilder".toList
  | .comment => "CommentBuilder".toList
  | .field => "FieldBuilder".toList
  | .method => "MethodBuilder".toList
  | .staticBlock => "StaticBlockBuilder".toList
  | .classDecl => "ClassBuilder".toList

theorem NodeKind.builder_injective : Function.Injective builder := by
  intro kind other same
  cases kind <;> cases other <;> first | rfl | exact absurd same (by decide)

/-- The builder that begins a code is told by what stands in front of its first colon. -/
theorem Layout.Writes.exists_builder {layout : Layout} {head code builder : Text}
    {segments : List (List BuilderCall)} (h : layout.Writes head segments code) (more : Text)
    (begins : head = builder ++ ':' :: more) : ∃ rest, code = builder ++ ':' :: rest := by
  rw [h.code, Chain.code_eq, begins, List.append_assoc, List.cons_append]
  exact ⟨_, rfl⟩

theorem Member.exists_builder (node : Member) :
    ∃ rest, node.builderCode = node.kind.builder ++ ':' :: rest := by
  cases node with
  | field node => exact node.writes.exists_builder ":new()".toList rfl
  | method node => exact node.writes.exists_builder ":new()".toList rfl
  | staticBlock node => exact node.writes.exists_builder ":new()".toList rfl
  | classDecl head members =>
      have writes := head.writes (segment_builderCalls members)
      cases kind : head.kind with
      | «class» => exact writes.exists_builder ":new()".toList (by rw [kind]; rfl)
      | interface => exact writes.exists_builder ":interface()".toList (by rw [kind]; rfl)
  | comment node =>
      cases style : node.style with
      | line => exact node.writes.exists_builder ":line()".toList (by rw [style]; rfl)
      | block => exact node.writes.exists_builder ":block()".toList (by rw [style]; rfl)
      | doc => exact node.writes.exists_builder ":doc()".toList (by rw [style]; rfl)

theorem Node.exists_builder (node : Node) :
    ∃ rest, node.builderCode = node.kind.builder ++ ':' :: rest := by
  cases node with
  | packageStatement node => exact node.writes.exists_builder ":new()".toList rfl
  | importStatement node => exact node.writes.exists_builder ":new()".toList rfl
  | annotationUse node => exact node.writes.exists_builder ":new()".toList rfl
  | javadoc node => exact node.writes.exists_builder ":new()".toList rfl
  | comment node => exact Member.exists_builder (.comment node)
  | field node => exact Member.exists_builder (.field node)
  | method node => exact Member.exists_builder (.method node)
  | staticBlock node => exact Member.exists_builder (.staticBlock node)
  | classDecl node => exact Member.exists_builder (.ofClass node)
  | member node => exact node.exists_builder

/-- Builder code names the kind of its node. -/
theorem Node.kind_of_builderCode {node other : Node}
    (same : node.builderCode = other.builderCode) : node.kind = other.kind := by
  obtain ⟨rest, whole⟩ := node.exists_builder
  obtain ⟨rest', whole'⟩ := other.exists_builder
  have plain : ∀ kind : NodeKind, ':' ∉ kind.builder := by
    intro kind
    cases kind <;> decide
  rw [whole, whole'] at same
  exact NodeKind.builder_injective (append_mark_inj (plain _) (plain _) same).1

/-! ### Trees -/

/-- A comment is made of lines. Other nodes need nothing. -/
def Node.Lined : Node → Prop
  | .comment node => node.Lined
  | .member (.comment node) => node.Lined
  | _ => True

/-- What holds of all the comments of a tree holds of those in front of a declaration. -/
theorem Lead.lined_of_owned {lead : Lead}
    (lined : ∀ part ∈ lead.owned, part.Throughout Node.Lined) :
    ∀ comment ∈ lead.sectionComment, comment.Lined := by
  intro comment here
  have mem : Node.comment comment ∈ lead.owned := by simp [owned, Option.mem_def.1 here]
  exact (Node.throughout_iff.1 (lined _ mem)).1

theorem ClassHead.lined_of_owned {head : ClassHead}
    (lined : ∀ part ∈ head.owned, part.Throughout Node.Lined) : head.Lined := by
  have comment : ∀ comment, Node.comment comment ∈ head.owned → comment.Lined :=
    fun comment mem => (Node.throughout_iff.1 (lined _ mem)).1
  constructor
  · exact fun node here => comment node (by simp [owned, Lead.owned, Option.mem_def.1 here])
  · exact fun node here => comment node (by simp [owned, here])
  · exact fun node here => comment node (by simp [owned, here])

mutual

/-- Two members with the same code are rendered alike. -/
theorem Member.render_of_builderCode : ∀ node other : Member,
    (Node.member node).Throughout Node.Lined → (Node.member other).Throughout Node.Lined →
    node.builderCode = other.builderCode → node.render = other.render
  | .field node, other, lined, lined', same => by
      have kind := @Node.kind_of_builderCode (.member (.field node)) (.member other) same
      cases other with
      | field other =>
          exact Field.render_of_builderCode
            (Lead.lined_of_owned (Node.throughout_iff.1 lined).2)
            (Lead.lined_of_owned (Node.throughout_iff.1 lined').2) same
      | _ => cases kind
  | .method node, other, lined, lined', same => by
      have kind := @Node.kind_of_builderCode (.member (.method node)) (.member other) same
      cases other with
      | method other =>
          have front : ∀ {node : Method}, (Node.member (.method node)).Throughout Node.Lined →
              ∀ comment ∈ node.sectionComment, comment.Lined := fun lined =>
            Lead.lined_of_owned fun part mem =>
              (Node.throughout_iff.1 lined).2 part (List.mem_append_left _ mem)
          exact Method.render_of_builderCode (front lined) (front lined') same
      | _ => cases kind
  | .staticBlock node, other, _, _, same => by
      have kind := @Node.kind_of_builderCode (.member (.staticBlock node)) (.member other) same
      cases other with
      | staticBlock other => exact StaticBlock.render_of_builderCode same
      | _ => cases kind
  | .classDecl head members, other, lined, lined', same => by
      have kind :=
        @Node.kind_of_builderCode (.member (.classDecl head members)) (.member other) same
      cases other with
      | classDecl head' members' =>
          have parts : ∀ {head : ClassHead} {members : List Member},
              (Node.member (.classDecl head members)).Throughout Node.Lined → head.Lined ∧
                ∀ node ∈ members, (Node.member node).Throughout Node.Lined := by
            intro head members lined
            have owned := (Node.throughout_iff.1 lined).2
            refine ⟨ClassHead.lined_of_owned fun part mem => ?_, fun node mem => ?_⟩
            · exact owned part (List.mem_append_left _ mem)
            · exact owned _ (List.mem_append_right _ (List.mem_map_of_mem mem))
          obtain ⟨calls, whole⟩ := ClassHead.render_of_builderCode (parts lined).1
            (parts lined').1 (segment_builderCalls members) (segment_builderCalls members') same
          have inside := renderEach_of_builderCalls members members' (parts lined).2
            (parts lined').2 calls
          rw [render, render, inside, whole]
      | _ => cases kind
  | .comment node, other, lined, lined', same => by
      have kind := @Node.kind_of_builderCode (.member (.comment node)) (.member other) same
      cases other with
      | comment other =>
          exact Comment.render_of_builderCode (Node.throughout_iff.1 lined).1
            (Node.throughout_iff.1 lined').1 same
      | _ => cases kind

theorem Member.renderEach_of_builderCalls : ∀ members others : List Member,
    (∀ node ∈ members, (Node.member node).Throughout Node.Lined) →
    (∀ node ∈ others, (Node.member node).Throughout Node.Lined) →
    builderCalls members = builderCalls others → renderEach members = renderEach others
  | [], [], _, _, _ => rfl
  | [], _ :: _, _, _, same => by simp [builderCalls] at same
  | _ :: _, [], _, _, same => by simp [builderCalls] at same
  | node :: rest, other :: others, lined, lined', same => by
      simp only [builderCalls, List.cons.injEq, nestedCall_inj] at same
      have first := render_of_builderCode node other (lined node List.mem_cons_self)
        (lined' other List.mem_cons_self) same.1.2
      have behind := renderEach_of_builderCalls rest others
        (fun node mem => lined node (List.mem_cons_of_mem _ mem))
        (fun node mem => lined' node (List.mem_cons_of_mem _ mem)) same.2
      rw [renderEach, renderEach, first, behind]

end

namespace Node

/-- The class member that a node is or can be. -/
def toMember? : Node → Option Member
  | .comment node => some (.comment node)
  | .field node => some (.field node)
  | .method node => some (.method node)
  | .staticBlock node => some (.staticBlock node)
  | .classDecl node => some (.ofClass node)
  | .member node => some node
  | _ => none

theorem toMember?_spec {node : Node} {member : Member} (h : node.toMember? = some member) :
    node.kind = member.kind ∧ node.builderCode = member.builderCode ∧
      node.render = member.render ∧
      (node.Throughout Lined → (Node.member member).Throughout Lined) := by
  have lined : ∀ {owned : List Node}, node.owned = owned → (Node.member member).owned = owned →
      (node.Lined → (Node.member member).Lined) →
      node.Throughout Lined → (Node.member member).Throughout Lined := by
    intro owned first second root whole
    obtain ⟨here, parts⟩ := throughout_iff.1 whole
    refine throughout_iff.2 ⟨root here, fun part mem => parts part ?_⟩
    rw [first]
    rwa [second] at mem
  cases node with
  | comment | field | method | staticBlock | member =>
      cases h
      exact ⟨rfl, rfl, rfl, lined rfl rfl id⟩
  | classDecl node =>
      cases h
      refine ⟨rfl, rfl, ?_, lined rfl rfl id⟩
      show node.toClassHead.render _ = node.toClassHead.render _
      rw [Member.renderEach_eq_map]
  | _ => cases h

/-- Two nodes with the same code are rendered alike, if their comments are made of lines. -/
theorem render_of_builderCode {node other : Node} (lined : node.Throughout Lined)
    (lined' : other.Throughout Lined) (same : node.builderCode = other.builderCode) :
    node.render = other.render := by
  have kinds := kind_of_builderCode same
  cases first : node.toMember? with
  | some member =>
      obtain ⟨kind, code, rendered, parts⟩ := toMember?_spec first
      cases second : other.toMember? with
      | some member' =>
          obtain ⟨-, code', rendered', parts'⟩ := toMember?_spec second
          rw [rendered, rendered']
          apply Member.render_of_builderCode member member' (parts lined) (parts' lined')
          rw [← code, ← code', same]
      | none =>
          rw [kind] at kinds
          cases other <;> cases second <;> cases member <;> cases kinds
  | none =>
      cases node with
      | packageStatement node =>
          cases other with
          | packageStatement other => exact Package.render_of_builderCode same
          | member other => cases other <;> cases kinds
          | _ => cases kinds
      | importStatement node =>
          cases other with
          | importStatement other => exact Import.render_of_builderCode same
          | member other => cases other <;> cases kinds
          | _ => cases kinds
      | annotationUse node =>
          cases other with
          | annotationUse other => exact Annotation.render_of_builderCode same
          | member other => cases other <;> cases kinds
          | _ => cases kinds
      | javadoc node =>
          cases other with
          | javadoc other => exact Javadoc.render_of_builderCode same
          | member other => cases other <;> cases kinds
          | _ => cases kinds
      | _ => cases first

end Node

end JavaUnit
