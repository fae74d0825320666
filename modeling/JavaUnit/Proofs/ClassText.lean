/-
Module: JavaUnit.Proofs.ClassText
Purpose: The text of a class. What the class puts around its members is taken away again: where the
  indented text of each member reads as a member that renders alike, the text of the body reads as
  those members, and behind its opening the class is built again with them.
Main exports: bodyText, Reading.exists_body, Reading.takes_classRest, bodyText_eq
-/
import JavaUnit.Proofs.FileOrder
import JavaUnit.Proofs.MemberText
import JavaUnit.Proofs.OpeningText

namespace JavaUnit

/-! ### The body -/

/-- The text of a class behind the brace that opens its body. -/
def bodyText : List Member → Text
  | [] => " \x7d".toList
  | members => '\n' :: Text.join "\n\n".toList (members.map (·.render.indent)) ++ "\n\x7d".toList

/-- A class is rendered as its file, what is in front of it, its opening and its body. -/
theorem ClassDecl.render_eq (node : ClassDecl) :
    node.render = node.renderFileHead ++ (node.toLead.render ++
      (node.openingText (bodyText node.members) ++
        node.trailingComments.flatMap ('\n' :: ·.render))) := by
  have body : ∀ members : List Member, (if members.map Member.render = [] then " \x7b \x7d".toList
      else " \x7b\n".toList ++ Text.join "\n\n".toList ((members.map Member.render).map Text.indent)
        ++ "\n\x7d".toList) = ' ' :: '\x7b' :: bodyText members := by
    intro members
    cases members with
    | nil => rfl
    | cons => simp [bodyText, List.map_map, Function.comp_def]
  rw [render, ClassHead.render, body, List.append_assoc, List.append_assoc, ← List.append_assoc _
    _ (List.flatMap _ _), node.renderDeclaration_append]
  simp only [List.append_assoc]

/-- Whatever reads as a member has its place in a class. -/
theorem Alone.hasPlace {core : List Token} {node : Member} (h : Alone core node) :
    node.HasPlace := by
  cases h with
  | @comment token draft node plain draws built =>
      have ink : token.isWhitespace = false :=
        Reading.isWhitespace_eq_false_of_isComment (by simp [Token.isComment, plain])
      have here : [token].dropWhile Token.isWhitespace = [token] :=
        List.dropWhile_cons_of_neg (by simp [ink])
      have reads := Reading.reads_comment.2 ⟨rfl, token, draft, here, draws, built⟩
      exact (Reading.plain_of_comment reads plain).1
  | code code closed ink inside reads =>
      cases reads [] with
      | staticBlock => trivial
      | comment => exact absurd rfl code
      | @declared declared _ _ noBlock noComment reads =>
          cases declared with
          | field | method => trivial
          | classDecl node =>
              obtain ⟨_, _, _, _, -, declares, -⟩ := Reading.reads_bind.1 reads
              exact (Reading.bare_of_declaration declares).2.1

namespace Reading

variable {file : Text} {nodes agains : List Member}

/-- The body of a class whose members read back reads as those members. -/
theorem exists_body (each : List.Forall₂ (Member.Nests file) nodes agains) (post : Text) :
    ∃ tokens, Cuts (bodyText nodes ++ post) tokens post ∧ ∀ scope name later,
      ∃ items, (iterate (bodyItem nestedDeclaration scope name) []).Reads (tokens ++ later) items
        later [] ∧ attach items = (agains, []) := by
  have closing : Cut ('\x7d' :: post) _ post := cut_mark '\x7d' .closeBrace (by decide)
  have closes : ∀ {scope name items blanks later},
      (∀ token ∈ blanks, token.isWhitespace = true) →
      (iterate (bodyItem nestedDeclaration scope name) items).Reads
        (blanks ++ ⟨.closeBrace, ['\x7d']⟩ :: later) items later [] :=
    fun blank => reads_iterate_last ((BodyStep.close rfl).reads _ _ _ blank)
  cases each with
  | nil =>
      have cuts := (@cuts_blanks [' '] ('\x7d' :: post) rfl rfl).append (.cons closing .nil)
      refine ⟨_, cuts, fun scope name later => ⟨[], ?_, rfl⟩⟩
      rw [List.append_assoc]
      exact closes fun _ mem => isWhitespace_of_mem_blankTokens mem
  | @cons node again nodes agains nests others =>
      obtain ⟨tokens, cuts, row⟩ := exists_members (.cons nests others) (List.cons_ne_nil _ _)
        (show Text.isBlank ['\n'] = true by decide) post
      refine ⟨tokens ++ [⟨.closeBrace, ['\x7d']⟩], ?_, fun scope name later => ?_⟩
      · simpa [bodyText] using cuts.append (.cons closing .nil)
      · obtain ⟨⟨items, trail, blank, own, attached⟩, -⟩ :=
          row (⟨.closeBrace, ['\x7d']⟩ :: later) rfl
        refine ⟨items, ?_, ?_⟩
        · rw [List.append_assoc, List.singleton_append, own.reads_iterate]
          exact closes blank
        · simp [attach, attached {} rfl, Attachment.close, Attachment.addComments]

end Reading

theorem hasPlace_of_nests {file : Text} {members agains : List Member}
    (each : List.Forall₂ (Member.Nests file) members agains) :
    ∀ member ∈ agains, member.HasPlace := by
  induction each with
  | nil => simp
  | cons nests _ ih =>
      obtain ⟨_, _, _, -, -, -, alone, -⟩ := nests.exists_around
      exact List.forall_mem_cons.2 ⟨alone.hasPlace, ih⟩

/-- Members that render alike make bodies that do. -/
theorem bodyText_eq {file : Text} {members agains : List Member}
    (each : List.Forall₂ (Member.Nests file) members agains) :
    bodyText agains = bodyText members := by
  have same : agains.map (·.render.indent) = members.map (·.render.indent) := by
    induction each with
    | nil => rfl
    | cons nests _ ih => rw [List.map_cons, List.map_cons, nests.same, ih]
  cases each with
  | nil => rfl
  | cons => rw [bodyText, bodyText, same] <;> exact List.cons_ne_nil _ _

/-! ### The class -/

/-- With other members that have their places, a class is built from its copy without its file. -/
theorem ClassDecl.build_alone {node : ClassDecl} {members : List Member} (sound : node.Sound)
    (lawful : node.Lawful) (spelled : node.SpellsTypes)
    (places : ∀ member ∈ members, member.HasPlace) :
    (ClassDraft.ofNode ⟨node.alone, members⟩).build = .ok ⟨node.alone, members⟩ := by
  refine ClassDecl.build_ofNode_iff.2 ⟨?_, { lawful with }, ClassDecl.normal_iff.2 ?_⟩
  · exact {
      plain := sound.plain
      scope := fun _ scope => by simp [HasFileScope, ClassHead.alone] at scope
      header := fun doc => by simp [ClassHead.alone] at doc
      trailing := rfl
      file := fun _ => ⟨rfl, rfl⟩
      members := places }
  · exact ⟨fun text mem => (spelled.typeParameters text mem).normalize_eq,
      fun text mem => (spelled.superclass text mem).normalize_eq,
      fun text mem => (spelled.interfaces text mem).normalize_eq⟩

/-- Behind a preface that holds what is in front of it, a class whose members read back is read as
the class with what they read as. -/
theorem Reading.takes_classRest {file : Text} {node : ClassDecl} {agains : List Member}
    {preface : Preface} (lead : preface.toLeadDraft = LeadDraft.ofLead node.toLead)
    (sound : node.Sound) (lawful : node.Lawful) (spelled : node.SpellsTypes)
    (each : List.Forall₂ (Member.Nests file) node.members agains) (rest : Text) :
    (classRest nestedDeclaration preface node.inner).Takes
      (node.openingText (bodyText node.members ++ rest)) ⟨node.alone, agains⟩ rest := by
  obtain ⟨front, opens, head⟩ := @takes_opening _ (preface.scope .classDecl) lawful.name
    lawful.typeParameters lawful.superclass spelled (bodyText node.members ++ rest)
  obtain ⟨body, cuts, items⟩ := exists_body each rest
  refine ⟨_, opens.append cuts, fun later lexed => reads_classRest.2 ⟨rfl, ?_⟩⟩
  obtain ⟨items, row, attached⟩ := items (preface.scope .classDecl) node.name later
  obtain ⟨clean, built⟩ := Opening.attempt_ofHead lawful.name spelled agains
  refine ⟨.ofHead node.toClassHead, body ++ later, items, ?_, row, ?_, ?_⟩
  · rw [List.append_assoc]
    exact head _ (cuts.lexed lexed)
  · rw [attached, lead, clean]
  · rw [attached, lead, built]
    exact ClassDecl.build_alone sound lawful spelled (hasPlace_of_nests each)

end JavaUnit
