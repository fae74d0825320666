/-
Module: JavaUnit.Proofs.OpeningText
Purpose: The text of a class from the word that declares it to the brace that opens its body. The
  words in front of superclass and interfaces begin clauses, each with the types behind it; clause
  by clause the rendering is read as the ancestry that it was rendered from, if its types are
  spelled as types are read.
Main exports: Clause, Reading.takes_ancestry, Opening.ofHead, Reading.takes_opening,
  Opening.attempt_ofHead
-/
import JavaUnit.Proofs.BodySwap
import JavaUnit.Proofs.Copies
import JavaUnit.Proofs.Statements
import JavaUnit.Proofs.TypeGrammar

namespace JavaUnit

/-! ### Clauses -/

/-- A word in the head of a class and the types behind it. -/
structure Clause where
  word : Keyword
  types : List Text

namespace Clause

/-- The text of a clause, with the space behind it. -/
def text (clause : Clause) : Text :=
  clause.word.text ++ ' ' :: (Text.join ", ".toList clause.types ++ [' '])

/-- What a clause may look like. -/
structure Spelled (clause : Clause) : Prop where
  word : clause.word ∈ [.extends, .implements]
  present : clause.types ≠ []
  types : ∀ type ∈ clause.types, SpelledAs TypeTokens type

end Clause

section

variable {clauses : List Clause} {blanks rest : Text}

/-- The word of the next clause stands behind a clause, or the brace that opens the body. -/
theorem exists_cut_clauses (each : ∀ clause ∈ clauses, clause.Spelled) (rest : Text) :
    ∃ token after, Cut (clauses.flatMap Clause.text ++ '\x7b' :: rest) token after ∧
      token.kind ∈ [.keyword .extends, .keyword .implements, .openBrace] := by
  cases clauses with
  | nil => exact ⟨_, _, cut_mark '\x7b' .openBrace (by decide), by simp⟩
  | cons clause others =>
      have word := (each clause List.mem_cons_self).word
      rw [List.flatMap_cons, Clause.text, List.append_assoc, List.append_assoc]
      refine ⟨_, _, cut_keyword clause.word (stops_cons (by decide) _), ?_⟩
      simp only [List.mem_cons, List.not_mem_nil, or_false] at word
      rcases word with word | word <;> simp [word]

namespace Reading

/-- What a clause adds to the ancestry of a class. -/
def Ancestry.adding (ancestry : Ancestry) (kind : ClassKind) (clause : Clause) : Ancestry :=
  if clause.word = .extends then ancestry.extending kind clause.types
  else ancestry.implementing kind clause.types

variable {scope : Scope} {kind : ClassKind} {name : Text}

/-- A clause is read up to the next one. -/
theorem takes_clause {clause : Clause} (own : clause.Spelled)
    (each : ∀ clause ∈ clauses, clause.Spelled) (blank : blanks.isBlank = true)
    (ancestry : Ancestry) :
    (ancestryClause scope kind name ancestry).Takes
      (blanks ++ (clause.text ++ (clauses.flatMap Clause.text ++ '\x7b' :: rest)))
      (.again (ancestry.adding kind clause)) (clauses.flatMap Clause.text ++ '\x7b' :: rest) := by
  obtain ⟨word, present, types⟩ := own
  obtain ⟨next, after, behind, kinds⟩ := exists_cut_clauses each rest
  have matters : next.isTrivia = false := by
    simp only [List.mem_cons, List.not_mem_nil, or_false] at kinds
    rcases kinds with same | same | same <;>
      simp [Token.isTrivia, Token.isWhitespace, Token.isPlainComment, same]
  have stops : next.kind ∉ [.dot, .openBracket, .less, .ellipsis] ∧ next.kind ≠ .comma := by
    simp only [List.mem_cons, List.not_mem_nil, or_false] at kinds
    rcases kinds with same | same | same <;> simp [same]
  have cut := @cut_keyword (' ' :: (Text.join ", ".toList clause.types ++
    ' ' :: (clauses.flatMap Clause.text ++ '\x7b' :: rest))) clause.word (stops_cons (by decide) _)
  have list := @takes_typeList scope _ _ _ _ types present behind matters stops.1 stops.2
  have whole : clause.text ++ (clauses.flatMap Clause.text ++ '\x7b' :: rest) =
      clause.word.text ++ ' ' :: (Text.join ", ".toList clause.types ++
        ' ' :: (clauses.flatMap Clause.text ++ '\x7b' :: rest)) := by
    simp [Clause.text]
  rw [whole]
  refine (takes_skipTrivia blank cut rfl).bind (Takes.current (begins_of_cut cut) ?_)
  simp only [List.mem_cons, List.not_mem_nil, or_false] at word
  rw [Ancestry.adding]
  rcases word with word | word
  · rw [if_pos (by rw [word]), if_pos word]
    exact (takes_advance cut).bind (list.bind takes_pure)
  · rw [if_neg (by simp [word]), if_pos (by rw [word]), if_neg (by simp [word])]
    exact (takes_advance cut).bind (list.bind takes_pure)

/-- The clauses in front of a class body are read one by one, up to the brace. -/
theorem takes_ancestry (each : ∀ clause ∈ clauses, clause.Spelled) (blank : blanks.isBlank = true)
    (ancestry : Ancestry) :
    (iterate (ancestryClause scope kind name) ancestry).Takes
      (blanks ++ (clauses.flatMap Clause.text ++ '\x7b' :: rest))
      (clauses.foldl (·.adding kind ·) ancestry) rest := by
  induction clauses generalizing blanks ancestry with
  | nil =>
      have brace : Ahead (blanks ++ '\x7b' :: rest) ⟨.openBrace, ['\x7b']⟩ rest :=
        .of_blanks blank (.of_cut (cut_mark '\x7b' .openBrace (by decide)) rfl)
      obtain ⟨tokens, cuts, passes⟩ := brace.exists_passes
      exact .last (takes_of_reads cuts fun later =>
        reads_ancestryClause_last.2 ⟨rfl, _, rfl, passes later⟩)
  | cons clause others ih =>
      obtain ⟨own, each⟩ := List.forall_mem_cons.1 each
      rw [List.flatMap_cons, List.append_assoc]
      refine Takes.again (takes_clause own each blank ancestry) ?_ (@ih [] each rfl _)
      intro same
      have lengths := congrArg List.length same
      simp only [Clause.text, List.length_append, List.length_cons, List.length_nil] at lengths
      omega

end Reading

end

/-! ### The head of a class -/

/-- The keyword that declares a class of a kind. -/
def ClassKind.keyword : ClassKind → Keyword
  | .class => .class
  | .interface => .interface

/-- The keyword in front of the interfaces of a class of a kind. -/
def ClassKind.interfacesKeyword : ClassKind → Keyword
  | .class => .implements
  | .interface => .extends

namespace ClassHead

/-- The clauses in the head of a class. -/
def clauses (head : ClassHead) : List Clause :=
  head.superclass.toList.map (⟨.extends, [·]⟩)
    ++ if head.interfaces = [] then [] else [⟨head.kind.interfacesKeyword, head.interfaces⟩]

/-- The types in the head of a class are spelled as types are read. -/
structure SpellsTypes (head : ClassHead) : Prop where
  typeParameters : ∀ text ∈ head.typeParameters, SpelledAs AngleTokens text
  superclass : ∀ text ∈ head.superclass, SpelledAs TypeTokens text
  interfaces : ∀ text ∈ head.interfaces, SpelledAs TypeTokens text

variable {head : ClassHead}

theorem SpellsTypes.spelled (h : head.SpellsTypes) : ∀ clause ∈ head.clauses, clause.Spelled := by
  intro clause mem
  rw [clauses, List.mem_append, List.mem_map] at mem
  rcases mem with ⟨type, mem, rfl⟩ | mem
  · exact ⟨by simp, List.cons_ne_nil _ _,
      List.forall_mem_singleton.2 (h.superclass type (Option.mem_toList.1 mem))⟩
  · split at mem
    · cases mem
    · next present =>
        obtain rfl := List.mem_singleton.1 mem
        exact ⟨by cases head.kind <;> simp [ClassKind.interfacesKeyword], present, h.interfaces⟩

/-- The clauses of a class come to its ancestry. -/
theorem foldl_clauses (plain : head.kind = .interface → head.superclass = none) :
    head.clauses.foldl (·.adding head.kind ·) {} =
      ({ superclass := head.superclass, interfaces := head.interfaces } : Reading.Ancestry) := by
  rw [clauses]
  cases kind : head.kind <;> cases superclass : head.superclass <;>
    by_cases none : head.interfaces = [] <;>
    simp_all [Reading.Ancestry.adding, Reading.Ancestry.extending, Reading.Ancestry.implementing,
      ClassKind.interfacesKeyword]

/-- A class from the word that declares it up to its body. -/
def openingText (head : ClassHead) (rest : Text) : Text :=
  head.kind.keyword.text ++ ' ' :: (head.name ++ (head.typeParameters.getD [] ++
    ' ' :: (head.clauses.flatMap Clause.text ++ '\x7b' :: rest)))

/-- A declaration is rendered as what is in front of it and its opening. -/
theorem renderDeclaration_append (head : ClassHead) (rest : Text) :
    head.renderDeclaration ++ ' ' :: '\x7b' :: rest =
      head.toLead.render ++ head.openingText rest := by
  have extending : " extends ".toList = ' ' :: (Keyword.text .extends ++ [' ']) := rfl
  have word : head.kind.text = head.kind.keyword.text := by cases head.kind <;> rfl
  have word' : head.kind.interfacesWord = head.kind.interfacesKeyword.text := by
    cases head.kind <;> rfl
  rw [renderDeclaration, openingText, clauses, word, word', extending]
  cases head.typeParameters <;> cases head.superclass <;> by_cases none : head.interfaces = [] <;>
    simp [renderIf, none, Clause.text, Text.join]

/-- The head of a class without the file around it. -/
def alone (head : ClassHead) : ClassHead :=
  { head with headerComments := [], package := none, imports := [], trailingComments := [] }

end ClassHead

namespace Reading

/-- What is read of a class in front of its body. -/
def Opening.ofHead (head : JavaUnit.ClassHead) : Opening where
  word := ⟨.keyword head.kind.keyword, head.kind.keyword.text⟩
  name := head.name
  parameters := head.typeParameters
  ancestry := { superclass := head.superclass, interfaces := head.interfaces }

theorem Opening.kind_ofHead (head : JavaUnit.ClassHead) :
    (if (Opening.ofHead head).word.keyword? = some .interface then ClassKind.interface
      else .class) = head.kind := by
  rw [ofHead]
  cases head.kind <;> rfl

variable {head : JavaUnit.ClassHead}

/-- The opening of a class is read back. -/
theorem takes_opening {scope : Scope} (known : isIdentifier head.name = true)
    (bracketed : ∀ text ∈ head.typeParameters, IsBracketed text)
    (plain : head.kind = .interface → head.superclass = none) (spelled : head.SpellsTypes)
    (rest : Text) : (opening scope).Takes (head.openingText rest) (.ofHead head) rest := by
  obtain ⟨next, after, cut, kinds⟩ := exists_cut_clauses spelled.spelled rest
  have matters : next.isTrivia = false ∧ next.kind ≠ .less := by
    simp only [List.mem_cons, List.not_mem_nil, or_false] at kinds
    rcases kinds with same | same | same <;>
      simp [Token.isTrivia, Token.isWhitespace, Token.isPlainComment, same]
  have ends : (head.typeParameters.getD [] ++
      ' ' :: (head.clauses.flatMap Clause.text ++ '\x7b' :: rest)).head?.all (!isWordPart ·) =
        true := by
    cases parameters : head.typeParameters with
    | none => exact stops_cons (by decide) _
    | some text =>
        obtain ⟨more, rfl⟩ := List.head?_eq_some_iff.1 (bracketed text parameters).1
        exact stops_cons (by decide) _
  have word := @cut_keyword (' ' :: (head.name ++ (head.typeParameters.getD [] ++
    ' ' :: (head.clauses.flatMap Clause.text ++ '\x7b' :: rest)))) head.kind.keyword
      (stops_cons (by decide) _)
  refine (takes_bump (.of_cut word rfl)).bind ?_
  refine (takes_identifier (.of_space (.of_cut (cut_identifier known ends) rfl))).bind ?_
  refine (takes_typeParameters spelled.typeParameters cut matters.1 matters.2).bind ?_
  have clauses := @takes_ancestry _ [' '] rest scope
    (if (Opening.ofHead head).word.keyword? = some .interface then ClassKind.interface else .class)
    head.name spelled.spelled rfl {}
  rw [Opening.kind_ofHead, head.foldl_clauses plain] at clauses
  refine Takes.bind ?_ takes_pure
  have kind := Opening.kind_ofHead head
  rw [Opening.ofHead] at kind
  rw [kind]
  exact clauses

end Reading

/-! ### The draft -/

/-- Parts of a class that begin and end with no white space are put into its draft as they are. -/
theorem ClassDraft.ofParts_of_trimmed {draft : ClassDraft} {parameters superclass : Option Text}
    {interfaces : List Text} (bounded : ∀ text ∈ parameters, text.trim = text)
    (extended : ∀ text ∈ superclass, text.trim = text)
    (implemented : ∀ text ∈ interfaces, text.trim = text) :
    draft.ofParts parameters superclass interfaces =
      { draft with
        typeParameters := parameters.or draft.typeParameters
        superclass := superclass.or draft.superclass
        interfaces := draft.interfaces ++ interfaces } := by
  have each : ∀ draft : ClassDraft, interfaces.foldl addInterface draft =
      { draft with interfaces := draft.interfaces ++ interfaces } := by
    induction interfaces with
    | nil => simp
    | cons type others ih =>
        obtain ⟨own, implemented⟩ := List.forall_mem_cons.1 implemented
        intro draft
        rw [List.foldl_cons, ih implemented, addInterface, own]
        simp
  rw [ofParts, each]
  cases parameters with
  | none =>
      cases superclass with
      | none => rfl
      | some text => simp [withSuperclass, extended text rfl]
  | some parameters =>
      cases superclass with
      | none => simp [withTypeParameters, bounded parameters rfl]
      | some text => simp [withTypeParameters, withSuperclass, bounded parameters rfl,
          extended text rfl]

/-- With members behind its opening, a class comes to what is built from its copy. -/
theorem Reading.Opening.attempt_ofHead {head : JavaUnit.ClassHead}
    (known : isIdentifier head.name = true) (spelled : head.SpellsTypes) (members : List Member) :
    ((Opening.ofHead head).attempt (LeadDraft.ofLead head.toLead) head.inner (members, [])).defects
        = [] ∧
      ((Opening.ofHead head).attempt (LeadDraft.ofLead head.toLead) head.inner
        (members, [])).built = (ClassDraft.ofNode ⟨head.alone, members⟩).build := by
  have bounded : ∀ text ∈ head.typeParameters, text.trim = text :=
    fun text mem => (spelled.typeParameters text mem).trim_eq
  have extended : ∀ text ∈ head.superclass, text.trim = text :=
    fun text mem => (spelled.superclass text mem).trim_eq
  have implemented : ∀ text ∈ head.interfaces, text.trim = text :=
    fun text mem => (spelled.interfaces text mem).trim_eq
  refine ⟨rfl, ?_⟩
  rw [Opening.attempt, Opening.kind_ofHead]
  simp only [Opening.ofHead, ClassDraft.withName, trim_of_isIdentifier known,
    ClassDraft.ofParts_of_trimmed bounded extended implemented, Option.or_none, List.nil_append]
  rfl

end JavaUnit
