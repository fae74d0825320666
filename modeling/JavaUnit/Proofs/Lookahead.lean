/-
Module: JavaUnit.Proofs.Lookahead
Purpose: How far every reading of the grammar looks ahead. The parts of statements and declarations
  are steady; statements, fields, methods and classes pass over their semicolon or closing brace
  last, so none of them reads differently for what is written behind it.
Main exports: Reading.ends_packageStatement, Reading.ends_importStatement, Reading.ends_field,
  Reading.ends_method, Reading.ends_declaration
-/
import JavaUnit.Proofs.CommentAccounting
import JavaUnit.Proofs.Routing
import JavaUnit.Proofs.Steady

namespace JavaUnit

namespace Reading

variable {x y : List Token} {scope scope' : Scope}

/-! ### Types and names -/

/-- Type arguments are read alike up to the bracket that closes them. -/
theorem steady_angleGroup : Steady x y Eq (angleGroup scope) (angleGroup scope') := by
  refine steady_bump.bind fun opening => steady_scan.bind fun inside => ?_
  refine steady_skip.bind fun _ => steady_advance.bind fun closing => .ite (fun _ => ?_) fun _ => ?_
  · exact steady_pure rfl
  · exact steady_fail

theorem steady_typePart (parts : List Token) :
    Steady x y Eq (typePart scope parts) (typePart scope' parts) := by
  refine .peekTwo (fun closes second second' => ?_) fun next second => ?_
  · rcases Token.closes_iff.1 closes with kind | kind | kind | kind | kind <;> simp [kind]
  · refine .ite (fun _ => ?_) fun _ => .ite (fun _ => ?_) fun _ => .ite (fun _ => ?_) fun _ => ?_
    · exact steady_bump.bind fun _ => steady_bump.bind fun _ => steady_pure rfl
    · exact steady_angleGroup.bind fun _ => steady_pure rfl
    · exact steady_bump.bind fun _ => steady_pure rfl
    · exact steady_pure rfl

/-- A type ends in front of a token that does not go on with it. A token that closes is one, so that
what stands behind it does not matter. -/
theorem steady_type : Steady x y Eq (type scope) (type scope') := by
  refine steady_skipTrivia.bind fun _ => .current fun token => .ite (fun _ => ?_) fun _ => ?_
  · exact steady_advance.bind fun first =>
      (Steady.iterate steady_typePart [first]).bind fun _ => steady_pure rfl
  · exact steady_unexpected

theorem steady_typeList : Steady x y Eq (typeList scope) (typeList scope') := by
  refine steady_type.bind fun first => .iterate (fun types => ?_) [first]
  refine steady_accept.bind fun more => .ite (fun _ => ?_) fun _ => ?_
  · exact steady_type.bind fun _ => steady_pure rfl
  · exact steady_pure rfl

theorem steady_arrayDims : Steady x y Eq arrayDims arrayDims := by
  refine .iterate (fun dims => .peekTwo (fun closes second second' => ?_) fun next second => ?_) []
  · rcases Token.closes_iff.1 closes with kind | kind | kind | kind | kind <;> simp [kind]
  · refine .ite (fun _ => ?_) fun _ => ?_
    · exact steady_bump.bind fun _ => steady_bump.bind fun _ => steady_pure rfl
    · exact steady_pure rfl

/-- A name goes on behind a dot only. -/
theorem steady_qualifiedName {what : Expectation} :
    Steady x y Eq (qualifiedName scope what) (qualifiedName scope' what) := by
  refine steady_identifier.bind fun first => .iterate (fun name => ?_) first
  refine .peekTwo (fun closes second second' => ?_) fun next second => ?_
  · rcases Token.closes_iff.1 closes with kind | kind | kind | kind | kind <;> simp [kind]
  · refine .ite (fun _ => ?_) fun _ => ?_
    · exact steady_bump.bind fun _ => steady_bump.bind fun _ => steady_pure rfl
    · exact steady_pure rfl

/-! ### Statements -/

theorem ends_semicolon {what : Expectation} :
    Ends x y Eq (expect scope .semicolon what) (expect scope' .semicolon what) :=
  ends_expect fun kind => Token.closes_iff.2 (.inl kind)

/-- The semicolon is the last token that a statement passes over. -/
theorem ends_packageStatement : Ends x y Eq packageStatement packageStatement := by
  refine steady_scopeHere.ends_of (fun scope => ⟨scope, trivial⟩) fun scope scope' _ => ?_
  refine .finish (steady_expect.ends fun _ => steady_qualifiedName.ends fun name => ?_)
  exact ends_semicolon.pure fun _ _ _ => rfl

theorem ends_importStatement : Ends x y Eq importStatement importStatement := by
  refine steady_scopeHere.ends_of (fun scope => ⟨scope, trivial⟩) fun scope scope' _ => .finish ?_
  refine steady_expect.ends fun _ => .peek fun word => .when steady_bump ?_
  refine steady_qualifiedName.ends fun name =>
    .peekTwo (fun closes second second' => ?_) fun _ _ => ?_
  · rcases Token.closes_iff.1 closes with kind | kind | kind | kind | kind <;> simp [kind]
  · refine .ite (fun _ => steady_bump.ends fun _ => steady_bump.ends fun _ => ?_) fun _ => ?_
    all_goals exact ends_semicolon.pure fun _ _ _ => rfl

/-! ### Annotations -/

theorem steady_annotationValue :
    Steady x y Eq (annotationValue scope) (annotationValue scope') := by
  refine steady_skipTrivia.bind fun _ => steady_scan.bind fun value => .current fun token => ?_
  exact .ite (fun _ => steady_fail) fun _ => steady_pure rfl

/-- A value is read up to the comma or the parenthesis behind it, which is passed over. -/
theorem ends_annotationEnd (draft : AnnotationDraft) :
    Ends x y Eq
      (bump >>= fun closing =>
        if closing.kind = .comma then pure (Turn.again draft)
        else if closing.kind = .closeParen then pure (Turn.last draft)
        else unexpected scope .commaOrCloseParen)
      (bump >>= fun closing =>
        if closing.kind = .comma then pure (Turn.again draft)
        else if closing.kind = .closeParen then pure (Turn.last draft)
        else unexpected scope' .commaOrCloseParen) := by
  refine .bump fun closing => ?_
  by_cases comma : closing.kind = .comma
  · exact .advance_last (Token.closes_iff.2 (by simp [comma])) (if_pos comma) (if_pos comma) rfl
  by_cases paren : closing.kind = .closeParen
  · exact .advance_last (Token.closes_iff.2 (by simp [paren]))
      ((if_neg comma).trans (if_pos paren)) ((if_neg comma).trans (if_pos paren)) rfl
  · intro front back value skipped at_ reads
    rw [reads_advance_bind, at_, if_neg comma, if_neg paren] at reads
    exact absurd reads not_reads_unexpected

/-- A value of an annotation passes over its comma or closing parenthesis last. -/
theorem ends_annotationParam (draft : AnnotationDraft) :
    Ends x y Eq (annotationParam scope draft) (annotationParam scope' draft) := by
  refine .peekTwo (fun closes second second' => ?_) fun next second =>
    .ite (fun _ => ?_) fun _ => ?_
  · rcases Token.closes_iff.1 closes with kind | kind | kind | kind | kind <;> simp [kind]
  · refine steady_bump.ends fun name => steady_bump.ends fun _ => ?_
    refine steady_annotationValue.ends fun value => (steady_pure rfl).ends fun draft => ?_
    exact ends_annotationEnd draft
  · refine steady_annotationValue.ends fun value => (steady_pure rfl).ends fun draft => ?_
    exact ends_annotationEnd draft

/-- An annotation without parentheses looks one token further, for one that opens. -/
theorem steady_annotationUse : Steady x y Eq annotationUse annotationUse := by
  refine steady_scopeHere.bind_of fun scope scope' _ => .finish ?_
  refine steady_expect.bind fun _ => .peek fun word => .ite (fun _ => steady_fail_bind) fun _ => ?_
  refine steady_qualifiedName.bind fun name => .peek fun opening => .ite (fun _ => ?_) fun _ => ?_
  · refine steady_bump.bind fun _ => steady_accept.bind fun closed => .ite (fun _ => ?_) fun _ => ?_
    · exact (steady_pure rfl).bind fun _ => steady_pure rfl
    · exact (Steady.iterate (fun draft => (ends_annotationParam draft).steady) _).bind
        fun _ => steady_pure rfl
  · exact (steady_pure rfl).bind fun _ => steady_pure rfl

/-! ### Comments -/

/-- A comment is a token of its own. -/
theorem steady_comment : Steady x y Eq comment comment := by
  refine steady_scopeHere.bind_of fun scope scope' _ => .finish (.current fun token => ?_)
  cases commentDraft? token with
  | none => exact steady_unexpected
  | some draft => exact steady_advance.bind fun _ => steady_pure rfl

theorem steady_javadoc : Steady x y Eq javadoc javadoc := by
  refine steady_scopeHere.bind_of fun scope scope' _ => .finish (.current fun token => ?_)
  refine .ite (fun _ => ?_) fun _ => steady_unexpected
  exact steady_advance.bind fun _ => steady_pure rfl

end Reading

/-! ### In front of a declaration -/

/-- Prefaces that differ in the place where they begin. -/
def Preface.Alike (left right : Preface) : Prop :=
  right = { left with start := right.start }

namespace Preface.Alike

variable {left right : Preface}

theorem refl (preface : Preface) : preface.Alike preface := rfl

/-- Where it begins is not a part of what a preface reports. -/
theorem defects_eq (h : left.Alike right) : right.allDefects = left.allDefects := by
  rw [h]
  rfl

theorem toLeadDraft_eq (h : left.Alike right) : right.toLeadDraft = left.toLeadDraft := by
  rw [h]

theorem addComment (h : left.Alike right) (comment : Comment) :
    (left.addComment comment).Alike (right.addComment comment) := by
  rw [h]
  unfold Preface.addComment Preface.Alike
  split <;> rfl

theorem addAnnotation (h : left.Alike right) (used : Annotation) :
    (left.addAnnotation used).Alike (right.addAnnotation used) := by
  rw [h]
  rfl

theorem addModifier (h : left.Alike right) (modifier : Modifier) :
    (left.addModifier modifier).Alike (right.addModifier modifier) := by
  rw [h]
  rfl

end Preface.Alike

namespace Reading

variable {x y : List Token} {scope scope' : Scope} {preface preface' : Preface}

theorem steady_emptyPreface : Steady x y Preface.Alike emptyPreface emptyPreface :=
  steady_left.bind_of fun _ _ _ => steady_pure rfl

theorem steady_atStaticBlock : Steady x y Eq atStaticBlock atStaticBlock := by
  refine .peekTwo (fun closes second second' => ?_) fun next second => steady_pure rfl
  rcases Token.closes_iff.1 closes with kind | kind | kind | kind | kind <;>
    simp [kind, Token.keyword?]

/-- One item of a preface, or its end at a token that begins no other item. -/
theorem steady_prefaceItem (alike : preface.Alike preface') :
    Steady x y (Turn.Alike Preface.Alike) (prefaceItem preface) (prefaceItem preface') := by
  refine steady_skipWhitespace.bind fun _ => .current fun token => ?_
  refine .ite (fun _ => ?_) fun _ => .ite (fun _ => ?_) fun _ => ?_
  · exact steady_comment.bind fun comment => steady_pure (.again (alike.addComment comment))
  · exact steady_annotationUse.bind fun used => steady_pure (.again (alike.addAnnotation used))
  · refine steady_atStaticBlock.bind fun atBlock => .ite (fun _ => ?_) fun _ => ?_
    · exact steady_pure (.last alike)
    · cases token.keyword?.bind Keyword.modifier? with
      | none => exact steady_pure (.last alike)
      | some modifier =>
          exact steady_advance.bind fun _ => steady_pure (.again (alike.addModifier modifier))

theorem steady_modifierRun (alike : preface.Alike preface') :
    Steady x y Preface.Alike (modifierRun preface) (modifierRun preface') :=
  .iterate_of (fun _ _ => steady_prefaceItem) alike

/-! ### Fields and methods -/

/-- A block ends nowhere but at a brace that closes. -/
theorem insideBlock_eq_none {depth : Nat} {token : Token} (h : insideBlock depth token = none) :
    token.kind = .closeBrace := by
  rw [insideBlock] at h
  split at h
  · cases h
  · split at h
    · assumption
    · cases h

/-- A block passes over the brace that closes it last. -/
theorem ends_block {token : Token} (opens : token.kind = .openBrace) :
    EndsAt x y token Eq (block scope) (block scope') := by
  refine .advance (by simp [Token.isEnd, opens]) (.scan fun inside stop closes => ?_)
  refine .current (.ite (fun _ => ends_fail.at stop) fun within => ?_)
  obtain ⟨depth, stops⟩ := closes (by simpa using within)
  have closing : stop.closes = true := Token.closes_iff.2 (.inr (.inl (insideBlock_eq_none stops)))
  exact (endsAt_advance closing).pure fun _ _ _ => rfl

/-- An initializer runs up to its semicolon, and passes over it. -/
theorem ends_initializer : Ends x y Eq (initializer scope) (initializer scope') := by
  refine steady_scan.ends fun value => .current fun closing =>
    .ite (fun semicolon => ?_) fun _ => ?_
  · exact (endsAt_advance (Token.closes_iff.2 (.inl semicolon))).pure fun _ _ _ => rfl
  · exact .ite (fun _ => ends_fail.at closing) fun _ => ends_unexpected.at closing

/-- A field passes over its semicolon last, with an initializer in front of it or not. -/
theorem ends_field (alike : preface.Alike preface') :
    Ends x y Eq (field preface) (field preface') := by
  refine .finish ?_
  rw [alike.toLeadDraft_eq]
  refine steady_type.ends fun type => steady_identifier.ends fun name => ?_
  refine steady_arrayDims.ends fun dims => steady_skipTrivia.ends fun _ => .current fun next => ?_
  refine .ite (fun semicolon => ?_) fun _ => .ite (fun equals => ?_) fun _ => ?_
  · have closes : next.closes = true := Token.closes_iff.2 (.inl semicolon)
    exact (endsAt_advance closes).pure fun _ _ _ => rfl
  · refine .advance (by simp [Token.isEnd, equals]) ?_
    exact ends_initializer.pure fun _ _ same => same ▸ rfl
  · exact .ite (fun _ => ends_fail_bind.at next) fun _ => ends_unexpected_bind.at next

/-! ### Methods -/

theorem steady_parameterModifier (parameter : Parameter) :
    Steady x y Eq (parameterModifier parameter) (parameterModifier parameter) := by
  refine steady_skipTrivia.bind fun _ => .current fun token => ?_
  refine .ite (fun _ => ?_) fun _ => .ite (fun _ => ?_) fun _ => steady_pure rfl
  · exact steady_annotationUse.bind fun used => steady_pure rfl
  · exact steady_advance.bind fun _ => steady_pure rfl

theorem steady_parameter : Steady x y Eq (parameter scope) (parameter scope') := by
  refine (Steady.iterate steady_parameterModifier _).bind fun parameter => ?_
  refine steady_type.bind fun type => steady_identifier.bind fun name => ?_
  exact steady_arrayDims.bind fun dims => steady_pure rfl

theorem steady_parameters : Steady x y Eq (parameters scope) (parameters scope') := by
  refine steady_expect.bind fun _ => steady_accept.bind fun none => .ite (fun _ => ?_) fun _ => ?_
  · exact steady_pure rfl
  · refine .iterate (fun parameters => steady_parameter.bind fun parameter => ?_) _
    refine steady_accept.bind fun more => .ite (fun _ => steady_pure rfl) fun _ => ?_
    exact steady_expect.bind fun _ => steady_pure rfl

theorem steady_returnType (draft : MethodDraft) :
    Steady x y Eq (returnType scope draft) (returnType scope' draft) := by
  refine .peekTwo (fun closes second second' => ?_) fun next second =>
    .ite (fun _ => ?_) fun _ => ?_
  · rcases Token.closes_iff.1 closes with kind | kind | kind | kind | kind <;> simp [kind]
  · exact steady_pure rfl
  · exact steady_type.bind fun type => steady_pure rfl

theorem steady_typeParameters :
    Steady x y Eq (typeParameters scope) (typeParameters scope') := by
  refine .peek fun next => .ite (fun _ => ?_) fun _ => steady_pure rfl
  exact steady_angleGroup.bind fun group => steady_pure rfl

theorem steady_throwsClause : Steady x y Eq (throwsClause scope) (throwsClause scope') := by
  refine .peek fun next => .ite (fun _ => ?_) fun _ => steady_pure rfl
  exact steady_bump.bind fun _ => steady_typeList

/-- A method ends behind its semicolon, or behind the brace that closes its body. -/
theorem ends_methodBody (name : Text) (draft : MethodDraft) :
    Ends x y Eq (methodBody scope name draft) (methodBody scope' name draft) := by
  refine steady_skipTrivia.ends fun _ => .current fun next => .ite (fun opens => ?_) fun _ => ?_
  · exact (ends_block opens).pure fun _ _ same => same ▸ rfl
  · refine .ite (fun semicolon => ?_) fun _ => ends_unexpected.at next
    exact (endsAt_advance (Token.closes_iff.2 (.inl semicolon))).pure fun _ _ _ => rfl

theorem ends_method (alike : preface.Alike preface') :
    Ends x y Eq (method preface) (method preface') := by
  refine .finish ?_
  rw [alike.toLeadDraft_eq]
  refine steady_typeParameters.ends fun parameters => (steady_returnType _).ends fun draft => ?_
  refine steady_identifier.ends fun name => steady_parameters.ends fun parameters => ?_
  refine steady_throwsClause.ends fun types => ?_
  exact (ends_methodBody name _).pure fun _ _ same => same ▸ rfl

/-! ### Static blocks -/

theorem ends_staticBlock : Ends x y Eq staticBlock staticBlock := by
  refine steady_scopeHere.ends_of (fun scope => ⟨scope, trivial⟩) fun scope scope' _ => .finish ?_
  refine steady_expect.ends fun _ => steady_skipTrivia.ends fun _ => .current fun next => ?_
  refine .ite (fun opens => ?_) fun _ => ends_unexpected.at next
  exact (ends_block opens).pure fun _ _ same => same ▸ rfl

/-! ### The head of a class -/

/-- A clause stops at the latest in front of the brace that opens the body. -/
theorem steady_ancestryClause (kind : ClassKind) (name : Text) (ancestry : Ancestry) :
    Steady x y Eq (ancestryClause scope kind name ancestry)
      (ancestryClause scope' kind name ancestry) := by
  refine steady_skipTrivia.bind fun _ => .current fun next => ?_
  refine .ite (fun _ => ?_) fun _ => .ite (fun _ => ?_) fun _ => .ite (fun _ => ?_) fun _ => ?_
  · exact steady_advance.bind fun _ => steady_typeList.bind fun types => steady_pure rfl
  · exact steady_advance.bind fun _ => steady_typeList.bind fun types => steady_pure rfl
  · exact steady_advance.bind fun _ => steady_pure rfl
  · exact steady_unexpected

/-! ### The body of a class -/

/-- Whether a comment belongs to a declaration is told before a token that closes is passed. -/
theorem precedesDeclaration_append {front : List Token} (h : front.any Token.closes = true)
    (inBody : Bool) (behind behind' : List Token) :
    precedesDeclaration inBody (front ++ behind) =
      precedesDeclaration inBody (front ++ behind') := by
  cases front with
  | nil => cases h
  | cons token others =>
      rw [List.cons_append, List.cons_append, precedesDeclaration, precedesDeclaration]
      by_cases blank : token.isWhitespace = true
      · have open_ : token.closes = false :=
          Token.closes_eq_false_of_isTrivia (Token.isTrivia_iff.2 (.inl blank))
        rw [List.any_cons, open_, Bool.false_or] at h
        obtain ⟨next, others, rfl⟩ := List.exists_cons_of_ne_nil (ne_nil_of_any h)
        rfl
      · rw [if_neg blank, if_neg blank]

theorem length_lt_of_dropWhile {tokens rest : List Token} {token : Token}
    (h : tokens.dropWhile Token.isWhitespace = token :: rest) : rest.length < tokens.length := by
  have shorter := (List.dropWhile_sublist Token.isWhitespace (l := tokens)).length_le
  rw [h] at shorter
  exact shorter

/-- A comment is a token, which is passed over. -/
theorem moves_comment : Moves x comment := by
  intro back node skipped reads
  obtain ⟨-, token, _, ahead, -⟩ := reads_comment.1 reads
  exact Nat.lt_irrefl _ (length_lt_of_dropWhile ahead)

theorem moves_javadoc : Moves x javadoc := by
  intro back node skipped reads
  obtain ⟨-, token, ahead, -⟩ := reads_javadoc.1 reads
  exact Nat.lt_irrefl _ (length_lt_of_dropWhile ahead)

theorem moves_annotationUse : Moves x annotationUse :=
  .later fun _ => .finish ((moves_expect (by decide)).bind _)

theorem moves_staticBlock : Moves x staticBlock :=
  .later fun _ => .finish ((moves_expect (by decide)).bind _)

/-- Whether a comment belongs to the declaration behind it can be told inside of the class. -/
theorem steady_attaches (f : Bool → Comment → α) :
    Steady x y Eq
      (Reading.left >>= fun tokens => comment >>= fun node =>
        pure (f (precedesDeclaration true (tokens.drop 1)) node))
      (Reading.left >>= fun tokens => comment >>= fun node =>
        pure (f (precedesDeclaration true (tokens.drop 1)) node)) := by
  intro front back result skipped closes reads
  rw [reads_left_bind] at reads
  obtain ⟨node, mid, first, second, one, two, rfl⟩ := reads_bind.1 reads
  obtain ⟨rfl, rfl, rfl⟩ := reads_pure.1 two
  obtain ⟨_, rfl, one'⟩ := steady_comment closes one
  -- the comment itself is passed over, so looking behind it begins inside of the class
  have some : front ≠ [] := by
    rintro rfl
    exact moves_comment one
  obtain ⟨token, others, rfl⟩ := List.exists_cons_of_ne_nil some
  have same :=
    precedesDeclaration_append (by simp [closes] : (others ++ back).any _ = true) true x y
  rw [List.append_assoc, List.append_assoc] at same
  refine ⟨_, rfl, reads_left_bind.2 (reads_bind.2 ⟨node, _, first, [], one', ?_, rfl⟩)⟩
  rw [List.cons_append, List.cons_append, List.drop_one, List.drop_one, List.tail_cons,
    List.tail_cons, same]
  exact reads_pure.2 ⟨rfl, rfl, rfl⟩

/-- What comes next in a body is told by tokens of that body, as long as its brace is still
ahead. -/
theorem steady_bodyItem {nested nested' : Reading Declaration} (h : Ends x y Eq nested nested')
    (name : Text) (items : List BodyItem) :
    Steady x y Eq (bodyItem nested scope name items) (bodyItem nested' scope' name items) := by
  refine steady_skipWhitespace.bind fun _ => .current fun next => ?_
  refine .ite (fun _ => ?_) fun _ => .ite (fun _ => steady_fail) fun _ => ?_
  · exact steady_advance.bind fun _ => steady_pure rfl
  refine .ite (fun _ => ?_) fun _ => .ite (fun _ => ?_) fun _ => ?_
  · exact steady_advance.bind fun _ => steady_pure rfl
  · exact steady_javadoc.bind fun _ => steady_pure rfl
  refine .ite (fun _ => ?_) fun _ => .ite (fun _ => ?_) fun _ => ?_
  · exact steady_attaches fun attaches node => Turn.again (items ++
      [if attaches then .sectionComment node else .member (.comment node)])
  · exact steady_annotationUse.bind fun _ => steady_pure rfl
  refine steady_atStaticBlock.bind fun atBlock => .ite (fun _ => ?_) fun _ => ?_
  · exact ends_staticBlock.steady.bind fun _ => steady_pure rfl
  · exact h.steady.bind fun _ => steady_pure rfl

theorem moves_bodyItem {nested : Reading Declaration} (h : Moves x nested) (name : Text)
    (items : List BodyItem) : Moves x (bodyItem nested scope name items) := by
  refine .later fun _ => ?_
  intro back turn skipped reads
  have advances : ∀ {kind : Kind} {next : Token → Reading (Turn (List BodyItem))},
      (currentToken (back ++ x)).kind = kind → kind ≠ .eof →
      ¬ (advance >>= next).Reads (back ++ x) turn (back ++ x) skipped := by
    intro kind next here inside reads
    obtain ⟨token, _, _, one, -⟩ := reads_bind_still reads
    exact not_reads_advance (by simp [Token.isEnd, here, inside]) one
  simp only [reads_current_bind, reads_ite, not_reads_fail, and_false, false_or] at reads
  rcases reads with ⟨close, reads⟩ | ⟨-, -, ⟨semicolon, reads⟩ | ⟨-, ⟨-, reads⟩ | ⟨-, ⟨-, reads⟩ |
    ⟨-, ⟨-, reads⟩ | ⟨-, reads⟩⟩⟩⟩⟩
  · exact advances close (by decide) reads
  · exact advances semicolon (by decide) reads
  · exact moves_javadoc.bind _ reads
  · exact Moves.later (fun _ => moves_comment.bind _) reads
  · exact moves_annotationUse.bind _ reads
  · rw [reads_atStaticBlock_bind, reads_ite] at reads
    rcases reads with ⟨-, reads⟩ | ⟨-, reads⟩
    · exact moves_staticBlock.bind _ reads
    · exact h.bind _ reads

/-- White space and the token behind it are what is passed over up to where it ends. -/
theorem exists_blanks_token {front rest : List Token} {token : Token}
    (here : (front ++ rest).dropWhile Token.isWhitespace = token :: rest) :
    ∃ blanks, front = blanks ++ [token] ∧ ∀ token ∈ blanks, token.isWhitespace = true := by
  have split := List.takeWhile_append_dropWhile (p := Token.isWhitespace) (l := front ++ rest)
  rw [here, ← List.singleton_append, ← List.append_assoc, List.append_cancel_right_eq] at split
  exact ⟨_, split.symm, fun token mem => List.all_eq_true.1 List.all_takeWhile token mem⟩

/-- The brace that closes the body is passed over last. -/
theorem ends_bodyItem {nested nested' : Reading Declaration} {name : Text}
    {items items' : List BodyItem} {front back skipped : List Token}
    (h : (bodyItem nested scope name items).Reads (front ++ (back ++ x)) (.last items') (back ++ x)
      skipped) :
    Closed front ∧ (bodyItem nested' scope' name items).Reads (front ++ (back ++ y)) (.last items')
      (back ++ y) skipped := by
  rw [bodyItem, reads_skipWhitespace_bind, reads_current_bind, reads_ite] at h
  rcases h with ⟨close, h⟩ | ⟨-, h⟩
  · simp only [reads_advance_bind, reads_pure, Turn.last.injEq] at h
    obtain ⟨rfl, stop, rfl⟩ := h
    rw [if_neg (by simp [Token.isEnd, close])] at stop
    have here := eq_cons_tail rfl (by simp [Token.isEnd, close] : (currentToken
      ((front ++ (back ++ x)).dropWhile Token.isWhitespace)).isEnd = false)
    rw [← stop] at here
    generalize currentToken _ = brace at close here
    obtain ⟨blanks, rfl, blank⟩ := exists_blanks_token here
    have ink : brace.isWhitespace = false := by simp [Token.isWhitespace, close]
    refine ⟨(Closed.singleton (Token.closes_iff.2 (.inr (.inl close)))).append blanks, ?_⟩
    rw [bodyItem, reads_skipWhitespace_bind, List.append_assoc,
      List.dropWhile_append_of_pos blank, List.singleton_append,
      List.dropWhile_cons_of_neg (by simp [ink]),
      reads_current_bind]
    simp [currentToken, close, Token.isEnd]
  · simp only [reads_ite, not_reads_fail, reads_bind, reads_pure, reads_left] at h
    simp at h

/-- The items of a body are read alike, and then its brace. -/
theorem ends_body {nested nested' : Reading Declaration} (h : Ends x y Eq nested nested')
    (name : Text) :
    Ends x y Eq (iterate (bodyItem nested scope name) [])
      (iterate (bodyItem nested' scope' name) []) :=
  .iterate (steady_bodyItem h name) (moves_bodyItem h.moves name)
    (fun _ _ _ _ _ => ends_bodyItem) []

/-! ### Declarations -/

/-- A class passes over the brace that closes its body last. -/
theorem ends_classRest {nested nested' : Reading Declaration} (h : Ends x y Eq nested nested')
    (alike : preface.Alike preface') (inner : Bool) :
    Ends x y Eq (classRest nested preface inner) (classRest nested' preface' inner) := by
  refine .finish ?_
  rw [alike.toLeadDraft_eq]
  refine steady_bump.ends fun word => steady_identifier.ends fun name => ?_
  refine steady_note.ends fun _ => steady_typeParameters.ends fun parameters => ?_
  refine (Steady.iterate (steady_ancestryClause _ name) _).ends fun ancestry => ?_
  exact (ends_body h name).pure fun _ _ same => same ▸ rfl

theorem ends_declarationOf {nested nested' : Reading Declaration} (h : Ends x y Eq nested nested')
    (alike : preface.Alike preface') (inner : Bool) (kind : DeclarationKind) :
    Ends x y Eq (declarationOf nested preface inner kind)
      (declarationOf nested' preface' inner kind) := by
  cases kind with
  | classDecl => exact (ends_classRest h alike inner).pure fun _ _ same => same ▸ rfl
  | field => exact (ends_field alike).pure fun _ _ same => same ▸ rfl
  | method => exact (ends_method alike).pure fun _ _ same => same ▸ rfl

/-- Where a declaration of a kind is read, that kind is declared. -/
theorem classifyTarget_of_declarationOf {nested : Reading Declaration} {inner : Bool}
    {kind : DeclarationKind} {declared : Declaration} {tokens rest skipped : List Token}
    (class_ : kind = .classDecl → classifyTarget tokens = some .classDecl)
    (h : (declarationOf nested preface inner kind).Reads tokens declared rest skipped) :
    classifyTarget tokens = some kind := by
  cases kind with
  | classDecl => exact class_ rfl
  | field =>
      obtain ⟨node, mid, first, second, reads, -⟩ := reads_bind.1 h
      exact classifyTarget_of_field reads
  | method =>
      obtain ⟨node, mid, first, second, reads, -⟩ := reads_bind.1 h
      exact classifyTarget_of_method reads

/-- Behind its modifiers, a declaration without defects is read as what it declares. -/
theorem reads_declared {reading : Reading Declaration} {declared : Declaration}
    {tokens rest skipped : List Token} :
    (after preface.allDefects reading >>= fun declared =>
        if preface.allDefects = [] then pure declared
        else fail scope preface.allDefects).Reads tokens
        declared rest skipped ↔
      preface.allDefects = [] ∧ reading.Reads tokens declared rest skipped := by
  constructor
  · intro h
    obtain ⟨value, mid, first, second, one, two, rfl⟩ := reads_bind.1 h
    simp only [reads_ite, reads_pure, not_reads_fail, and_false, or_false] at two
    obtain ⟨clean, rfl, rfl, rfl⟩ := two
    rw [List.append_nil]
    exact ⟨clean, reads_after.1 one⟩
  · rintro ⟨clean, reads⟩
    refine reads_bind.2 ⟨declared, rest, skipped, [], reads_after.2 reads, ?_, by simp⟩
    rw [if_pos clean]
    exact reads_pure.2 ⟨rfl, rfl, rfl⟩

/-- The kind of a declaration is settled in front of its first semicolon or brace, so that another
text behind it leads to the same kind, and to the same declaration. -/
theorem ends_declarationWith {nested nested' : Reading Declaration} (h : Ends x y Eq nested nested')
    (alike : preface.Alike preface') (inner : Bool) :
    Ends x y Eq (declarationWith nested preface inner)
      (declarationWith nested' preface' inner) := by
  refine (steady_modifierRun alike).ends_of (fun run => ⟨run, .refl run⟩) fun run run' alike => ?_
  intro front back declared skipped reads
  rw [reads_left_bind, reads_note_bind] at reads
  cases target : classifyTarget (front ++ (back ++ x)) with
  | none =>
      rw [target] at reads
      exact absurd reads not_reads_fail
  | some kind =>
      rw [target] at reads
      obtain ⟨clean, reads⟩ := reads_declared.1 reads
      obtain ⟨closed, _, rfl, reads'⟩ := ends_declarationOf h alike inner kind reads
      have target' : classifyTarget (front ++ (back ++ y)) = some kind := by
        refine classifyTarget_of_declarationOf (fun isClass => classifyTarget_of_class ?_) reads'
        obtain ⟨token, same, -⟩ := peek_append closed.any
        have kinds := kind_of_classifyTarget (isClass ▸ target)
        rwa [same] at kinds ⊢
      refine ⟨closed, declared, rfl, ?_⟩
      rw [reads_left_bind, reads_note_bind, target']
      exact reads_declared.2 ⟨alike.defects_eq.trans clean, reads'⟩

/-- Nested declarations end alike, by the recursion on what is left to read. -/
theorem ends_nestedDeclaration : Ends x y Eq nestedDeclaration nestedDeclaration := by
  refine .recurse (fun reads => ?_) fun nested nested' ends => ?_
  · rw [reads_left_bind] at reads
    exact not_reads_fail reads
  · exact steady_emptyPreface.ends_of (fun preface => ⟨preface, .refl preface⟩)
      fun preface preface' alike => ends_declarationWith ends alike true

/-- A declaration passes over its semicolon or closing brace last. -/
theorem ends_declaration (alike : preface.Alike preface') (inner : Bool) :
    Ends x y Eq (declaration preface inner) (declaration preface' inner) :=
  ends_declarationWith ends_nestedDeclaration alike inner

end Reading

end JavaUnit
