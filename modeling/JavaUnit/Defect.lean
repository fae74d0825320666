/-
Module: JavaUnit.Defect
Purpose: Everything that can be wrong with a source text or with a node under construction, as
  causes, and the one place where their wording is fixed. Reading and building report lists of
  defects, so that one attempt shows all of them.
Main exports: Defect, Defect.message, mergeAfter
-/
import JavaUnit.Construct
import JavaUnit.Token

namespace JavaUnit

/-- The parts that a node cannot be built without. -/
inductive RequiredPart where
  | name | type | returnType
deriving DecidableEq, Repr

/-- What a name is the name of. -/
inductive NameRole where
  | packageStatement | importStatement | annotationUse | annotationParameter | classDecl | field
  | method | parameter
deriving DecidableEq, Repr

/-- What a type is the type of. -/
inductive TypeRole where
  | type | typeParameters | returnType | parameterType | exceptionType | superclass | interface
deriving DecidableEq, Repr

/-- What reading needed to see next. -/
inductive Expectation where
  | packageKeyword | importKeyword | staticKeyword
  | atSign | semicolon | openParen | openBrace | commaOrCloseParen
  | packageName | importName | annotationName | className | fieldName | methodName
  | parameterName | type | javadoc | comment
  | classBody (name : Text)
  | fieldEnd (name : Text)
  | initializerEnd
  | methodEnd (name : Text)
deriving DecidableEq, Repr

/-- A single cause of failure. -/
inductive Defect where
  /-- A part that has to be there is absent or blank. -/
  | missing (part : RequiredPart)
  | invalidName (role : NameRole) (name : Text)
  | invalidType (role : TypeRole) (text : Text)
  -- Modifiers
  | duplicateModifier (modifier : Modifier)
  | manyVisibilities (modifiers : List Modifier)
  | forbiddenModifier (modifier : Modifier) (kind : NodeKind)
  | conflictingModifiers (left right : Modifier)
  -- Annotations
  | unnamedValueNotAlone
  | blankAnnotationValue (label : Text)
  | invalidAnnotationValue (label : Text)
  -- Javadoc and comments
  | descriptionStartsWithTag (line : Text)
  | javadocCloser
  | invalidParamName (name : Text)
  | multilineTag (tag : Text)
  | invalidTag (tag : Text)
  | reservedTag (tag : Text)
  | multilineLineComment
  | commentCloser
  | docCommentPlacement
  -- Fields, methods and classes
  | blankInitializer (name : Text)
  | constructorReturnType
  | bodyOf (modifier : Modifier) (name : Text)
  | duplicateParameter (name : Text)
  | docHeaderAlone
  | innerFileScope
  | innerFileComments
  | interfaceSuperclass
  | nestedNotInner (name : Text)
  /-- A frozen node was to be changed. -/
  | frozen (kind : NodeKind)
  -- Reading
  | expected (what : Expectation) (found : Token)
  | trailingInput (construct : Construct) (found : Token)
  | misplacedComment (construct : Construct) (text : Text)
  | secondComment (rendered : Text)
  | undetermined
  | otherDeclaration (wanted found : DeclarationKind)
  | unclosedClass (name : Text)
  | unclosedBlock
  | unclosedParameterList
  | unbalancedAngle
  | manyDeclarators
  | annotationType
  | missingParamName
  | duplicateTag (tag : Text)
  | manySuperclasses
  | interfaceImplements
  -- Class bodies
  | twoJavadocs
  | javadocOnStaticBlock
  | annotationsOnStaticBlock
  | danglingJavadoc
  | danglingAnnotations
  -- File scope
  | packageAfterClass
  | secondPackage
  | packageAfterImport
  | importAfterClass
  | secondClass
  | outsideClass (kind : DeclarationKind)
  | missingClass
deriving DecidableEq, Repr

def RequiredPart.text : RequiredPart → Text
  | .name => "name".toList
  | .type => "type".toList
  | .returnType => "return type".toList

def NameRole.text : NameRole → Text
  | .packageStatement => "package".toList
  | .importStatement => "import".toList
  | .annotationUse => "annotation".toList
  | .annotationParameter => "annotation parameter".toList
  | .classDecl => "class".toList
  | .field => "field".toList
  | .method => "method".toList
  | .parameter => "parameter".toList

def TypeRole.text : TypeRole → Text
  | .type => "type".toList
  | .typeParameters => "type parameters".toList
  | .returnType => "return type".toList
  | .parameterType => "parameter type".toList
  | .exceptionType => "exception type".toList
  | .superclass => "superclass".toList
  | .interface => "interface".toList

/-- A text between single quotation marks. -/
def cited (text : Text) : Text :=
  '\'' :: text ++ ['\'']

def Expectation.text : Expectation → Text
  | .packageKeyword => cited "package".toList
  | .importKeyword => cited "import".toList
  | .staticKeyword => cited "static".toList
  | .atSign => cited ['@']
  | .semicolon => cited [';']
  | .openParen => cited ['(']
  | .openBrace => cited ['{']
  | .commaOrCloseParen => cited [','] ++ " or ".toList ++ cited [')']
  | .packageName => "a package name".toList
  | .importName => "an import name".toList
  | .annotationName => "an annotation name".toList
  | .className => "a class name".toList
  | .fieldName => "a field name".toList
  | .methodName => "a method name".toList
  | .parameterName => "a parameter name".toList
  | .type => "a type".toList
  | .javadoc => "a Javadoc comment".toList
  | .comment => "a comment".toList
  | .classBody name => cited ['{'] ++ " to open the body of ".toList ++ cited name
  | .fieldEnd name => cited [';'] ++ " after field ".toList ++ cited name
  | .initializerEnd => cited [';'] ++ " to end the field initializer".toList
  | .methodEnd name =>
    cited ['{'] ++ " or ".toList ++ cited [';'] ++ " after the declaration of ".toList ++ cited name

/-- How messages call a token that was found. -/
def Token.describe (token : Token) : Text :=
  if token.isEnd then "end of input".toList else cited token.text

def DeclarationKind.text (kind : DeclarationKind) : Text :=
  kind.nodeKind.text

namespace Defect

/-- The line that reports a defect. -/
def message : Defect → Text
  | .missing part => "Missing required field: ".toList ++ part.text
  | .invalidName role name => "Invalid ".toList ++ role.text ++ " name: ".toList ++ cited name
  | .invalidType role text => "Invalid ".toList ++ role.text ++ ": ".toList ++ cited text
  | .duplicateModifier modifier => "Found duplicate modifier: ".toList ++ modifier.text
  | .manyVisibilities modifiers =>
    "Found multiple visibility modifiers: ".toList
      ++ Text.join ", ".toList (modifiers.map Modifier.text)
  | .forbiddenModifier modifier kind =>
    "Modifier ".toList ++ cited modifier.text ++ " is not allowed on a ".toList ++ kind.text
  | .conflictingModifiers left right =>
    "Found conflicting modifiers: ".toList ++ left.text ++ ", ".toList ++ right.text
  | .unnamedValueNotAlone => "Unnamed annotation value must be the only parameter".toList
  | .blankAnnotationValue label =>
    "Missing value for annotation parameter ".toList ++ cited label
  | .invalidAnnotationValue label =>
    "Invalid value for annotation parameter ".toList ++ cited label
  | .descriptionStartsWithTag line =>
    "Javadoc description line cannot start with a tag: ".toList ++ cited line
  | .javadocCloser => "Javadoc text cannot contain '*/'".toList
  | .invalidParamName name => "Invalid @param name: ".toList ++ cited name
  | .multilineTag tag => "Javadoc tag text cannot span lines: @".toList ++ tag
  | .invalidTag tag => "Invalid Javadoc tag: ".toList ++ cited ('@' :: tag)
  | .reservedTag tag => "Use the dedicated setter for @".toList ++ tag
  | .multilineLineComment => "Line comments hold a single line".toList
  | .commentCloser => "Comment text cannot contain '*/'".toList
  | .docCommentPlacement => "Doc-style comments can only be file header comments".toList
  | .blankInitializer name =>
    "Field initializer of ".toList ++ cited name ++ " cannot be blank".toList
  | .constructorReturnType => "Constructors cannot declare a return type".toList
  | .bodyOf modifier name =>
    modifier.capitalized ++ " method ".toList ++ cited name ++ " cannot have a body".toList
  | .duplicateParameter name => "Duplicate parameter name: ".toList ++ name
  | .docHeaderAlone => "Doc-style header comments need a package or import after them".toList
  | .innerFileScope => "Inner classes cannot declare a package or imports".toList
  | .innerFileComments => "Inner classes cannot carry file comments".toList
  | .interfaceSuperclass =>
    "Interfaces cannot extend a superclass; list extended interfaces instead".toList
  | .nestedNotInner name =>
    "Nested class ".toList ++ cited name ++ " must be built as an inner class".toList
  | .frozen kind => "Cannot modify a frozen ".toList ++ kind.text
  | .expected what found =>
    "Expected ".toList ++ what.text ++ ", found ".toList ++ found.describe
  | .trailingInput construct found =>
    "Unexpected input after ".toList ++ construct.text ++ ": ".toList ++ found.describe
  | .misplacedComment construct text =>
    "Found comment inside ".toList ++ construct.text ++ " with nowhere to keep it: ".toList ++ text
  | .secondComment rendered =>
    "Found a second comment before a single declaration: ".toList ++ rendered
  | .undetermined => "Failed to determine result type".toList
  | .otherDeclaration wanted found =>
    "Expected a ".toList ++ wanted.text ++ " declaration, found a ".toList ++ found.text
  | .unclosedClass name =>
    "Reached end of input before the end of class ".toList ++ cited name
  | .unclosedBlock => "Reached end of input inside a block".toList
  | .unclosedParameterList => "Unterminated annotation parameter list".toList
  | .unbalancedAngle => "Unbalanced '<' in type".toList
  | .manyDeclarators => "Multiple field declarators are not supported!".toList
  | .annotationType => "Annotation type declarations are not supported".toList
  | .missingParamName => "Missing parameter name in @param tag".toList
  | .duplicateTag tag => "Found duplicate @".toList ++ tag ++ " tag".toList
  | .manySuperclasses => "Classes can only extend a single superclass!".toList
  | .interfaceImplements =>
    "Interfaces extend other interfaces instead of implementing them!".toList
  | .twoJavadocs => "Found two Javadoc-equivalents before a single member!".toList
  | .javadocOnStaticBlock => "Cannot attach Javadoc-equivalent to a static block!".toList
  | .annotationsOnStaticBlock => "Cannot attach annotations to a static block!".toList
  | .danglingJavadoc =>
    "Found Javadoc-equivalent at end of class with nothing to attach it to!".toList
  | .danglingAnnotations =>
    "Found annotation at end of class with nothing to attach it to!".toList
  | .packageAfterClass => "Encountered package declaration after class!".toList
  | .secondPackage => "Encountered two package declarations!".toList
  | .packageAfterImport => "Encountered package declaration after import statement!".toList
  | .importAfterClass => "Encountered import statement after class!".toList
  | .secondClass => "Encountered two outer level classes!".toList
  | .outsideClass kind => "Encountered ".toList ++ kind.text ++ " outside of a class!".toList
  | .missingClass => "Encountered end of input without a class declaration!".toList

end Defect

/-- `leading`, then those of `own` that `leading` does not hold yet. Repeats within either side
stay, so that a word written three times is reported twice. -/
def mergeAfter [DecidableEq α] (leading own : List α) : List α :=
  leading ++ own.filter (· ∉ leading)

/-- The lines that report some defects, as one text. -/
def messageText (defects : List Defect) : Text :=
  Text.unlines (defects.map Defect.message)

/-- Why building or changing a node failed. -/
structure BuildError where
  kind : NodeKind
  defects : List Defect
deriving DecidableEq, Repr

end JavaUnit
