/-
Module: JavaUnit.Journal
Purpose: What reading and resolving write down as they go, and how each entry is shown. Entries
  name places by the number of tokens left there, so that a journal does not depend on what comes
  before the text that is read.
Main exports: Event, Level, Event.level, Event.text, Journal.show
-/
import JavaUnit.Failure
import JavaUnit.Node.Member

namespace JavaUnit

/-- How important an entry is. -/
inductive Level where
  | warn | debug | trace
deriving DecidableEq, Repr

namespace Level

/-- Levels from the most important one down. -/
def rank : Level → Nat
  | .warn => 0
  | .debug => 1
  | .trace => 2

def text : Level → Text
  | .warn => "WARN".toList
  | .debug => "DEBUG".toList
  | .trace => "TRACE".toList

end Level

/-- Something that happened. -/
inductive Event where
  /-- A text was cut into tokens. -/
  | lexed (tokens bytes : Nat)
  /-- Reading is about to start. -/
  | positioned (left : Nat)
  /-- The modifiers of a declaration are read, and what follows them is looked at. -/
  | classified (left : Nat) (target : Option DeclarationKind)
  /-- The name of a class is read. -/
  | opened (kind : ClassKind) (name : Text)
  | failed (failure : Failure)
  /-- The items of a file are not in order. -/
  | misplaced (defect : Defect)
  /-- The annotations of a class are about to be resolved. -/
  | resolving (className : Text)
  | unresolved (name className : Text)
  /-- All annotations of a class were looked at. -/
  | resolved (className : Text) (resolved unresolved : Nat)
  | analyzed (kind : ClassKind) (name : Text) (members : Nat)
deriving DecidableEq, Repr

namespace Event

/-- The entries about cutting some texts into tokens. A text that is not made of tokens leaves
none. -/
def ofExamined (texts : List Text) : List Event :=
  texts.filterMap fun text =>
    (lex text).toOption.map fun tokens => .lexed tokens.length text.bytes

def level : Event → Level
  | .misplaced _ => .warn
  | .lexed .. | .positioned _ | .classified .. | .resolving _ => .trace
  | .opened .. | .failed _ | .unresolved .. | .resolved .. | .analyzed .. => .debug

def number (n : Nat) : Text :=
  Nat.toDigits 10 n

/-- How an entry calls the outcome of looking at a declaration. -/
def targetText : Option DeclarationKind → Text
  | none => "None".toList
  | some .classDecl => "Some(Class)".toList
  | some .field => "Some(Field)".toList
  | some .method => "Some(Method)".toList

/-- The line for an entry about reading `stream`. -/
def text (stream : TokenStream) : Event → Text
  | .lexed tokens bytes =>
    "lexed ".toList ++ number tokens ++ " tokens from ".toList ++ number bytes ++ " bytes".toList
  | .positioned left =>
    "parser positioned at token ".toList ++ number (stream.tokens.length - left)
      ++ " of ".toList ++ stream.name
  | .classified left target =>
    "declaration at token ".toList ++ number (stream.tokens.length - left)
      ++ " classified as ".toList ++ targetText target
  | .opened kind name => "parsing ".toList ++ kind.text ++ [' '] ++ name
  | .failed failure =>
    let place := failure.lineColumn stream
    "failed to parse ".toList ++ failure.construct.text ++ " at ".toList ++ stream.name
      ++ [':'] ++ number place.1 ++ [':'] ++ number place.2 ++ ": ".toList
      ++ Text.join " | ".toList (failure.defects.map Defect.message)
  | .misplaced defect => stream.name ++ ": ".toList ++ defect.message
  | .resolving className => "validating annotations of ".toList ++ className
  | .unresolved name className =>
    "no import resolves @".toList ++ name ++ " in ".toList ++ className
  | .resolved className written blank =>
    "canonical names for ".toList ++ className ++ ": ".toList ++ number written
      ++ " resolved, ".toList ++ number blank ++ " unresolved".toList
  | .analyzed kind name members =>
    "analyzed ".toList ++ stream.name ++ ": ".toList ++ kind.text ++ [' '] ++ name
      ++ " with ".toList ++ number members ++ " member(s)".toList

end Event

/-- The lines for the entries that are at least as important as `level`. -/
def showJournal (stream : TokenStream) (level : Level) (journal : List Event) : List Text :=
  (journal.filter (·.level.rank ≤ level.rank)).map fun event =>
    event.level.text ++ [' '] ++ event.text stream

end JavaUnit
