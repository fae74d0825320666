/-
Module: JavaUnit.Keyword
Purpose: The reserved words, and which of them name a type or a modifier.
Main exports: Keyword, Keyword.text, Keyword.lookup, Keyword.modifier?, Keyword.isType
-/
import JavaUnit.Modifier

namespace JavaUnit

/-- The reserved words of the language, the literals `true`, `false` and `null` among them. -/
inductive Keyword where
  | abstract | assert | boolean | break | byte | case
  | catch | char | «class» | const | continue | default
  | do | double | else | enum | extends | final
  | finally | float | for | goto | if | implements
  | import | instanceof | int | interface | long | native
  | new | package | «private» | «protected» | «public» | return
  | short | static | strictfp | super | switch | synchronized
  | this | throw | throws | transient | try | void
  | volatile | while | trueLiteral | falseLiteral | nullLiteral
deriving DecidableEq, Repr

namespace Keyword

/-- All keywords. -/
def all : List Keyword :=
  [.abstract, .assert, .boolean, .break, .byte, .case, .catch, .char,
    .class, .const, .continue, .default, .do, .double, .else, .enum,
    .extends, .final, .finally, .float, .for, .goto, .if, .implements,
    .import, .instanceof, .int, .interface, .long, .native, .new, .package,
    .«private», .«protected», .«public», .return, .short, .static, .strictfp,
    .super, .switch, .synchronized, .this, .throw, .throws, .transient, .try,
    .void, .volatile, .while, .trueLiteral, .falseLiteral, .nullLiteral]

/-- The spelling of a keyword. -/
def text : Keyword → Text
  | .abstract => "abstract".toList
  | .assert => "assert".toList
  | .boolean => "boolean".toList
  | .break => "break".toList
  | .byte => "byte".toList
  | .case => "case".toList
  | .catch => "catch".toList
  | .char => "char".toList
  | .class => "class".toList
  | .const => "const".toList
  | .continue => "continue".toList
  | .default => "default".toList
  | .do => "do".toList
  | .double => "double".toList
  | .else => "else".toList
  | .enum => "enum".toList
  | .extends => "extends".toList
  | .final => "final".toList
  | .finally => "finally".toList
  | .float => "float".toList
  | .for => "for".toList
  | .goto => "goto".toList
  | .if => "if".toList
  | .implements => "implements".toList
  | .import => "import".toList
  | .instanceof => "instanceof".toList
  | .int => "int".toList
  | .interface => "interface".toList
  | .long => "long".toList
  | .native => "native".toList
  | .new => "new".toList
  | .package => "package".toList
  | .«private» => "private".toList
  | .«protected» => "protected".toList
  | .«public» => "public".toList
  | .return => "return".toList
  | .short => "short".toList
  | .static => "static".toList
  | .strictfp => "strictfp".toList
  | .super => "super".toList
  | .switch => "switch".toList
  | .synchronized => "synchronized".toList
  | .this => "this".toList
  | .throw => "throw".toList
  | .throws => "throws".toList
  | .transient => "transient".toList
  | .try => "try".toList
  | .void => "void".toList
  | .volatile => "volatile".toList
  | .while => "while".toList
  | .trueLiteral => "true".toList
  | .falseLiteral => "false".toList
  | .nullLiteral => "null".toList

/-- The keyword that `word` spells. -/
def lookup (word : Text) : Option Keyword :=
  all.find? (·.text = word)

/-- The modifier that a keyword spells. -/
def modifier? : Keyword → Option Modifier
  | .«public» => some .«public»
  | .«protected» => some .«protected»
  | .«private» => some .«private»
  | .abstract => some .abstract
  | .default => some .default
  | .static => some .static
  | .final => some .final
  | .transient => some .transient
  | .volatile => some .volatile
  | .synchronized => some .synchronized
  | .native => some .native
  | .strictfp => some .strictfp
  | _ => none

/-- Whether a keyword names a primitive type or `void`, and so may start a declaration. -/
def isType : Keyword → Bool
  | .boolean | .byte | .short | .int | .long | .char | .float | .double | .void => true
  | _ => false

/-- The list of keywords is complete. -/
theorem mem_all (word : Keyword) : word ∈ all := by
  cases word <;> decide

end Keyword

end JavaUnit
