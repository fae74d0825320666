/-
Module: JavaUnit.Node.Lead
Purpose: What stands in front of the declaration of a field, a method or a class, and the
  rendering of blocks.
Main exports: Lead, Lead.render, renderBlock
-/
import JavaUnit.Node.Annotation
import JavaUnit.Node.Comment
import JavaUnit.Modifier

namespace JavaUnit

/-- What stands in front of a declaration. -/
structure Lead where
  sectionComment : Option Comment
  javadoc : Option Javadoc
  annotations : List Annotation
  modifiers : Modifiers
deriving DecidableEq

namespace Lead

/-- Comment, Javadoc and annotations on lines of their own, then the modifiers. -/
def render (lead : Lead) : Text :=
  (lead.sectionComment.toList.map Comment.render
      ++ lead.javadoc.toList.map Javadoc.render
      ++ lead.annotations.map Annotation.render).flatMap (· ++ ['\n'])
    ++ (if lead.modifiers.isEmpty then [] else lead.modifiers.render ++ [' '])

def freeze (lead : Lead) : Lead :=
  { lead with
    sectionComment := lead.sectionComment.map Comment.freeze
    javadoc := lead.javadoc.map Javadoc.freeze
    annotations := lead.annotations.map Annotation.freeze }

end Lead

/-- A block after what it belongs to, in braces. -/
def renderBlock (lines : List Text) : Text :=
  if lines = [] then " \x7b \x7d".toList
  else " \x7b\n".toList ++ (Text.unlines lines).indent ++ "\n\x7d".toList

/-- A text with something in front of it, if it is there. -/
def renderIf (text : Option Text) (render : Text → Text) : Text :=
  (text.map render).getD []

end JavaUnit
