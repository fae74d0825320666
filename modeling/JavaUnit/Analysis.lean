/-
Module: JavaUnit.Analysis
Purpose: Analysing a source file in one go: reading it, finding canonical names, and freezing the
  result if that is wanted.
Main exports: AnalysisOptions, Analysis, analyzeStream, analyze, analyzeFile, analysisLog
-/
import JavaUnit.Document.Json
import JavaUnit.Document.Yaml
import JavaUnit.Outline
import JavaUnit.Problem

namespace JavaUnit

/-- What to do with a class that has been read. -/
structure AnalysisOptions where
  /-- Find the canonical names of annotations. -/
  resolve : Bool := true
  /-- Freeze the class. -/
  freeze : Bool := false
deriving DecidableEq, Repr

/-- A class that has been analysed, the same class as it was read, and what is known about its
annotations. -/
structure Analysis where
  node : ClassDecl
  unresolved : ClassDecl
  report : Report

namespace Analysis

/-- The canonical source text of the class. -/
def render (analysis : Analysis) : Text :=
  analysis.node.render

def json (analysis : Analysis) : Text :=
  analysis.node.outline.json

def yaml (analysis : Analysis) : Text :=
  analysis.node.outline.yaml

end Analysis

/-- Finds canonical names, if that is wanted. -/
def AnalysisOptions.resolution (options : AnalysisOptions) (node : ClassDecl) : Resolution :=
  if options.resolve then node.resolveOwn else { node, outcome := .ok {}, journal := [] }

/-- Analyses a class that has been read. -/
def AnalysisOptions.finish (options : AnalysisOptions) (parsed : ClassDecl) :
    Except FrozenClass Analysis × List Event :=
  let resolution := options.resolution parsed
  match resolution.outcome with
  | .error fault => (.error fault, resolution.journal)
  | .ok report =>
    let node := if options.freeze then resolution.node.freeze else resolution.node
    (.ok { node, unresolved := parsed, report },
      resolution.journal ++ [.analyzed node.kind node.name node.members.length])

/-- Analyses the class at the beginning of a stream of tokens, and tells what happened. -/
def analyzeStream (options : AnalysisOptions) (stream : TokenStream) :
    Except Problem Analysis × List Event :=
  let opening : List Event :=
    [.lexed stream.tokens.length stream.source.bytes, .positioned stream.tokens.length]
  match Entry.file.reading.run stream.tokens with
  | .failed failure journal => (.error (.ofFailure stream failure), opening ++ journal)
  | .read parsed _ _ journal =>
    let (outcome, events) := options.finish parsed
    (outcome.mapError .frozen, opening ++ journal ++ events)

/-- Analyses a source text with a name. -/
def analyze (options : AnalysisOptions) (name source : Text) : Except Problem Analysis := do
  let stream ← TokenStream.make name source
  (analyzeStream options stream).1

/-- The lines that analysing a source text with default options leaves in the journal, and whether
it succeeds. A text that cannot be cut into tokens leaves none. -/
def analysisLog (level : Level) (name source : Text) : Bool × List Text :=
  match TokenStream.make name source with
  | .error _ => (false, [])
  | .ok stream =>
    let (outcome, journal) := analyzeStream {} stream
    (outcome.toBool, showJournal stream level journal)

/-! ### Files -/

/-- What is found at a path. -/
inductive FileContent where
  | missing
  | bytes (data : ByteArray)

/-- The text of a file, or why it cannot be read. -/
def FileContent.text : FileContent → Except Text Text
  | .missing => .error "No such file or directory (os error 2)".toList
  | .bytes data =>
    match String.fromUTF8? data with
    | some source => .ok source.toList
    | none => .error "stream did not contain valid UTF-8".toList

/-- Analyses a file; its path names the source text. -/
def analyzeFile (path : Text) (content : FileContent) : Except Problem Analysis :=
  match content.text with
  | .error reason => .error (.unreadable path reason)
  | .ok source => analyze {} path source

end JavaUnit
