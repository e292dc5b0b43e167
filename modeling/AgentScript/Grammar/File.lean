import AgentScript.Grammar.Section

/-!
# Parsing files

A file is a sequence of imports and one agent. Anything else at the top is reported and
skipped. A tree is made as soon as an import or an agent has been recognized.
-/
namespace AgentScript

/-- How a text is to be parsed. -/
structure ParseOptions where
  /-- The label of the errors, usually the path of the file. -/
  file : Option String
  /-- The number of errors after which parsing stops, zero for no limit. -/
  maxErrors : Nat
deriving DecidableEq, Inhabited

def ParseOptions.standard : ParseOptions := ⟨none, 100⟩

/-- What has been read of a file. -/
structure FileParts where
  imports : List Import
  agent : Option Agent
  /-- Whether an import or an agent has been met, well-formed or not. -/
  recognized : Bool

def FileParts.empty : FileParts := ⟨[], none, false⟩

namespace FileParts

/-- Reads an import, or recovers from it. -/
def readImport (f : FileParts) (s : ParserState) : FileParts × ParserState :=
  let f := { f with recognized := true }
  match Parser.importLine s with
  | .ok i s => ({ f with imports := f.imports ++ [i] }, s)
  | .error p s => (f, s.recover p)

/-- Reads an agent, which only counts if it is the first. -/
def readAgent (f : FileParts) (s : ParserState) : FileParts × ParserState :=
  let f := { f with recognized := true }
  let location := s.current.location
  match Parser.agent s with
  | .ok a s =>
    match f.agent with
    | none => ({ f with agent := some a }, s)
    | some _ => (f, s.report ⟨.secondAgent, some location⟩)
  | .error p s => (f, s.recover p)

def reportIndentation (s : ParserState) : ParserState :=
  (s.report ⟨.unexpectedIndentation, some s.current.location⟩).skipBlock

def reportStray (s : ParserState) : ParserState :=
  s.recover ⟨.expected "'import' or 'agent'" s.kind s.current.text, some s.current.location⟩

def readItem (f : FileParts) (s : ParserState) : FileParts × ParserState :=
  match s.kind with
  | .newline => (f, s.advance)
  | .keyword .importWord => f.readImport s
  | .keyword (.opening .agent) => f.readAgent s
  | .indent => (f, reportIndentation s)
  | _ => (f, reportStray s)

/-- Reads the items of a file, at most `fuel` of them. An item without progress costs a token. -/
def readItems : Nat → FileParts → ParserState → FileParts × ParserState
  | 0, f, s => (f, s)
  | fuel + 1, f, s =>
    if s.atEnd || s.halted then (f, s)
    else
      let (f, after) := f.readItem s
      readItems fuel f (if after.remaining == s.remaining then after.advance else after)

end FileParts

/-- The tree of a text, absent if nothing in it was recognized, and what was wrong with it. -/
structure ParsedFile where
  tree : Option SourceFile
  errors : List ParseError
deriving Inhabited

namespace ParsedFile

/-- The tree of a file and the state in which its parse ends. -/
def read (s : ParserState) : Option SourceFile × ParserState :=
  let start := s.current.start
  let (f, s) := FileParts.empty.readItems s.remaining s
  if f.recognized then
    let s := if f.agent.isNone then s.report ⟨.missingAgent, none⟩ else s
    (some ⟨f.imports, f.agent, some (s.spanFrom start)⟩, s)
  else (none, s.report ⟨.nothingRecognized, none⟩)

def ofTokens (tokens : List Token) (options : ParseOptions) : ParsedFile :=
  let (tree, s) := read (.ofTokens tokens options.maxErrors)
  ⟨tree, s.problems.toList.map (·.toError options.file)⟩

end ParsedFile

end AgentScript
