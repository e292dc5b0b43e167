import AgentScript.Grammar.Parser

/-!
# Lines and blocks

A block is the indented lines under a line. Each line of it is parsed by itself and adds
to what the block has gathered; a line that fails is reported, and parsing resumes at the
next line of the same block. Skipping never passes the end of the block it started in.
-/
namespace AgentScript

namespace ParserState

/-- Passes tokens until `depth` more blocks have ended than begun, at most `fuel` of them. -/
def skipLevels : Nat → Nat → ParserState → ParserState
  | 0, _, s => s
  | _ + 1, 0, s => s
  | fuel + 1, depth + 1, s =>
    if s.atEnd then s
    else
      match s.kind with
      | .indent => skipLevels fuel (depth + 2) s.advance
      | .dedent => skipLevels fuel depth s.advance
      | _ => skipLevels fuel (depth + 1) s.advance

/-- Passes a whole block if one begins here. -/
def skipBlock (s : ParserState) : ParserState :=
  if s.kind == .indent then skipLevels s.remaining 1 s.advance else s

/-- Passes the rest of a broken line together with the block under it. A section keyword at
the beginning of a line also ends the skipping, once a token has been passed. -/
def skipLine (moved : Bool) : Nat → ParserState → ParserState
  | 0, s => s
  | fuel + 1, s =>
    match s.kind with
    | .eof => s
    | .dedent => s
    | .indent => s.skipBlock
    | .newline => s.advance.skipBlock
    | k =>
      if k.isSectionKeyword && s.atLineStart && moved then s
      else skipLine true fuel s.advance

/-- Goes on to the next point where parsing can resume. -/
def synchronize (s : ParserState) : ParserState := skipLine false (s.remaining + 1) s

def recover (s : ParserState) (p : ParseProblem) : ParserState := (s.report p).synchronize

def skipNewlines : Nat → ParserState → ParserState
  | 0, s => s
  | fuel + 1, s => if s.kind == .newline then skipNewlines fuel s.advance else s

end ParserState

namespace Parser

/-- The end of a logical line. A nested block may have ended the line already, and the end
of the enclosing block ends it too. -/
def finishLine : Parser Unit := fun s =>
  if s.kind == .newline then .ok () s.advance
  else if s.kind == .dedent || s.kind == .eof then .ok () s
  else if s.previous == some .newline || s.previous == some .dedent then .ok () s
  else unexpected "end of line" s

end Parser

/-- What a line leaves behind: what has been gathered with it, and the problem if it failed. -/
structure LineResult (α : Type) where
  gathered : α
  problem : Option ParseProblem
  state : ParserState

/-- Parses one line and adds it to what has been gathered. -/
abbrev LineParser (α : Type) := α → ParserState → LineResult α

namespace LineParser

/-- A line that adds its part as a whole, or nothing if it fails. -/
def whole {α : Type} (p : α → Parser α) : LineParser α := fun gathered s =>
  match p gathered s with
  | .ok a s => ⟨a, none, s⟩
  | .error e s => ⟨gathered, some e, s⟩

/-- A line that adds its part first and then has to end. -/
def thenFinish {α : Type} (line : LineParser α) : LineParser α := fun gathered s =>
  let r := line gathered s
  match r.problem with
  | some _ => r
  | none =>
    match Parser.finishLine r.state with
    | .ok () s => ⟨r.gathered, none, s⟩
    | .error e s => ⟨r.gathered, some e, s⟩

/-- A line that adds one item at the end of a list. -/
def item {α : Type} (p : Parser α) : LineParser (List α) :=
  whole fun items => do
    let a ← p
    return items ++ [a]

end LineParser

namespace ParserState

/-- One line of a block: a failed line is reported and skipped, and a line without progress
costs a token, unless the block ends there. -/
def lineRound {α : Type} (line : LineParser α) (gathered : α) (s : ParserState) :
    α × ParserState :=
  let r := line gathered s
  let after := match r.problem with
    | none => r.state
    | some p => r.state.recover p
  (r.gathered,
    if after.remaining == s.remaining && after.kind != .dedent then after.advance else after)

/-- The lines of a block that has begun, through its end. -/
def lines {α : Type} (line : LineParser α) : Nat → α → ParserState → α × ParserState
  | 0, gathered, s => (gathered, s)
  | fuel + 1, gathered, s =>
    let s := s.skipNewlines s.remaining
    if s.kind == .dedent then (gathered, s.advance)
    else if s.atEnd || s.halted then (gathered, s)
    else
      let (gathered, s) := s.lineRound line gathered
      lines line fuel gathered s

end ParserState

namespace Parser

/-- The lines of a block that has begun; each takes a token at least. -/
def blockLines {α : Type} (line : LineParser α) (gathered : α) : Parser α := fun s =>
  let (gathered, s) := s.lines line (s.remaining + 1) gathered
  .ok gathered s

/-- The end of a line, and the block under it if there is one. -/
def block {α : Type} (line : LineParser α) (gathered : α) : Parser α := do
  finishLine
  if ← eat .indent then blockLines line gathered else return gathered

end Parser

end AgentScript
