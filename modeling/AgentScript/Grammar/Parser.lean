import AgentScript.Grammar.State

/-!
# Parsers

A parser changes the state of a parse and answers with a result or a problem; the tokens
it passed before a problem stay passed. The basic parsers look at tokens, pass them, and
take names and strings.
-/
namespace AgentScript

abbrev Parser := EStateM ParseProblem ParserState

namespace Parser

def peek : Parser Token := fun s => .ok s.current s

def kind : Parser TokenKind := fun s => .ok s.kind s

def check (k : TokenKind) : Parser Bool := fun s => .ok (s.kind == k) s

def checkAhead (offset : Nat) (k : TokenKind) : Parser Bool := fun s =>
  .ok ((s.ahead offset).kind == k) s

/-- Passes the current token and answers with it. -/
def advance : Parser Token := fun s => .ok s.current s.advance

/-- Passes the current token if it is of the kind, and tells whether it is. -/
def eat (k : TokenKind) : Parser Bool := fun s =>
  if s.kind == k then .ok true s.advance else .ok false s

def spanFrom (start : Position) : Parser Location := fun s => .ok (s.spanFrom start) s

/-- What can be seen from the state without passing anything. -/
def look {α : Type} (f : ParserState → α) : Parser α := fun s => .ok (f s) s

/-- The number of tokens to come, which bounds the depth of blocks. -/
def remaining : Parser Nat := look ParserState.remaining

/-- The number of tokens to come on this line, which bounds every loop within it. -/
def lineLeft : Parser Nat := look ParserState.lineLeft

def report (cause : ParseCause) (location : Location) : Parser Unit := fun s =>
  .ok () (s.report ⟨cause, some location⟩)

def fail {α : Type} (cause : ParseCause) (location : Location) : Parser α := fun s =>
  .error ⟨cause, some location⟩ s

/-- Fails at the current token. -/
def failHere {α : Type} (cause : Token → ParseCause) : Parser α := fun s =>
  .error ⟨cause s.current, some s.current.location⟩ s

/-- Fails because something else was needed than the current token. -/
def unexpected {α : Type} (what : String) : Parser α :=
  failHere fun t => .expected what t.kind t.text

def expect (k : TokenKind) (what : String) : Parser Token := do
  if ← check k then advance else unexpected what

def ofNode {α : Type} (node : Except NodeError α) (location : Location) : Parser α :=
  match node with
  | .ok a => pure a
  | .error e => fail (.malformedNode e) location

def takeString (what : String) : Parser String := do
  let t ← expect .string what
  return Quoted.decodeString t.text

/-- Any word, as it is written. -/
def takeName (what : String) : Parser String := do
  if (← kind).isWordlike then
    let t ← advance
    return t.text
  else unexpected what

/-- The name of a section, which its colon may follow at once. -/
def takeSectionName (what : String) : Parser (Option String) := do
  if ← check .colon then return none
  else return some (← takeName what)

/-- A word that can stand before the arguments of a message; keywords cannot. -/
def takeOptionalName : Parser (Option String) := do
  let k ← kind
  if k == .properWord || k == .commonNoun || k.isLiteralWord then
    let t ← advance
    return some t.text
  else return none

/-- What follows a token of the kind, if there is one. -/
def optionally {α : Type} (k : TokenKind) (p : Parser α) : Parser (Option α) := do
  if ← eat k then return some (← p) else return none

/-- Items that each follow a separator, as long as there is one, at most `fuel` of them. -/
def eachAfter {α : Type} (separator : TokenKind) (item : Parser α) : Nat → Parser (List α)
  | 0 => return []
  | fuel + 1 => do
    if ← eat separator then
      let a ← item
      let rest ← eachAfter separator item fuel
      return a :: rest
    else return []

/-- The items that follow separators, none if there is no separator. -/
def followers {α : Type} (separator : TokenKind) (item : Parser α) : Parser (List α) := do
  eachAfter separator item (← lineLeft)

/-- At least one item, with separators between them. -/
def separated {α : Type} (separator : TokenKind) (first item : Parser α) : Parser (List α) := do
  let a ← first
  let rest ← followers separator item
  return a :: rest

end Parser

end AgentScript
