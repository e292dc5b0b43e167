import AgentScript.Lexeme.Captured

/-!
# Embedded code

A marker is a dollar sign, an optional language in ASCII letters, and one or three angle
brackets. After one bracket the rest of the line is an expression, up to an arrow outside
quotes; after three the indented lines below are a block.
-/
namespace AgentScript.Lexeme

open CharClass Scanner

/-- The two forms of markers. -/
inductive MarkerForm
  | inline | block
deriving DecidableEq

def MarkerForm.kind : MarkerForm → TokenKind
  | inline => .embeddedMarker
  | block => .embeddedBlockMarker

def MarkerForm.ofBrackets? : Nat → Option MarkerForm
  | 1 => some inline
  | 3 => some block
  | _ => none

/-- The letters after the dollar sign that a text begins with. -/
def markerLanguage (text : List Char) : List Char := text.tail.takeWhile isAsciiLetter

/-- The number of angle brackets after the letters. -/
def markerBrackets (text : List Char) : Nat :=
  spanLength (· == '>') (text.tail.drop (markerLanguage text).length)

def markerForm? (text : List Char) : Option MarkerForm :=
  MarkerForm.ofBrackets? (markerBrackets text)

def markerLength (text : List Char) : Nat := 1 + (markerLanguage text).length + markerBrackets text

def isKnownLanguage (name : String) : Bool := name == "" || name == "js" || name == "ts"

def isCodeQuote (c : Char) : Bool := c == '"' || c == '\x27' || c == '\x60'

/-- The quote that is open after a character, given the one open before it. -/
def quoteAfter (quote : Option Char) (c : Char) : Option Char :=
  match quote with
  | some q => if c = q then none else quote
  | none => if isCodeQuote c then some c else none

/-- The length of an expression without the whitespace at its end, inside `quote` if there is
one. -/
def codeLength : Option Char → List Char → Nat
  | _, [] => 0
  | _, [c] => if isWhitespace c then 0 else 1
  | quote, c :: d :: rest =>
    if isLineBreak c then 0
    else if quote = none ∧ c = '-' ∧ d = '>' then 0
    else if quote ≠ none ∧ c = '\\' ∧ isLineBreak d = false then codeLength quote rest + 2
    else
      let n := codeLength (quoteAfter quote c) (d :: rest)
      if n = 0 && isWhitespace c then 0 else n + 1

def inlineCode : Scanner :=
  andThen (skipping blankLength) (tokenOf .embeddedCode (codeLength none))

/-- The marker that a text begins with, whose form is known. -/
def marker (form : MarkerForm) : Scanner := fun text =>
  let language := String.ofList (markerLanguage text)
  (if isKnownLanguage language then []
    else [.fault (.unknownLanguage language) (markerLength text)]) ++
    [.token form.kind (markerLength text)]

/-- A marker with its code; `base` is the width of the marker's line. -/
def embedded (form : MarkerForm) (base : Nat) : Scanner :=
  andThen (marker form) <|
    match form with
    | .inline => inlineCode
    | .block => capturedBlock .embeddedCode base

end AgentScript.Lexeme
