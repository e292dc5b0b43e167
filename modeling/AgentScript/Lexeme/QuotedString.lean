import AgentScript.Lexeme.Piece

/-!
# String lexemes

A string runs from a quote to the next quote that no backslash stands before. It ends
with its line at the latest; what was read of it then is skipped and reported.
-/
namespace AgentScript.Lexeme

/-- How far a lexeme reaches, and whether its end was found. -/
structure Extent where
  length : Nat
  closed : Bool
deriving DecidableEq

def Extent.lengthen (n : Nat) (e : Extent) : Extent := ⟨e.length + n, e.closed⟩

/-- The extent of a string's text after its opening quote. -/
def stringTail : List Char → Extent
  | [] => ⟨0, false⟩
  | '\\' :: c :: rest =>
    if CharClass.isLineBreak c then ⟨1, false⟩ else (stringTail rest).lengthen 2
  | c :: rest =>
    if CharClass.isLineBreak c then ⟨0, false⟩
    else if c = '"' then ⟨1, true⟩
    else (stringTail rest).lengthen 1

/-- The extent of a string whose opening quote has been checked. -/
def stringExtent (text : List Char) : Extent := (stringTail text.tail).lengthen 1

def quotedString : Scanner := fun text =>
  let e := stringExtent text
  if e.closed then [.token .string e.length]
  else [.fault .unterminatedString e.length, .skip e.length]

end AgentScript.Lexeme
