import AgentScript.Lexeme.Piece

/-!
# Words

A plain word is a run of word characters. A proper word begins with an upper-case letter;
a hyphen continues it before a letter or digit, and a single space before an upper-case
letter or a digit joins the next segment to it.
-/
namespace AgentScript.Lexeme

open CharClass

def wordLength : List Char → Nat := spanLength isWordChar

/-- Counts characters as long as `continues` accepts one together with the next. -/
def runLength (continues : Char → Option Char → Bool) : List Char → Nat
  | [] => 0
  | c :: rest => if continues c rest.head? then runLength continues rest + 1 else 0

def continuesSegment (c : Char) (next : Option Char) : Bool :=
  isWordChar c || (c == '-' && next.any isAlphanumeric)

def continuesProperWord (c : Char) (next : Option Char) : Bool :=
  continuesSegment c next || (c == ' ' && next.any fun n => isUppercase n || isDigit n)

/-- The first segment of a proper word, whose first character has been checked. -/
def segmentLength : List Char → Nat
  | [] => 0
  | _ :: rest => runLength continuesSegment rest + 1

/-- All segments of a proper word, whose first character has been checked. -/
def properWordLength : List Char → Nat
  | [] => 0
  | _ :: rest => runLength continuesProperWord rest + 1

theorem runLength_le (continues : Char → Option Char → Bool) (text : List Char) :
    runLength continues text ≤ text.length := by
  induction text with
  | nil => simp [runLength]
  | cons c rest ih =>
    unfold runLength
    split
    · simpa using ih
    · simp

end AgentScript.Lexeme
