import AgentScript.Text.CharClass.Cased
import AgentScript.Text.CharClass.Caseless
import AgentScript.Text.CharClass.Numeric

/-!
# Character classes

The classes that decide where words, names and blanks end. ASCII characters are decided
by comparison, all others by the tables of runs. Every character with a case is
alphabetic and every alphabetic character is alphanumeric.
-/
namespace AgentScript.CharClass

def isAscii (c : Char) : Bool := c.toNat < 0x80

def isDigit (c : Char) : Bool := '0' ≤ c && c ≤ '9'

def isAsciiLetter (c : Char) : Bool := ('a' ≤ c && c ≤ 'z') || ('A' ≤ c && c ≤ 'Z')

def isUppercase (c : Char) : Bool :=
  if isAscii c then 'A' ≤ c && c ≤ 'Z' else inRuns uppercaseRuns c

def isLowercase (c : Char) : Bool :=
  if isAscii c then 'a' ≤ c && c ≤ 'z' else inRuns lowercaseRuns c

def isAlphabetic (c : Char) : Bool :=
  isLowercase c || isUppercase c || (!isAscii c && inRuns caselessRuns c)

def isNumeric (c : Char) : Bool :=
  if isAscii c then isDigit c else inRuns numericRuns c

def isAlphanumeric (c : Char) : Bool := isAlphabetic c || isNumeric c

/-- Tab to carriage return, space, and the other characters with the property White_Space. -/
def whitespaceRuns : List CharRun :=
  [⟨0x9, 0xd, 1⟩, ⟨0x20, 0x20, 1⟩, ⟨0x85, 0x85, 1⟩, ⟨0xa0, 0xa0, 1⟩, ⟨0x1680, 0x1680, 1⟩,
   ⟨0x2000, 0x200a, 1⟩, ⟨0x2028, 0x2029, 1⟩, ⟨0x202f, 0x202f, 1⟩, ⟨0x205f, 0x205f, 1⟩,
   ⟨0x3000, 0x3000, 1⟩]

def isWhitespace (c : Char) : Bool := inRuns whitespaceRuns c

/-- The only blanks that count as indentation and separate words on a line. -/
def isInlineSpace (c : Char) : Bool := c == ' ' || c == '\t'

def isLineBreak (c : Char) : Bool := c == '\n' || c == '\r'

/-- Letters, digits and the underscore continue a word. -/
def isWordChar (c : Char) : Bool := isAlphanumeric c || c == '_'

theorem isAlphabetic_of_isLowercase {c : Char} (h : isLowercase c = true) :
    isAlphabetic c = true := by
  simp [isAlphabetic, h]

theorem isAlphabetic_of_isUppercase {c : Char} (h : isUppercase c = true) :
    isAlphabetic c = true := by
  simp [isAlphabetic, h]

theorem isWordChar_of_isAlphabetic {c : Char} (h : isAlphabetic c = true) :
    isWordChar c = true := by
  simp [isWordChar, isAlphanumeric, h]

end AgentScript.CharClass
