import AgentScript.Token.Kind

/-!
# Reading modes

The same word can be a literal, a keyword, part of a name or the name of a type. The mode
in force decides. Modes form a stack above the default mode; those that belong to a line
are left when the line ends.
-/
namespace AgentScript

inductive Mode
  /-- The longest run of capitalized words wins; a run that is a literal word is that literal. -/
  | default
  /-- Within a type tag the leading word names the type. -/
  | typeTag
  /-- In a value a literal word wins, whatever capitalized words follow it. -/
  | booleanContext
  /-- After a section keyword all words are names. -/
  | sectionName
deriving DecidableEq, Inhabited

namespace Mode

def prefersLiterals : Mode → Bool
  | booleanContext => true
  | _ => false

def recognizesKeywords : Mode → Bool
  | sectionName => false
  | _ => true

def prefersTypeNames : Mode → Bool
  | typeTag => true
  | _ => false

def endsWithLine : Mode → Bool
  | booleanContext | sectionName => true
  | _ => false

/-- The kind of a word that begins in lower case. -/
def wordKind (m : Mode) (word : String) : TokenKind :=
  if m.prefersTypeNames then .typeTagName
  else if m.recognizesKeywords then (TokenKind.ofKeyword? word).getD .commonNoun
  else .commonNoun

/-- The kind of a whole run of capitalized words. -/
def properWordKind (m : Mode) (run : String) : TokenKind :=
  if m.recognizesKeywords then (TokenKind.ofLiteralWord? run).getD .properWord
  else .properWord

end Mode

/-- The modes entered and not yet left, the innermost first, above the default mode. -/
structure ModeStack where
  entered : List Mode
deriving DecidableEq, Inhabited

namespace ModeStack

def initial : ModeStack := ⟨[]⟩

def current (s : ModeStack) : Mode := s.entered.head?.getD .default

def push (s : ModeStack) (m : Mode) : ModeStack := ⟨m :: s.entered⟩

/-- Leaves the innermost mode; the default mode at the bottom is never left. -/
def pop (s : ModeStack) : Option Mode × ModeStack :=
  (s.entered.head?, ⟨s.entered.tail⟩)

/-- Leaves the innermost mode if it is `m`, and tells whether it did. -/
def popIf (s : ModeStack) (m : Mode) : Bool × ModeStack :=
  if s.entered.head? = some m then (true, ⟨s.entered.tail⟩) else (false, s)

/-- Leaves the innermost modes as long as they belong to the line. -/
def endLine (s : ModeStack) : ModeStack := ⟨s.entered.dropWhile Mode.endsWithLine⟩

def depth (s : ModeStack) : Nat := s.entered.length + 1

@[simp] theorem current_push (s : ModeStack) (m : Mode) : (s.push m).current = m := rfl

@[simp] theorem pop_push (s : ModeStack) (m : Mode) : (s.push m).pop = (some m, s) := rfl

@[simp] theorem popIf_push (s : ModeStack) (m : Mode) : (s.push m).popIf m = (true, s) := by
  simp [popIf, push]

@[simp] theorem endLine_initial : initial.endLine = initial := rfl

theorem endLine_push_of_endsWithLine {m : Mode} (h : m.endsWithLine) (s : ModeStack) :
    (s.push m).endLine = s.endLine := by
  simp [endLine, push, h]

end ModeStack

end AgentScript
