import AgentScript.Text.CharClass

/-!
# Multi-line text

The captured lines of a multi-line string become one text. A chomping says whether the
indentation shared by the lines is removed and what becomes of the line breaks at the end.
Blank lines at the end never belong to the body of the text.
-/
namespace AgentScript

abbrev Line := List Char

namespace Line

def isBlank (line : Line) : Bool := line.all CharClass.isWhitespace

/-- The number of spaces and tabs that a line begins with. -/
def indentation (line : Line) : Nat := (line.takeWhile CharClass.isInlineSpace).length

end Line

namespace Block

/-- The lines up to the last one that is not blank. -/
def body (lines : List Line) : List Line := (lines.reverse.dropWhile Line.isBlank).reverse

/-- The least indentation of a line that is not blank. -/
def margin (lines : List Line) : Nat :=
  ((lines.filter fun l => !l.isBlank).map Line.indentation).min?.getD 0

/-- Removes the shared indentation; blank lines become empty. -/
def dedent (lines : List Line) : List Line :=
  lines.map fun l => if l.isBlank then [] else l.drop (margin lines)

@[simp] theorem length_dedent (lines : List Line) : (dedent lines).length = lines.length := by
  simp [dedent]

/-- The body without its shared indentation. -/
def dedentBody (lines : List Line) : List Line := dedent (body lines)

def join (lines : List Line) : List Char := ['\n'].intercalate lines

end Block

inductive Chomping
  /-- Shared indentation removed, one line break at the end. -/
  | clean
  /-- Shared indentation removed, no line break at the end. -/
  | strip
  /-- Lines as written, one line break at the end. -/
  | preserve
  /-- Lines as written, every line break at the end kept. -/
  | preserveAll
deriving DecidableEq, Inhabited

namespace Chomping

def keepsIndentation : Chomping → Bool
  | clean | strip => false
  | preserve | preserveAll => true

/-- The line breaks written after a body that `blanks` blank lines follow. -/
def ending (c : Chomping) (emptyBody : Bool) (blanks : Nat) : List Char :=
  let closing := if emptyBody then [] else ['\n']
  match c with
  | strip => []
  | clean | preserve => closing
  | preserveAll => closing ++ List.replicate blanks '\n'

def fold (c : Chomping) (lines : List Line) : List Char :=
  let body := Block.body lines
  let text := if c.keepsIndentation then body else Block.dedent body
  Block.join text ++ c.ending body.isEmpty (lines.length - body.length)

def apply (c : Chomping) (lines : List String) : String :=
  String.ofList (c.fold (lines.map String.toList))

end Chomping

/-- Common indentation removed and blank lines at the end dropped. -/
def dedentLines (lines : List String) : List String :=
  (Block.dedentBody (lines.map String.toList)).map String.ofList

end AgentScript
