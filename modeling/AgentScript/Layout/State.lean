import AgentScript.Layout.Mode
import AgentScript.Source.Position

/-!
# Layout of a text

What a reader of the text has to remember between two tokens: whether a logical line is
about to begin, the width of the present one, the open levels, modes and brackets. Inside
brackets line breaks mean nothing.

The open levels are the widths of the blocks around a line, the innermost first; the
level zero of the whole text is not listed. A wider line opens a level. A narrower line
closes the levels that exceed it; where it meets none of the others exactly, it stays in
the innermost level that it still reaches into, and is reported.
-/
namespace AgentScript

/-- What a line's width does to the open levels. -/
structure Reindent where
  levels : List Nat
  /-- Whether the line opens a level. -/
  opens : Bool
  /-- How many levels it closes. -/
  closes : Nat
  /-- Whether its width is one of the levels, or exceeds them all. -/
  consistent : Bool
deriving DecidableEq

namespace Reindent

def ofWidth (levels : List Nat) (width : Nat) : Reindent :=
  let top := levels.headD 0
  if top < width then ⟨width :: levels, true, 0, true⟩
  else
    let exceeding := (levels.takeWhile (width < ·)).length
    let landing := (levels.drop exceeding).headD 0
    let closes := if landing = width then exceeding else exceeding - 1
    ⟨levels.drop closes, false, closes, landing == width⟩

theorem ofWidth_opens {levels : List Nat} {width : Nat} (h : levels.headD 0 < width) :
    ofWidth levels width = ⟨width :: levels, true, 0, true⟩ := by
  unfold ofWidth
  rw [if_pos h]

end Reindent

structure Layout where
  atLineStart : Bool
  /-- The width of the logical line being read. -/
  lineWidth : Nat
  levels : List Nat
  modes : ModeStack
  /-- The open brackets and where they stand, the innermost first. -/
  brackets : List (Bracket × Position)
deriving DecidableEq

namespace Layout

def initial : Layout := ⟨true, 0, [], .initial, []⟩

/-- Whether the next characters are the indentation of a logical line. -/
def beginsLine (l : Layout) : Bool := l.atLineStart && l.brackets.isEmpty

/-- The layout within a logical line of the given width. -/
def enterLine (l : Layout) (width : Nat) : Layout :=
  { l with
    atLineStart := false
    lineWidth := width
    levels := (Reindent.ofWidth l.levels width).levels }

/-- The layout after the end of a logical line. -/
def leaveLine (l : Layout) : Layout :=
  { l with atLineStart := true, modes := l.modes.endLine }

def pushMode (l : Layout) (m : Mode) : Layout := { l with modes := l.modes.push m }

def popModeIf (l : Layout) (m : Mode) : Layout := { l with modes := (l.modes.popIf m).2 }

def openBracket (l : Layout) (b : Bracket) (p : Position) : Layout :=
  { l with brackets := (b, p) :: l.brackets }

def closeBracket (l : Layout) : Layout := { l with brackets := l.brackets.tail }

end Layout

end AgentScript
