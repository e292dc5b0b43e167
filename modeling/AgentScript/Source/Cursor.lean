import AgentScript.Source.Position

/-!
# Positions along a text

A tracker reads a text character by character and knows the position it has reached. A
line feed, a carriage return, and a carriage return with the line feed after it each end
one line, also when the pair is read in two portions.

A cursor stands between two characters of a text: it knows the text that is left, the
position reached, and the character just passed.
-/
namespace AgentScript

/-- The position reached in a text of less than `limit32 - 1` characters. Lines and columns are
counted without a bound; in a longer text they could pass that of the 32-bit numbers they are
stored as. -/
structure Tracker where
  position : Position
  /-- Whether the last character read was a carriage return. -/
  afterReturn : Bool
deriving DecidableEq, Inhabited

namespace Tracker

def initial : Tracker := ⟨.origin, false⟩

def step (t : Tracker) (c : Char) : Tracker :=
  let p := t.position
  if c = '\r' then ⟨⟨p.line + 1, 1, p.offset + 1⟩, true⟩
  else if c = '\n' then
    if t.afterReturn then ⟨⟨p.line, p.column, p.offset + 1⟩, false⟩
    else ⟨⟨p.line + 1, 1, p.offset + 1⟩, false⟩
  else ⟨⟨p.line, p.column + 1, p.offset + 1⟩, false⟩

def read (t : Tracker) (text : List Char) : Tracker := text.foldl step t

/-- Reads the `length` characters of `text` that follow its first `start`, as far as there are
any. -/
def advance (t : Tracker) (text : List Char) (start length : Nat) : Tracker :=
  t.read ((text.drop start).take length)

/-- The position after `text`, if `text` came next. -/
def positionAfter (t : Tracker) (text : List Char) : Position := (t.read text).position

@[simp] theorem read_nil (t : Tracker) : t.read [] = t := rfl

@[simp] theorem read_cons (t : Tracker) (c : Char) (text : List Char) :
    t.read (c :: text) = (t.step c).read text := rfl

theorem read_append (t : Tracker) (a b : List Char) : t.read (a ++ b) = (t.read a).read b := by
  simp [read]

theorem step_offset (t : Tracker) (c : Char) :
    (t.step c).position.offset = t.position.offset + 1 := by
  unfold step
  dsimp only
  repeat' split
  all_goals rfl

theorem read_offset (t : Tracker) (text : List Char) :
    (t.read text).position.offset = t.position.offset + text.length := by
  induction text generalizing t with
  | nil => rfl
  | cons c text ih => rw [read_cons, ih, step_offset, List.length_cons]; omega

end Tracker

/-- The position of the point after the first `n` characters of a text. -/
def positionAt (text : List Char) (n : Nat) : Position :=
  (Tracker.initial.read (text.take n)).position

structure Cursor where
  rest : List Char
  tracker : Tracker
  previous : Option Char
deriving DecidableEq

namespace Cursor

def atStart (text : List Char) : Cursor := ⟨text, .initial, none⟩

def position (c : Cursor) : Position := c.tracker.position

/-- Passes `n` characters, or all that are left. -/
def advance : Nat → Cursor → Cursor
  | 0, c => c
  | n + 1, c =>
    match c.rest with
    | [] => c
    | x :: rest => advance n ⟨rest, c.tracker.step x, some x⟩

@[simp] theorem advance_zero (c : Cursor) : c.advance 0 = c := rfl

theorem advance_of_rest_nil {c : Cursor} (h : c.rest = []) (n : Nat) : c.advance n = c := by
  cases n with
  | zero => rfl
  | succ n => simp [advance, h]

theorem advance_succ_of_rest_cons {c : Cursor} {x : Char} {rest : List Char}
    (h : c.rest = x :: rest) (n : Nat) :
    c.advance (n + 1) = Cursor.advance n ⟨rest, c.tracker.step x, some x⟩ := by
  simp [advance, h]

theorem advance_rest (n : Nat) (c : Cursor) : (c.advance n).rest = c.rest.drop n := by
  induction n generalizing c with
  | zero => rfl
  | succ n ih =>
    cases h : c.rest with
    | nil => simp [advance_of_rest_nil h, h]
    | cons x rest => rw [advance_succ_of_rest_cons h, ih]; simp

theorem advance_tracker (n : Nat) (c : Cursor) :
    (c.advance n).tracker = c.tracker.read (c.rest.take n) := by
  induction n generalizing c with
  | zero => rfl
  | succ n ih =>
    cases h : c.rest with
    | nil => simp [advance_of_rest_nil h]
    | cons x rest => rw [advance_succ_of_rest_cons h, ih]; simp

theorem advance_add (m n : Nat) (c : Cursor) : c.advance (m + n) = (c.advance m).advance n := by
  induction m generalizing c with
  | zero => simp
  | succ m ih =>
    cases h : c.rest with
    | nil => simp [advance_of_rest_nil h]
    | cons x rest =>
      rw [Nat.succ_add, advance_succ_of_rest_cons h, advance_succ_of_rest_cons h, ih]

end Cursor

end AgentScript
