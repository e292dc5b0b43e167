import AgentScript.Diagnostic.Lexical
import AgentScript.Text.CharClass

/-!
# Pieces of a text

Reading a text divides it into pieces from left to right: characters that are skipped,
characters that form a token, and faults that concern the characters to come but take
none. A scanner looks at the text that is left and answers with the pieces it begins with.
-/
namespace AgentScript

inductive Piece
  | skip (length : Nat)
  | token (kind : TokenKind) (length : Nat)
  | fault (cause : LexicalCause) (length : Nat)
deriving DecidableEq

namespace Piece

/-- The number of characters that a piece takes from the text. -/
def width : Piece → Nat
  | skip n => n
  | token _ n => n
  | fault _ _ => 0

/-- The number of characters that the pieces take together. -/
def total : List Piece → Nat
  | [] => 0
  | p :: ps => p.width + total ps

@[simp] theorem total_nil : total [] = 0 := rfl

@[simp] theorem total_cons (p : Piece) (ps : List Piece) : total (p :: ps) = p.width + total ps :=
  rfl

@[simp] theorem total_append (ps qs : List Piece) : total (ps ++ qs) = total ps + total qs := by
  induction ps with
  | nil => simp
  | cons p ps ih => simp [ih, Nat.add_assoc]

end Piece

/-- The pieces at the beginning of a text. -/
abbrev Scanner := List Char → List Piece

namespace Scanner

/-- The pieces of the first scanner, then those of the second on the text that is left. -/
def andThen (first second : Scanner) : Scanner := fun text =>
  let pieces := first text
  pieces ++ second (text.drop (Piece.total pieces))

def sequence : List Scanner → Scanner
  | [] => fun _ => []
  | s :: rest => andThen s (sequence rest)

/-- Skips as many characters as `length` says. -/
def skipping (length : List Char → Nat) : Scanner := fun text => [.skip (length text)]

/-- One token over as many characters as `length` says, none where that is zero. -/
def tokenOf (kind : TokenKind) (length : List Char → Nat) : Scanner := fun text =>
  if length text = 0 then [] else [.token kind (length text)]

end Scanner

namespace Lexeme

def spanLength (p : Char → Bool) (text : List Char) : Nat := (text.takeWhile p).length

/-- The spaces and tabs that a text begins with. -/
def blankLength : List Char → Nat := spanLength CharClass.isInlineSpace

/-- The characters up to the end of the line. -/
def lineLength : List Char → Nat := spanLength fun c => !CharClass.isLineBreak c

/-- The characters of the line break that a text begins with. -/
def breakLength : List Char → Nat
  | '\r' :: '\n' :: _ => 2
  | '\r' :: _ => 1
  | '\n' :: _ => 1
  | _ => 0

/-- The first character that is neither space nor tab. -/
def nextSignificant? (text : List Char) : Option Char :=
  (text.dropWhile CharClass.isInlineSpace).head?

/-- Nothing but blanks and a comment is left on the line. -/
def restIsBlank (text : List Char) : Bool :=
  match nextSignificant? text with
  | none => true
  | some c => CharClass.isLineBreak c || c == '#'

theorem spanLength_le (p : Char → Bool) (text : List Char) : spanLength p text ≤ text.length :=
  (List.takeWhile_sublist p).length_le

@[simp] theorem take_spanLength (p : Char → Bool) (text : List Char) :
    text.take (spanLength p text) = text.takeWhile p := by
  unfold spanLength
  induction text with
  | nil => rfl
  | cons c rest ih => rw [List.takeWhile_cons]; split <;> simp [ih]

@[simp] theorem drop_spanLength (p : Char → Bool) (text : List Char) :
    text.drop (spanLength p text) = text.dropWhile p := by
  unfold spanLength
  induction text with
  | nil => rfl
  | cons c rest ih => rw [List.takeWhile_cons, List.dropWhile_cons]; split <;> simp [ih]

theorem breakLength_le (text : List Char) : breakLength text ≤ text.length := by
  unfold breakLength
  split <;> simp

end Lexeme

end AgentScript
