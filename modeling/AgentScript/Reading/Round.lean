import AgentScript.Layout.State
import AgentScript.Lexeme.EmbeddedCode
import AgentScript.Lexeme.Number
import AgentScript.Lexeme.QuotedString
import AgentScript.Lexeme.TypeTag
import AgentScript.Source.Cursor

/-!
# One round of reading

A round looks at the text that is left and at the layout, and answers with the pieces that
come next and the layout after them. At the beginning of a logical line it reads blank
lines and indentation, within a line one token or blank, or a token with the raw text that
belongs to it.
-/
namespace AgentScript

structure Round where
  pieces : List Piece
  layout : Layout

namespace Round

open CharClass Lexeme

/-- A single token of fixed length. -/
def single (l : Layout) (kind : TokenKind) (length : Nat) : Round := ⟨[.token kind length], l⟩

def unexpected (l : Layout) (c : Char) : Round := ⟨[.fault (.unexpectedCharacter c) 1, .skip 1], l⟩

/-- The pieces of an indentation of the given width and of the levels that it closes. -/
def indentation (r : Reindent) (width : Nat) : List Piece :=
  if r.opens then [.token .indent width]
  else
    (if r.consistent then [] else [.fault .inconsistentUnindent width]) ++
      .skip width :: List.replicate r.closes (.token .dedent 0)

/-- Blank lines and comment lines leave no trace; any other line is indented or not. -/
def beginLine (l : Layout) (text : List Char) : Round :=
  if restIsBlank text then
    ⟨[.skip (lineLength text), .skip (breakLength (text.drop (lineLength text)))], l⟩
  else
    let width := blankLength text
    ⟨indentation (Reindent.ofWidth l.levels width) width, l.enterLine width⟩

/-- Ends the logical line with a token over `length` characters, unless a bracket is open. -/
def endLine (l : Layout) (length : Nat) : Round :=
  if l.brackets.isEmpty then ⟨[.token .newline length], l.leaveLine⟩ else ⟨[.skip length], l⟩

/-- Adds the end of the line to pieces that reach it. -/
def thenEndLine (pieces : List Piece) (l : Layout) : Round :=
  let e := endLine l 0
  ⟨pieces ++ e.pieces, e.layout⟩

/-- A colon before a name is an atom where a value can begin. -/
def startsAtom (previous : Option Char) (text : List Char) : Bool :=
  previous.all (fun p => isWhitespace p || p == ',' || (Bracket.ofOpener? p).isSome) &&
    text.tail.head?.any fun c => isAlphabetic c || c == '_'

/-- After a colon names are over, and if a value follows on the line literal words win. -/
def afterColon (l : Layout) (rest : List Char) : Layout :=
  let l := l.popModeIf .sectionName
  if l.modes.current != .booleanContext && !restIsBlank rest then l.pushMode .booleanContext else l

def colon (l : Layout) (previous : Option Char) (text : List Char) : Round :=
  if startsAtom previous text then single l .atom (1 + wordLength text.tail)
  else ⟨[.token .colon 1], afterColon l text.tail⟩

def dash (l : Layout) (text : List Char) : Round :=
  match text.tail.head? with
  | none => single l .dash 1
  | some '>' => single l .arrow 2
  | some c =>
    if isDigit c then ⟨number text, l⟩
    else if isInlineSpace c || isLineBreak c then single l .dash 1
    else unexpected l '-'

def properWord (l : Layout) (text : List Char) : Round :=
  let mode := l.modes.current
  let first := segmentLength text
  let literal? :=
    if mode.prefersLiterals then TokenKind.ofLiteralWord? (String.ofList (text.take first))
    else none
  match literal? with
  | some kind => single l kind first
  | none =>
    let n := properWordLength text
    single l (mode.properWordKind (String.ofList (text.take n))) n

/-- Whether a name follows a section keyword on its line. -/
def nameFollows (rest : List Char) : Bool := !restIsBlank rest && nextSignificant? rest != some ':'

def word (l : Layout) (text : List Char) : Round :=
  let n := wordLength text
  let kind := l.modes.current.wordKind (String.ofList (text.take n))
  ⟨[.token kind n],
    if kind.isSectionKeyword && nameFollows (text.drop n) then l.pushMode .sectionName else l⟩

def openBracket (l : Layout) (b : Bracket) (p : Position) : Round :=
  ⟨[.token (.opening b) 1], l.openBracket b p⟩

/-- A closing bracket closes the innermost open one, also where the two do not match. -/
def closeBracket (l : Layout) (b : Bracket) : Round :=
  let faults := match l.brackets with
    | [] => [.fault (.unmatchedBracket b) 1]
    | (o, _) :: _ => if o = b then [] else [.fault (.mismatchedBracket b o) 1]
  ⟨faults ++ [.token (.closing b) 1], l.closeBracket⟩

def embeddedCode (l : Layout) (text : List Char) : Round :=
  match markerForm? text with
  | none => ⟨[.fault .malformedCodeMarker 1, .skip 1], l⟩
  | some .inline => ⟨embedded .inline l.lineWidth text, l⟩
  | some .block => thenEndLine (embedded .block l.lineWidth text) l

/-- The marker of a multi-line string that a text begins with, and its length. -/
def chompingMarker? : List Char → Option (Chomping × Nat)
  | '+' :: '|' :: '+' :: _ => some (.preserveAll, 3)
  | '+' :: '|' :: _ => some (.preserve, 2)
  | '|' :: '-' :: _ => some (.strip, 2)
  | '|' :: _ => some (.clean, 1)
  | _ => none

/-- A marker ends its line; a bar before other text is a separator. -/
def bar (l : Layout) (c : Char) (text : List Char) : Round :=
  match chompingMarker? text with
  | none => unexpected l c
  | some (chomping, n) =>
    if restIsBlank (text.drop n) then
      thenEndLine
        (.token (.multiline chomping) n :: capturedBlock .stringContent l.lineWidth (text.drop n)) l
    else if c = '|' then single l .pipe 1
    else unexpected l c

/-- The round within a line on a text that begins with `c`. -/
def within (l : Layout) (previous : Option Char) (p : Position) (c : Char) (text : List Char) :
    Round :=
  if isInlineSpace c then ⟨[.skip 1], l⟩
  else if isLineBreak c then endLine l (breakLength text)
  else if c = '#' then ⟨[.skip (lineLength text)], l⟩
  else if c = '"' then ⟨quotedString text, l⟩
  else if c = '<' then ⟨typeTag (l.modes.push .typeTag).current text, l⟩
  else if c = '$' then embeddedCode l text
  else if c = '|' || c = '+' then bar l c text
  else if c = ':' then colon l previous text
  else if c = '-' then dash l text
  else if let some b := Bracket.ofOpener? c then openBracket l b p
  else if let some b := Bracket.ofCloser? c then closeBracket l b
  else if c = ',' then single l .comma 1
  else if c = '.' then single l .dot 1
  else if c = '/' then single l .slash 1
  else if c = '>' then single l .gt 1
  else if isDigit c then ⟨number text, l⟩
  else if isUppercase c then properWord l text
  else if isLowercase c || c = '_' then word l text
  else unexpected l c

/-- The round that the layout calls for at a cursor. -/
def next (l : Layout) (cursor : Cursor) : Round :=
  match cursor.rest with
  | [] => ⟨[], l⟩
  | c :: rest =>
    if l.beginsLine then beginLine l (c :: rest)
    else within l cursor.previous cursor.position c (c :: rest)

end Round

end AgentScript
