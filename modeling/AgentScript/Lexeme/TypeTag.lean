import AgentScript.Layout.Mode
import AgentScript.Lexeme.Word

/-!
# Type tags

A type tag stands in angle brackets: an optional type name, a value, and after a bar an
optional modifier. A name is a leading word before a blank, a bar or the end of the tag;
any other text is a bare value. Values end at a bar, modifiers run on; blanks around them
are not part of them. A tag that its line does not close is reported as a whole.
-/
namespace AgentScript.Lexeme

open CharClass Scanner

/-- The characters that can follow the name of a type. -/
def endsTypeName (c : Char) : Bool := isInlineSpace c || c == '|' || c == '>'

def typeNameLength (text : List Char) : Nat :=
  let n := wordLength text
  if text.head?.any isAlphabetic && (text.drop n).head?.any endsTypeName then n else 0

def typeName (mode : Mode) : Scanner := fun text =>
  tokenOf (mode.wordKind (String.ofList (text.take (typeNameLength text)))) typeNameLength text

/-- The length of a text without the whitespace at its end. -/
def trimmedLength (text : List Char) : Nat := (text.reverse.dropWhile isWhitespace).length

/-- A token over the text before the first delimiter, trimmed at its end. -/
def tagText (kind : TokenKind) (isDelimiter : Char → Bool) : Scanner := fun text =>
  let raw := text.takeWhile fun c => !isDelimiter c
  let n := trimmedLength raw
  (if n = 0 then [] else [.token kind n]) ++ [.skip (raw.length - n)]

def endsModifier (c : Char) : Bool := c == '>' || isLineBreak c

def endsTagValue (c : Char) : Bool := endsModifier c || c == '|'

def tagModifier : Scanner := fun text =>
  match text with
  | '|' :: _ =>
    sequence
      [fun _ => [.token .pipe 1], skipping blankLength, tagText .typeTagModifier endsModifier] text
  | _ => []

/-- A tag up to the place where it should close. -/
def openTag (mode : Mode) : Scanner :=
  sequence [fun _ => [.token .lt 1], skipping blankLength, typeName mode, skipping blankLength,
    tagText .typeTagValue endsTagValue, tagModifier]

/-- A whole tag; `mode` is in force within it. -/
def typeTag (mode : Mode) : Scanner := fun text =>
  let pieces := openTag mode text
  match text.drop (Piece.total pieces) with
  | '>' :: _ => pieces ++ [.token .gt 1]
  | _ => .fault .unterminatedTypeTag (Piece.total pieces) :: pieces

end AgentScript.Lexeme
