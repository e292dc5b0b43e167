import AgentScript.Lexeme.Piece

/-!
# Captured blocks

After the marker of a multi-line string or of a code block, the lines that follow are
captured as they are, one token a line, as long as they are blank or indented deeper than
the line of the marker.
-/
namespace AgentScript.Lexeme

/-- Whether the line that a text begins with belongs to a block under a line of width `base`. -/
def captures (base : Nat) (text : List Char) : Bool :=
  (text.dropWhile CharClass.isInlineSpace).head?.all CharClass.isLineBreak ||
    base < blankLength text

/-- The captured lines of a text, at most `fuel` of them. -/
def capturedLines (content : TokenKind) (base : Nat) : Nat → Scanner
  | 0, _ => []
  | fuel + 1, text =>
    if text.isEmpty || !captures base text then []
    else
      let n := lineLength text
      let b := breakLength (text.drop n)
      .token content n :: .skip b :: capturedLines content base fuel (text.drop (n + b))

/-- What is left of the marker's line, which should be blank, and the captured lines. -/
def capturedBlock (content : TokenKind) (base : Nat) : Scanner := fun text =>
  let n := lineLength text
  let b := breakLength (text.drop n)
  let body := text.drop (n + b)
  (if restIsBlank text then [] else [.fault .textAfterBlockMarker n]) ++
    .skip n :: .skip b :: capturedLines content base body.length body

end AgentScript.Lexeme
