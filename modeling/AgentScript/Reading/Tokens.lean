import AgentScript.Lexeme.Piece
import AgentScript.Reading.Round
import AgentScript.Source.Cursor
import AgentScript.Token.Basic

/-!
# Reading a text

A transcript is what has been made of a text so far: the tokens and faults found, and the
cursor before the text that is left. Each piece of the text adds its part to it, so every
token carries exactly the characters it stands for and the positions around them.

Rounds follow each other until the text is used up. Then the brackets still open are
reported, the last line and all levels are closed, and the end of the text is marked. A
text of `n` characters needs at most `2 * n + 1` rounds, since each round takes a
character or begins a line.
-/
namespace AgentScript

structure Transcript where
  cursor : Cursor
  tokens : Array Token
  faults : Array LexicalFault

namespace Transcript

def start (text : List Char) : Transcript := ⟨.atStart text, #[], #[]⟩

def mark (t : Transcript) (kind : TokenKind) : Transcript :=
  { t with tokens := t.tokens.push (.mark kind t.cursor.position) }

def extend (t : Transcript) : Piece → Transcript
  | .skip n => { t with cursor := t.cursor.advance n }
  | .token kind n =>
    let after := t.cursor.advance n
    { t with
      cursor := after
      tokens := t.tokens.push
        ⟨kind, String.ofList (t.cursor.rest.take n), t.cursor.position, after.position⟩ }
  | .fault cause n => { t with faults := t.faults.push ⟨cause, t.cursor.position, n⟩ }

def extendAll (t : Transcript) (pieces : List Piece) : Transcript := pieces.foldl extend t

/-- Whether the last token belongs to a line that is still open. -/
def endsInLine (t : Transcript) : Bool := t.tokens.back?.any fun k => !k.isStructural

@[simp] theorem extendAll_nil (t : Transcript) : t.extendAll [] = t := rfl

@[simp] theorem extendAll_cons (t : Transcript) (p : Piece) (ps : List Piece) :
    t.extendAll (p :: ps) = (t.extend p).extendAll ps := rfl

theorem extendAll_append (t : Transcript) (ps qs : List Piece) :
    t.extendAll (ps ++ qs) = (t.extendAll ps).extendAll qs := by
  simp [extendAll]

theorem extend_cursor (t : Transcript) (p : Piece) :
    (t.extend p).cursor = t.cursor.advance p.width := by
  cases p <;> rfl

theorem extendAll_cursor (t : Transcript) (ps : List Piece) :
    (t.extendAll ps).cursor = t.cursor.advance (Piece.total ps) := by
  induction ps generalizing t with
  | nil => rfl
  | cons p ps ih =>
    rw [extendAll_cons, ih, extend_cursor, Piece.total_cons, Cursor.advance_add]

end Transcript

structure Reading where
  layout : Layout
  transcript : Transcript

namespace Reading

def start (text : List Char) : Reading := ⟨.initial, .start text⟩

def rest (r : Reading) : List Char := r.transcript.cursor.rest

def round (r : Reading) : Reading :=
  let next := Round.next r.layout r.transcript.cursor
  ⟨next.layout, r.transcript.extendAll next.pieces⟩

/-- At most `n` rounds, fewer if the text is used up before. -/
def rounds : Nat → Reading → Reading
  | 0, r => r
  | n + 1, r => if r.rest.isEmpty then r else rounds n r.round

theorem round_rest (r : Reading) :
    r.round.rest = r.rest.drop (Piece.total (Round.next r.layout r.transcript.cursor).pieces) := by
  simp [round, rest, Transcript.extendAll_cursor, Cursor.advance_rest]

theorem rounds_of_rest_isEmpty {r : Reading} (h : r.rest.isEmpty) (n : Nat) : rounds n r = r := by
  cases n with
  | zero => rfl
  | succ n => rw [rounds, if_pos h]

theorem rounds_add (m n : Nat) (r : Reading) : rounds (m + n) r = rounds n (rounds m r) := by
  induction m generalizing r with
  | zero => rw [Nat.zero_add]; rfl
  | succ m ih =>
    by_cases h : r.rest.isEmpty
    · rw [rounds_of_rest_isEmpty h, rounds_of_rest_isEmpty h, rounds_of_rest_isEmpty h]
    · rw [Nat.succ_add, rounds, rounds, if_neg h, if_neg h, ih]

/-- Reports the open brackets, the outermost first. -/
def reportUnclosed (brackets : List (Bracket × Position)) (t : Transcript) : Transcript :=
  { t with faults :=
    t.faults ++ (brackets.reverse.map fun (b, p) => ⟨.unclosedBracket b, p, 1⟩).toArray }

/-- Ends the last line, if tokens stand in it, and closes the given number of levels. -/
def closeLevels (levels : Nat) (t : Transcript) : Transcript :=
  let t := if t.endsInLine then t.mark .newline else t
  levels.repeat (·.mark .dedent) t

def finish (r : Reading) : Transcript :=
  (closeLevels r.layout.levels.length (reportUnclosed r.layout.brackets r.transcript)).mark .eof

/-- The transcript of a whole text. -/
def transcribe (text : List Char) : Transcript := (rounds (2 * text.length + 1) (start text)).finish

end Reading

/-- The tokens of a text and what was wrong with it. Tokens are there in either case. -/
structure TokenizedText where
  tokens : List Token
  errors : List LexicalError
deriving DecidableEq, Inhabited

namespace TokenizedText

/-- Reads a text; `file` labels the errors. -/
def ofLabelledSource (source : String) (file : Option String) : TokenizedText :=
  let t := Reading.transcribe source.toList
  ⟨t.tokens.toList, t.faults.toList.map (·.toError file)⟩

def ofSource (source : String) : TokenizedText := ofLabelledSource source none

end TokenizedText

end AgentScript
