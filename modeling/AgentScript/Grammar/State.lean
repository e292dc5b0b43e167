import AgentScript.Diagnostic.Parse
import AgentScript.Token.Stream

/-!
# The state of a parse

A parse holds the tokens still to come, what it has to know of those behind it, and the
problems found. The last token is an end of input; others may stand before it. When as many
problems are found as it may report, it is halted: further ones are dropped and the loops
over lines stop.
-/
namespace AgentScript

structure ParserState where
  /-- The kind of the token just passed. -/
  previous : Option TokenKind
  /-- The end of the last token passed that carries text of the language. -/
  lastEnd : Option Position
  /-- The tokens to come before the last one. -/
  rest : List Token
  /-- The last token, which is never passed. -/
  ending : Token
  problems : Array ParseProblem
  /-- The number of problems to report, zero for all. -/
  cap : Nat

namespace ParserState

/-- The state before a list of tokens, behind which an end of input stands. -/
def ofTokens (tokens : List Token) (cap : Nat) : ParserState :=
  let tokens := Token.terminated tokens
  { previous := none
    lastEnd := none
    rest := tokens.dropLast
    ending := tokens.getLastD (.mark .eof .origin)
    problems := #[]
    cap := cap }

theorem ending_kind_ofTokens (tokens : List Token) (cap : Nat) :
    (ofTokens tokens cap).ending.kind = .eof := by
  obtain ⟨t, ht, hk⟩ := Token.getLast?_terminated tokens
  change ((Token.terminated tokens).getLastD _).kind = .eof
  rw [List.getLastD_eq_getLast?, ht]
  exact hk

/-- The token `offset` places ahead, or the last one. -/
def ahead (s : ParserState) (offset : Nat) : Token := s.rest.getD offset s.ending

def current (s : ParserState) : Token := s.ahead 0

def kind (s : ParserState) : TokenKind := s.current.kind

/-- Whether the input ends here, with the last token or before it. -/
def atEnd (s : ParserState) : Bool := s.rest.isEmpty || s.kind == .eof

/-- Passes a token; the last one is never passed. -/
def advance (s : ParserState) : ParserState :=
  match s.rest with
  | [] => s
  | t :: rest =>
    { s with
      previous := some t.kind
      lastEnd := if t.isStructural then s.lastEnd else some t.stop
      rest := rest }

/-- Whether the token just passed is the beginning or the end of a line, or there is none. -/
def atLineStart (s : ParserState) : Bool :=
  match s.previous with
  | none => true
  | some k => k == .newline || k == .indent || k == .dedent

/-- The range from `start` to the end of the last token with text of the language. -/
def spanFrom (s : ParserState) (start : Position) : Location :=
  match s.lastEnd with
  | some stop => if start ≤ stop then ⟨start, stop⟩ else .point start
  | none => .point start

def halted (s : ParserState) : Bool := 0 < s.cap && s.cap ≤ s.problems.size

def report (s : ParserState) (p : ParseProblem) : ParserState :=
  if s.halted then s else { s with problems := s.problems.push p }

/-- The number of tokens to come. -/
def remaining (s : ParserState) : Nat := s.rest.length

/-- The number of tokens to come on this line. -/
def lineLeft (s : ParserState) : Nat := (s.rest.takeWhile fun t => !t.isStructural).length

theorem advance_remaining (s : ParserState) : s.advance.remaining = s.remaining - 1 := by
  unfold advance remaining
  split <;> simp_all

theorem atEnd_of_remaining_eq_zero {s : ParserState} (h : s.remaining = 0) : s.atEnd = true := by
  simp [atEnd, List.eq_nil_of_length_eq_zero h]

theorem advance_remaining_lt {s : ParserState} (h : s.atEnd = false) :
    s.advance.remaining < s.remaining := by
  have hpositive : 0 < s.remaining :=
    Nat.pos_of_ne_zero fun hzero => by simp [atEnd_of_remaining_eq_zero hzero] at h
  rw [advance_remaining]
  omega

@[simp] theorem report_rest (s : ParserState) (p : ParseProblem) : (s.report p).rest = s.rest := by
  unfold report
  split <;> rfl

end ParserState

end AgentScript
