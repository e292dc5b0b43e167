import AgentScript.Token.Basic

/-!
# Token streams

A stream is a position in a list of tokens that ends with the end of input. Looking past
the end shows the last token again, and the position never leaves the list.
-/
namespace AgentScript

/-- A list of tokens with an end of input after its last token, unless it has one there. -/
def Token.terminated (tokens : List Token) : List Token :=
  match tokens.getLast? with
  | none => [.mark .eof .origin]
  | some last => if last.kind = .eof then tokens else tokens ++ [.mark .eof last.stop]

theorem Token.getLast?_terminated (tokens : List Token) :
    ∃ t, (Token.terminated tokens).getLast? = some t ∧ t.kind = .eof := by
  unfold Token.terminated
  split
  · exact ⟨_, rfl, rfl⟩
  · next last h =>
    split
    · next hk => exact ⟨last, h, hk⟩
    · exact ⟨_, List.getLast?_concat, rfl⟩

theorem Token.terminated_ne_nil (tokens : List Token) : Token.terminated tokens ≠ [] := by
  obtain ⟨t, h, _⟩ := Token.getLast?_terminated tokens
  rintro hn
  simp [hn] at h

theorem Token.terminated_of_eof {tokens : List Token} {t : Token} (h : tokens.getLast? = some t)
    (hk : t.kind = .eof) : Token.terminated tokens = tokens := by
  simp [Token.terminated, h, hk]

structure TokenStream where
  tokens : List Token
  position : Nat
deriving DecidableEq

/-- A position to come back to. -/
structure TokenStream.Marker where
  position : Nat
deriving DecidableEq

namespace TokenStream

def ofTokens (tokens : List Token) : TokenStream := ⟨Token.terminated tokens, 0⟩

def lastIndex (s : TokenStream) : Nat := s.tokens.length - 1

def get (s : TokenStream) (index : Nat) : Token := s.tokens.getD index (.mark .eof .origin)

/-- The token `offset` places ahead. -/
def peek (s : TokenStream) (offset : Nat) : Token := s.get (min (s.position + offset) s.lastIndex)

def current (s : TokenStream) : Token := s.peek 0

/-- The current token and the stream after it; the last token is never passed. -/
def advance (s : TokenStream) : Token × TokenStream :=
  (s.current, if s.position < s.lastIndex then { s with position := s.position + 1 } else s)

def previous? (s : TokenStream) : Option Token :=
  if s.position = 0 then none else s.tokens[s.position - 1]?

/-- The last token before the position that carries text of the language. -/
def lastSignificant? (s : TokenStream) : Option Token :=
  (s.tokens.take s.position).reverse.find? fun t => !t.isStructural

def isAtEnd (s : TokenStream) : Bool := s.current.kind == .eof

def check (s : TokenStream) (kind : TokenKind) : Bool := s.current.kind == kind

def checkAt (s : TokenStream) (offset : Nat) (kind : TokenKind) : Bool :=
  (s.peek offset).kind == kind

def mark (s : TokenStream) : Marker := ⟨s.position⟩

def reset (s : TokenStream) (m : Marker) : TokenStream :=
  { s with position := min m.position s.lastIndex }

def length (s : TokenStream) : Nat := s.tokens.length

def isEmpty (s : TokenStream) : Bool := s.tokens.isEmpty

end TokenStream

end AgentScript
