import AgentScript.Source.Position
import AgentScript.Token.Kind

/-!
# Tokens

A token is a terminal with the text it was read from and the range of that text. Layout
tokens that no text stands for are empty.
-/
namespace AgentScript

structure Token where
  kind : TokenKind
  text : String
  start : Position
  stop : Position
deriving DecidableEq, Inhabited

namespace Token

def location (t : Token) : Location := ⟨t.start, t.stop⟩

/-- The token without text at a point. -/
def mark (kind : TokenKind) (p : Position) : Token := ⟨kind, "", p, p⟩

def isStructural (t : Token) : Bool := t.kind.isStructural

end Token

end AgentScript
