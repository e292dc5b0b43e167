/-!
# Runs of characters

A table of characters is a list of runs. A run holds the code points from its first to
its last at a fixed stride, so that alphabets whose cases alternate stay short.
-/
namespace AgentScript

structure CharRun where
  first : Nat
  last : Nat
  stride : Nat

namespace CharRun

def contains (r : CharRun) (code : Nat) : Bool :=
  r.first ≤ code && code ≤ r.last && (code - r.first) % r.stride == 0

end CharRun

/-- Whether a character lies in one of the runs. -/
def inRuns (runs : List CharRun) (c : Char) : Bool :=
  runs.any (·.contains c.toNat)

end AgentScript
