import AgentScript.Json.Record
import AgentScript.Source.Position

/-!
# Positions and locations in JSON

Lines and columns are 32-bit numbers, offsets and lengths 64-bit numbers.
-/
namespace AgentScript

open Json

namespace Json

def nat32? : Json → Option Nat := nat? limit32

def nat64? : Json → Option Nat := nat? limit64

end Json

def Position.toJson (p : Position) : Json :=
  obj [("line", nat p.line), ("column", nat p.column), ("offset", nat p.offset)]

def Position.ofJson? (v : Json) : Option Position := do
  let v ← Shape.record? ⟨["line", "column", "offset"], []⟩ v
  let line ← required nat32? "line" v
  let column ← required nat32? "column" v
  let offset ← required nat64? "offset" v
  return ⟨line, column, offset⟩

def Location.toJson (l : Location) : Json :=
  obj [("start", l.start.toJson), ("end", l.stop.toJson)]

def Location.ofJson? (v : Json) : Option Location := do
  let v ← Shape.record? ⟨["start", "end"], []⟩ v
  let start ← required Position.ofJson? "start" v
  let stop ← required Position.ofJson? "end" v
  return ⟨start, stop⟩

/-- The field that holds the location of a node, last in every record. -/
def locationField (l : Option Location) : String × Option Json := ("location", l.map (·.toJson))

/-- The shape of a node, whose location comes last. -/
def Json.Shape.node (leading trailing : List String) : Shape :=
  ⟨leading, trailing ++ ["location"]⟩

def location? (v : Json) : Option (Option Location) := optional Location.ofJson? "location" v

end AgentScript
