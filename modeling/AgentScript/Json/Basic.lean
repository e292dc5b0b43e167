/-!
# JSON values

Whole numbers that fit 64 bits are kept exactly, all other numbers as doubles. The fields
of an object keep their order.
-/
namespace AgentScript

inductive Json
  | null
  | bool (value : Bool)
  | int (value : Int)
  | float (value : Float)
  | str (value : String)
  | arr (items : List Json)
  | obj (fields : List (String × Json))
deriving Inhabited

namespace Json

/-- The value of a field of an object. -/
def field? (key : String) : Json → Option Json
  | obj fields => fields.lookup key
  | _ => none

def str? : Json → Option String
  | str s => some s
  | _ => none

def bool? : Json → Option Bool
  | bool b => some b
  | _ => none

/-- A natural number below `bound`. -/
def nat? (bound : Nat) : Json → Option Nat
  | int i => if 0 ≤ i && i < bound then some i.toNat else none
  | _ => none

/-- Any number, as a double. -/
def float? : Json → Option Float
  | int i => some (if i < 0 then -Float.ofNat i.natAbs else Float.ofNat i.natAbs)
  | float x => some x
  | _ => none

def arr? : Json → Option (List Json)
  | arr items => some items
  | _ => none

def nat (n : Nat) : Json := int n

/-- A double, or null in the place of one that is infinite or no number at all. -/
def ofFloat (x : Float) : Json := if x.isFinite then float x else null

mutual

/-- How many arrays and objects lie within each other, the value itself among them. -/
def depth : Json → Nat
  | arr items => depthOfItems items + 1
  | obj fields => depthOfFields fields + 1
  | _ => 0

def depthOfItems : List Json → Nat
  | [] => 0
  | v :: vs => max (depth v) (depthOfItems vs)

def depthOfFields : List (String × Json) → Nat
  | [] => 0
  | (_, v) :: fs => max (depth v) (depthOfFields fs)

end

end Json

end AgentScript
