import AgentScript.Text.CharClass

/-!
# Decimal numbers and their texts

A decimal is a whole number of units of a power of ten, with a sign that zero keeps. Its
value as a double is the nearest one.

The text of a number is an optional sign and then digits with an optional point among or
beside them and an optional exponent, or a word for infinity or for no number at all. At
least one digit stands before the exponent and one in it.
-/
namespace AgentScript

structure Decimal where
  negative : Bool
  digits : Nat
  exponent : Int
deriving DecidableEq

namespace Decimal

def magnitude (d : Decimal) : Float :=
  Float.ofScientific d.digits (d.exponent < 0) d.exponent.natAbs

def toFloat (d : Decimal) : Float := if d.negative then -d.magnitude else d.magnitude

/-- The number that a list of decimal digits denotes. -/
def digitsValue (digits : List Char) : Nat :=
  digits.foldl (fun n c => 10 * n + (c.toNat - '0'.toNat)) 0

end Decimal

inductive NumberText
  | decimal (value : Decimal)
  | infinity (negative : Bool)
  | notANumber
deriving DecidableEq

namespace NumberText

open CharClass

def toFloat : NumberText → Float
  | decimal d => d.toFloat
  | infinity false => 1 / 0
  | infinity true => -1 / 0
  | notANumber => 0 / 0

/-- Splits a sign off; a minus sign gives `true`. -/
def splitSign : List Char → Bool × List Char
  | '-' :: rest => (true, rest)
  | '+' :: rest => (false, rest)
  | rest => (false, rest)

/-- An exponent part that makes up the whole text, zero where there is none. -/
def exponent? : List Char → Option Int
  | [] => some 0
  | e :: rest =>
    let (negative, digits) := splitSign rest
    if (e = 'e' || e = 'E') && !digits.isEmpty && digits.all isDigit then
      let n : Int := Decimal.digitsValue digits
      some (if negative then -n else n)
    else none

/-- The digits after a point, and what follows them. -/
def splitFraction : List Char → List Char × List Char
  | '.' :: rest => (rest.takeWhile isDigit, rest.dropWhile isDigit)
  | rest => ([], rest)

def unsigned? (negative : Bool) (text : List Char) : Option Decimal :=
  let whole := text.takeWhile isDigit
  let (fraction, rest) := splitFraction (text.dropWhile isDigit)
  if whole.isEmpty && fraction.isEmpty then none
  else
    (exponent? rest).map fun e =>
      ⟨negative, Decimal.digitsValue (whole ++ fraction), e - fraction.length⟩

def specialWord? (negative : Bool) (word : List Char) : Option NumberText :=
  match String.ofList (word.map Char.toLower) with
  | "inf" => some (infinity negative)
  | "infinity" => some (infinity negative)
  | "nan" => some notANumber
  | _ => none

def ofText? (text : List Char) : Option NumberText :=
  let (negative, rest) := splitSign text
  match unsigned? negative rest with
  | some d => some (decimal d)
  | none => specialWord? negative rest

end NumberText

/-- The double that a number's text denotes. -/
def readFloat? (text : String) : Option Float := (NumberText.ofText? text.toList).map (·.toFloat)

end AgentScript
