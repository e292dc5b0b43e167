/-!
# Printing numbers

A double is written with its shortest digits. Where its leading digit stands near the
point the digits are written positionally, with at least one on each side of it; otherwise
with an exponent.

Among the decimals that a finite double is nearest to, the shortest are those with the
fewest digits, and of these the one closest to the double is chosen. A double is a whole
number of units of a power of two; the reals that round to it reach half a unit to each
side, a quarter of one below a power of two, with the ends included where the number is
even. All comparisons are exact.
-/
namespace AgentScript.Shortest

/-- A positive double `significand * 2 ^ exponent`. -/
structure Binary where
  significand : Nat
  exponent : Int
  /-- Whether the next smaller double is only half a unit away. -/
  atPower : Bool
deriving DecidableEq

/-- A positive decimal `digits * 10 ^ exponent`. -/
structure Digits where
  digits : Nat
  exponent : Int
deriving DecidableEq

/-- The leading bit of a significand, which the bits of a double leave out. -/
def hiddenBit : Nat := 0x10000000000000

/-- The parts of a finite double's magnitude, none for zero. -/
def Binary.ofBits? (bits : Nat) : Option Binary :=
  let fraction := bits % hiddenBit
  let biased : Nat := bits / hiddenBit % 0x800
  if biased = 0 then
    if fraction = 0 then none else some ⟨fraction, -1074, false⟩
  else some ⟨fraction + hiddenBit, (biased : Int) - 1075, fraction = 0 && 1 < biased⟩

namespace Binary

/-- The double in quarters of a unit. -/
def value (b : Binary) : Nat := 4 * b.significand

/-- The lower end of the reals that round to the double, in quarters of a unit. -/
def lower (b : Binary) : Nat := b.value - if b.atPower then 1 else 2

def upper (b : Binary) : Nat := b.value + 2

/-- Factors that bring a multiple of `10 ^ k` and a number of quarters to a common unit. -/
def decimalFactor (b : Binary) (k : Int) : Nat :=
  Nat.pow 10 k.toNat * Nat.pow 2 (2 - b.exponent).toNat

def binaryFactor (b : Binary) (k : Int) : Nat :=
  Nat.pow 10 (-k).toNat * Nat.pow 2 (b.exponent - 2).toNat

/-- Whether `d * 10 ^ k` rounds to the double. -/
def accepts (b : Binary) (d : Nat) (k : Int) : Bool :=
  let x := d * b.decimalFactor k
  let low := b.lower * b.binaryFactor k
  let high := b.upper * b.binaryFactor k
  if b.significand % 2 = 0 then low ≤ x && x ≤ high else low < x && x < high

/-- The multiples of `10 ^ k` next to the double that round to it, the closer one first. -/
def neighbour? (b : Binary) (k : Int) : Option Nat :=
  let v := b.value * b.binaryFactor k
  let unit := b.decimalFactor k
  let below := v / unit
  let above := below + 1
  let distanceBelow := v - below * unit
  let distanceAbove := above * unit - v
  let belowFirst :=
    distanceBelow < distanceAbove || (distanceBelow = distanceAbove && below % 2 = 0)
  let ordered := if belowFirst then [below, above] else [above, below]
  ordered.find? fun d => d != 0 && b.accepts d k

/-- Whether the double is at least `10 ^ k`. -/
def reaches (b : Binary) (k : Int) : Bool := b.decimalFactor k ≤ b.value * b.binaryFactor k

/-- The greatest `k` from `start` on such that the double reaches `10 ^ k`, within `fuel` steps. -/
def decade (b : Binary) : Nat → Int → Int
  | 0, k => k
  | fuel + 1, k => if b.reaches (k + 1) then decade b fuel (k + 1) else k

/-- The decimal exponent of the leading digit. The estimate before the search is at most
three too low and never too high. -/
def leadingExponent (b : Binary) : Int :=
  let log2 : Int := b.significand.log2 + b.exponent
  b.decade 4 ((log2 * 30103).fdiv 100000 - 2)

/-- The first grid, from `k` on downwards, that has an accepted multiple. -/
def search (b : Binary) : Nat → Int → Option Digits
  | 0, _ => none
  | fuel + 1, k =>
    match b.neighbour? k with
    | some d => some ⟨d, k⟩
    | none => search b fuel (k - 1)

end Binary

/-- Moves factors of ten from the digits into the exponent. -/
def Digits.normalize : Nat → Digits → Digits
  | 0, d => d
  | fuel + 1, d => if d.digits % 10 = 0 then normalize fuel ⟨d.digits / 10, d.exponent + 1⟩ else d

/-- The shortest decimal of a double given by its bits, none for zero. Seventeen digits
always suffice. -/
def ofBits? (bits : Nat) : Option Digits := do
  let b ← Binary.ofBits? bits
  let d ← b.search 18 b.leadingExponent
  return d.normalize 20

end AgentScript.Shortest

namespace AgentScript

/-- How the digits of a number are laid out. -/
structure NumberStyle where
  /-- The least and the greatest exponent of the leading digit that is written positionally. -/
  leastPositional : Int
  greatestPositional : Int
  exponentMark : String
  positiveExponentSign : String
  zero : String

namespace NumberStyle

/-- Numbers from `0.00001` up to below `10000000000000000.0` are written positionally, all
others with an exponent that has a sign. -/
def json : NumberStyle := ⟨-5, 15, "e", "+", "0.0"⟩

def positional (digits : List Char) (exponent : Int) : String :=
  if 0 ≤ exponent then
    String.ofList (digits ++ List.replicate exponent.toNat '0') ++ ".0"
  else
    let places := (-exponent).toNat
    if places < digits.length then
      let whole := digits.length - places
      String.ofList (digits.take whole ++ '.' :: digits.drop whole)
    else "0." ++ String.ofList (List.replicate (places - digits.length) '0' ++ digits)

def scientific (style : NumberStyle) (digits : List Char) (leading : Int) : String :=
  let mantissa := match digits with
    | d :: e :: rest => String.ofList (d :: '.' :: e :: rest)
    | short => String.ofList short
  let sign := if leading < 0 then "-" else style.positiveExponentSign
  mantissa ++ style.exponentMark ++ sign ++ toString leading.natAbs

/-- The text of a finite double without its sign. -/
def magnitude (style : NumberStyle) (bits : Nat) : String :=
  match Shortest.ofBits? bits with
  | none => style.zero
  | some d =>
    let digits := Nat.toDigits 10 d.digits
    let leading := d.exponent + digits.length - 1
    if style.leastPositional ≤ leading && leading ≤ style.greatestPositional then
      positional digits d.exponent
    else style.scientific digits leading

/-- The bit that is set in negative doubles. -/
def signBit : Nat := 0x8000000000000000

/-- The text of a finite double. -/
def text (style : NumberStyle) (x : Float) : String :=
  let bits := x.toBits.toNat
  (if signBit ≤ bits then "-" else "") ++ style.magnitude bits

end NumberStyle

end AgentScript
