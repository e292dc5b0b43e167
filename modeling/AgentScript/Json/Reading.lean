import AgentScript.Decimal.Reading
import AgentScript.Json.Basic

/-!
# Reading JSON

Reads one value that makes up a whole text. Of fields with the same name the last one
counts. Arrays and objects may only lie so deep within each other. Every step takes a
character or enters a value, so twice the length of the text bounds the steps.
-/
namespace AgentScript.Json

/-- The bound of the depth of the values that are read from a text. -/
def depthLimit : Nat := 128

namespace Reader

open CharClass

def isSpace (c : Char) : Bool := c == ' ' || c == '\t' || c == '\n' || c == '\r'

def skipSpace (text : List Char) : List Char := text.dropWhile isSpace

def hexValue? (c : Char) : Option Nat :=
  if isDigit c then some (c.toNat - '0'.toNat)
  else if 'a' ≤ c && c ≤ 'f' then some (c.toNat - 'a'.toNat + 10)
  else if 'A' ≤ c && c ≤ 'F' then some (c.toNat - 'A'.toNat + 10)
  else none

def hexUnit? (a b c d : Char) : Option Nat := do
  return ((← hexValue? a) * 16 + (← hexValue? b)) * 256 + (← hexValue? c) * 16 + (← hexValue? d)

def isHighSurrogate (u : Nat) : Bool := 0xd800 ≤ u && u < 0xdc00

def isLowSurrogate (u : Nat) : Bool := 0xdc00 ≤ u && u < 0xe000

def simpleEscape? : Char → Option Char
  | '"' => some '"'
  | '\\' => some '\\'
  | '/' => some '/'
  | 'b' => some '\x08'
  | 'f' => some '\x0c'
  | 'n' => some '\n'
  | 'r' => some '\r'
  | 't' => some '\t'
  | _ => none

/-- The characters of a string up to its closing quote, collected in reverse. -/
def stringTail (read : List Char) : List Char → Option (String × List Char)
  | [] => none
  | '"' :: rest => some (String.ofList read.reverse, rest)
  | '\\' :: 'u' :: a :: b :: c :: d :: rest =>
    match hexUnit? a b c d with
    | none => none
    | some u =>
      if isHighSurrogate u then
        match rest with
        | '\\' :: 'u' :: a' :: b' :: c' :: d' :: rest' =>
          match hexUnit? a' b' c' d' with
          | none => none
          | some v =>
            if isLowSurrogate v then
              stringTail (Char.ofNat (0x10000 + (u - 0xd800) * 0x400 + (v - 0xdc00)) :: read) rest'
            else none
        | _ => none
      else if isLowSurrogate u then none
      else stringTail (Char.ofNat u :: read) rest
  | '\\' :: c :: rest =>
    match simpleEscape? c with
    | some v => stringTail (v :: read) rest
    | none => none
  | c :: rest => if c.toNat < 0x20 then none else stringTail (c :: read) rest

def isNumberChar (c : Char) : Bool :=
  isDigit c || c == '-' || c == '+' || c == '.' || c == 'e' || c == 'E'

/-- The bound of the whole numbers that are kept exactly. -/
def unsignedLimit : Nat := 0x10000000000000000

/-- The bound of the negative ones. -/
def signedLimit : Nat := 0x8000000000000000

/-- Appends digits to a significand as long as it fits 64 bits, and counts the digits left over. -/
def appendDigits : Nat → List Char → Nat × Nat
  | n, [] => (n, 0)
  | n, c :: rest =>
    let next := 10 * n + (c.toNat - '0'.toNat)
    if next < unsignedLimit then appendDigits next rest else (n, rest.length + 1)

/-- A double times a power of ten, in steps within the range of doubles, each of them rounded. -/
def scale : Nat → Float → Int → Float
  | 0, x, _ => x
  | fuel + 1, x, e =>
    if 308 < e then if x == 0 then x else 1 / 0
    else if 0 ≤ e then x * Float.ofScientific 1 false e.toNat
    else if -308 ≤ e then x / Float.ofScientific 1 false (-e).toNat
    else scale fuel (x / Float.ofScientific 1 false 308) (e + 308)

/-- The double of a number with a point, an exponent or many digits, from as many of its
digits as fit 64 bits. Three steps of scaling bring every significand to zero. -/
def float? (negative : Bool) (whole fraction : List Char) (exponent : Int) : Option Float :=
  let (n, cut) := appendDigits 0 whole
  let (n, cutFraction) := appendDigits n fraction
  let e := exponent + cut - (fraction.length - cutFraction : Nat)
  let x := scale 4 (Float.ofNat n) e
  if x.isFinite then some (if negative then -x else x) else none

/-- A number's text. Minus zero is a double, since whole numbers have no sign of zero. -/
def number? (text : List Char) : Option Json :=
  let (negative, digits) := NumberText.splitSign text
  let whole := digits.takeWhile isDigit
  let (fraction, rest) := NumberText.splitFraction (digits.dropWhile isDigit)
  let n := Decimal.digitsValue whole
  if whole.isEmpty then none
  else if whole.length = digits.length && !negative && n < unsignedLimit then some (int n)
  else if whole.length = digits.length && negative && 0 < n && n ≤ signedLimit then some (int (-n))
  else do
    let e ← NumberText.exponent? rest
    let x ← float? negative whole fraction e
    return float x

def insertField (fields : List (String × Json)) (key : String) (value : Json) :
    List (String × Json) :=
  fields.filter (·.1 != key) ++ [(key, value)]

mutual

/-- Reads a value whose depth is at most `room`. -/
def value (room : Nat) : Nat → List Char → Option (Json × List Char)
  | 0, _ => none
  | n + 1, text =>
    match skipSpace text with
    | 'n' :: 'u' :: 'l' :: 'l' :: rest => some (null, rest)
    | 't' :: 'r' :: 'u' :: 'e' :: rest => some (bool true, rest)
    | 'f' :: 'a' :: 'l' :: 's' :: 'e' :: rest => some (bool false, rest)
    | '"' :: rest => (stringTail [] rest).map fun (s, rest) => (str s, rest)
    | '[' :: rest =>
      match room, skipSpace rest with
      | 0, _ => none
      | _ + 1, ']' :: rest => some (arr [], rest)
      | inner + 1, rest => items inner n [] rest
    | '\x7b' :: rest =>
      match room, skipSpace rest with
      | 0, _ => none
      | _ + 1, '\x7d' :: rest => some (obj [], rest)
      | inner + 1, rest => fields inner n [] rest
    | c :: rest =>
      let digits := (c :: rest).takeWhile isNumberChar
      if isDigit c || c == '-' then
        (number? digits).map fun v => (v, (c :: rest).drop digits.length)
      else none
    | [] => none

def items (room : Nat) : Nat → List Json → List Char → Option (Json × List Char)
  | 0, _, _ => none
  | n + 1, read, text =>
    match value room n text with
    | none => none
    | some (v, rest) =>
      match skipSpace rest with
      | ',' :: rest => items room n (v :: read) rest
      | ']' :: rest => some (arr (v :: read).reverse, rest)
      | _ => none

def fields (room : Nat) : Nat → List (String × Json) → List Char → Option (Json × List Char)
  | 0, _, _ => none
  | n + 1, read, text =>
    match skipSpace text with
    | '"' :: rest =>
      match stringTail [] rest with
      | none => none
      | some (key, rest) =>
        match skipSpace rest with
        | ':' :: rest =>
          match value room n rest with
          | none => none
          | some (v, rest) =>
            match skipSpace rest with
            | ',' :: rest => fields room n (insertField read key v) rest
            | '\x7d' :: rest => some (obj (insertField read key v), rest)
            | _ => none
        | _ => none
    | _ => none

end

end Reader

/-- The value that a whole text denotes, if its depth is below the limit. -/
def read? (text : String) : Option Json :=
  let chars := text.toList
  match Reader.value (depthLimit - 1) (2 * chars.length + 2) chars with
  | some (v, rest) => if (Reader.skipSpace rest).isEmpty then some v else none
  | none => none

end AgentScript.Json
