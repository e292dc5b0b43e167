import AgentScript.Decimal.Printing
import AgentScript.Json.Basic

/-!
# Printing JSON

Two layouts: everything on one line, or one field or item a line, indented by two spaces.
Numbers that are not finite have no JSON text and are written as null.
-/
namespace AgentScript.Json

namespace Printer

def hexDigit (n : Nat) : Char := Nat.digitChar n

/-- The characters that stand for `c` within quotes. -/
def escapeChar (c : Char) : List Char :=
  match c with
  | '"' => ['\\', '"']
  | '\\' => ['\\', '\\']
  | '\n' => ['\\', 'n']
  | '\r' => ['\\', 'r']
  | '\t' => ['\\', 't']
  | '\x08' => ['\\', 'b']
  | '\x0c' => ['\\', 'f']
  | c =>
    if c.toNat < 0x20 then ['\\', 'u', '0', '0', hexDigit (c.toNat / 16), hexDigit (c.toNat % 16)]
    else [c]

def quoted (s : String) : String :=
  String.ofList ('"' :: (s.toList.flatMap escapeChar ++ ['"']))

def float (x : Float) : String := if x.isFinite then NumberStyle.json.text x else "null"

/-- The text of a value without items or fields. -/
def scalar : Json → String
  | null => "null"
  | bool true => "true"
  | bool false => "false"
  | int i => toString i
  | .float x => float x
  | str s => quoted s
  | arr _ => "[]"
  | obj _ => "\x7b\x7d"

def breakAt (depth : Nat) : String := "\n" ++ "".pushn ' ' (2 * depth)

mutual

def compact : Json → String
  | arr (v :: vs) => "[" ++ compact v ++ compactItems vs ++ "]"
  | obj ((k, v) :: fs) => "\x7b" ++ quoted k ++ ":" ++ compact v ++ compactFields fs ++ "\x7d"
  | v => scalar v

def compactItems : List Json → String
  | [] => ""
  | v :: vs => "," ++ compact v ++ compactItems vs

def compactFields : List (String × Json) → String
  | [] => ""
  | (k, v) :: fs => "," ++ quoted k ++ ":" ++ compact v ++ compactFields fs

end

mutual

/-- A value whose first character is already indented. -/
def indented (depth : Nat) : Json → String
  | arr (v :: vs) =>
    "[" ++ breakAt (depth + 1) ++ indented (depth + 1) v ++ indentedItems (depth + 1) vs ++
      breakAt depth ++ "]"
  | obj ((k, v) :: fs) =>
    "\x7b" ++ breakAt (depth + 1) ++ quoted k ++ ": " ++ indented (depth + 1) v ++
      indentedFields (depth + 1) fs ++ breakAt depth ++ "\x7d"
  | v => scalar v

def indentedItems (depth : Nat) : List Json → String
  | [] => ""
  | v :: vs => "," ++ breakAt depth ++ indented depth v ++ indentedItems depth vs

def indentedFields (depth : Nat) : List (String × Json) → String
  | [] => ""
  | (k, v) :: fs =>
    "," ++ breakAt depth ++ quoted k ++ ": " ++ indented depth v ++ indentedFields depth fs

end

end Printer

/-- The value on one line. -/
def compact (v : Json) : String := Printer.compact v

/-- The value with one field or item a line. -/
def pretty (v : Json) : String := Printer.indented 0 v

end AgentScript.Json
