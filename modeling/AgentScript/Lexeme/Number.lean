import AgentScript.Lexeme.Piece

/-!
# Number lexemes

A number is an optional minus sign, digits, an optional fraction and an optional exponent.
A point without a digit after it, and an exponent mark without digits, are left to the
text that follows.
-/
namespace AgentScript.Lexeme

def digitsLength : List Char → Nat := spanLength CharClass.isDigit

def minusLength : List Char → Nat
  | '-' :: _ => 1
  | _ => 0

def fractionLength : List Char → Nat
  | '.' :: rest => if digitsLength rest = 0 then 0 else 1 + digitsLength rest
  | _ => 0

def exponentSignLength : List Char → Nat
  | '+' :: _ | '-' :: _ => 1
  | _ => 0

def exponentLength : List Char → Nat
  | 'e' :: rest | 'E' :: rest =>
    let sign := exponentSignLength rest
    let digits := digitsLength (rest.drop sign)
    if digits = 0 then 0 else 1 + sign + digits
  | _ => 0

def numberLength (text : List Char) : Nat :=
  let whole := minusLength text + digitsLength (text.drop (minusLength text))
  let decimal := whole + fractionLength (text.drop whole)
  decimal + exponentLength (text.drop decimal)

def number : Scanner := fun text => [.token .number (numberLength text)]

end AgentScript.Lexeme
