/-!
# Quoted strings

A quoted string is a body between double quotes. In the body a backslash and one of five
characters stand for a quote, a backslash, a line feed, a tab or a carriage return; a
backslash before any other character is kept. Decoding also accepts a body whose quotes
are missing.
-/
namespace AgentScript.Quoted

/-- The character that a backslash and `c` stand for. -/
def escapeValue? : Char → Option Char
  | '"' => some '"'
  | '\\' => some '\\'
  | 'n' => some '\n'
  | 't' => some '\t'
  | 'r' => some '\r'
  | _ => none

/-- The character that stands for `c` after a backslash, where `c` has to be escaped. -/
def escapeLetter? : Char → Option Char
  | '"' => some '"'
  | '\\' => some '\\'
  | '\n' => some 'n'
  | '\t' => some 't'
  | '\r' => some 'r'
  | _ => none

def unescape : List Char → List Char
  | [] => []
  | '\\' :: c :: rest =>
    match escapeValue? c with
    | some v => v :: unescape rest
    | none => '\\' :: c :: unescape rest
  | c :: rest => c :: unescape rest

def escape : List Char → List Char
  | [] => []
  | c :: rest =>
    match escapeLetter? c with
    | some l => '\\' :: l :: escape rest
    | none => c :: escape rest

def dropOpening : List Char → List Char
  | '"' :: body => body
  | body => body

/-- A final quote closes the body unless an odd number of backslashes stands before it. -/
def closes (body : List Char) : Bool :=
  match body.reverse with
  | '"' :: before => (before.takeWhile (· == '\\')).length % 2 == 0
  | _ => false

def dropClosing (body : List Char) : List Char :=
  if closes body then body.dropLast else body

def decode (lexeme : List Char) : List Char :=
  unescape (dropClosing (dropOpening lexeme))

def encode (text : List Char) : List Char :=
  '"' :: (escape text ++ ['"'])

def decodeString (lexeme : String) : String := String.ofList (decode lexeme.toList)

def encodeString (text : String) : String := String.ofList (encode text.toList)

theorem escapeValue?_escapeLetter? {c l : Char} (h : escapeLetter? c = some l) :
    escapeValue? l = some c := by
  unfold escapeLetter? at h
  split at h <;> simp at h <;> subst h <;> rfl

theorem unescape_escape (text : List Char) : unescape (escape text) = text := by
  induction text with
  | nil => rfl
  | cons c rest ih =>
    unfold escape
    split
    · next l h => simp [unescape, escapeValue?_escapeLetter? h, ih]
    · next h =>
      have hc : c ≠ '\\' := by rintro rfl; simp [escapeLetter?] at h
      unfold unescape
      split <;> simp_all

end AgentScript.Quoted
