import AgentScript.Text.Chomping
import AgentScript.Token.Keyword

/-!
# Kinds of tokens

The closed vocabulary of terminals: layout tokens, punctuation, literals, words, and the
raw content of type tags, multi-line strings and embedded code.
-/
namespace AgentScript

inductive Bracket
  | paren | square | curly
deriving DecidableEq, Inhabited

namespace Bracket

def all : List Bracket := [paren, square, curly]

def opener : Bracket → Char
  | paren => '('
  | square => '['
  | curly => '\x7b'

def closer : Bracket → Char
  | paren => ')'
  | square => ']'
  | curly => '\x7d'

def ofOpener? : Char → Option Bracket
  | '(' => some paren
  | '[' => some square
  | '\x7b' => some curly
  | _ => none

def ofCloser? : Char → Option Bracket
  | ')' => some paren
  | ']' => some square
  | '\x7d' => some curly
  | _ => none

@[simp] theorem ofOpener?_opener (b : Bracket) : ofOpener? b.opener = some b := by
  cases b <;> rfl

@[simp] theorem ofCloser?_closer (b : Bracket) : ofCloser? b.closer = some b := by
  cases b <;> rfl

end Bracket

inductive TokenKind
  | indent | dedent | newline | eof
  | colon | comma | opening (bracket : Bracket) | closing (bracket : Bracket)
  | arrow | lt | gt | dot | slash
  /-- The mark before an item of a block list. -/
  | dash
  /-- The separator of a type tag's value and modifier. -/
  | pipe
  | multiline (chomping : Chomping)
  | string | number | atom | literal (word : LiteralWord)
  /-- Capitalized words with single spaces between them. -/
  | properWord
  /-- A word in lower case that is no keyword. -/
  | commonNoun
  | typeTagName | typeTagValue | typeTagModifier
  | embeddedMarker | embeddedBlockMarker | embeddedCode
  /-- One captured line of a multi-line string. -/
  | stringContent
  | keyword (word : Keyword)
deriving DecidableEq, Inhabited

namespace TokenKind

def isKeyword : TokenKind → Bool
  | keyword _ => true
  | _ => false

def isLiteralWord : TokenKind → Bool
  | literal _ => true
  | _ => false

/-- Tokens whose text can serve as a key or a name. -/
def isWordlike : TokenKind → Bool
  | properWord | commonNoun | keyword _ | literal _ => true
  | _ => false

/-- Keywords that open a section of an agent, or the agent itself. -/
def isSectionKeyword : TokenKind → Bool
  | keyword (.opening _) => true
  | _ => false

def isMessageForm : TokenKind → Bool
  | keyword (.form _) => true
  | _ => false

def isSuggestionForm : TokenKind → Bool
  | keyword (.suggestion _) => true
  | _ => false

def traffic? : TokenKind → Option TrafficType
  | keyword (.traffic t) => some t
  | _ => none

def chomping? : TokenKind → Option Chomping
  | multiline c => some c
  | _ => none

/-- Tokens that carry layout and no text of the language. -/
def isStructural : TokenKind → Bool
  | indent | dedent | newline | eof => true
  | _ => false

/-- The kind of a lower-case or capitalized literal word. -/
def ofLiteralWord? (word : String) : Option TokenKind := (LiteralWord.ofWord? word).map literal

/-- The kind of a word that is a keyword or a literal word. -/
def ofKeyword? (word : String) : Option TokenKind :=
  match Keyword.ofWord? word with
  | some k => some (keyword k)
  | none => ofLiteralWord? word

/-- How a message speaks of a token of this kind. -/
def describe : TokenKind → String
  | indent => "indentation"
  | dedent => "end of block"
  | newline => "end of line"
  | eof => "end of input"
  | colon => "':'"
  | comma => "','"
  | opening b => "'" ++ String.singleton b.opener ++ "'"
  | closing b => "'" ++ String.singleton b.closer ++ "'"
  | arrow => "'->'"
  | lt => "'<'"
  | gt => "'>'"
  | dot => "'.'"
  | slash => "'/'"
  | dash => "'-'"
  | pipe => "'|'"
  | multiline _ => "multi-line string marker"
  | string => "string"
  | number => "number"
  | atom => "atom"
  | literal (.boolean _) => "boolean"
  | literal .null => "null"
  | properWord => "proper noun"
  | commonNoun => "identifier"
  | typeTagName => "type tag name"
  | typeTagValue => "type tag value"
  | typeTagModifier => "type tag modifier"
  | embeddedMarker => "embedded expression"
  | embeddedBlockMarker => "embedded code block"
  | embeddedCode => "embedded code"
  | stringContent => "string content"
  | keyword _ => "keyword"

/-- The name under which a kind is written in serialized tokens. -/
def name : TokenKind → String
  | indent => "INDENT"
  | dedent => "DEDENT"
  | newline => "NEWLINE"
  | eof => "EOF"
  | colon => "COLON"
  | comma => "COMMA"
  | opening .paren => "L_PAREN"
  | closing .paren => "R_PAREN"
  | opening .square => "L_BRACKET"
  | closing .square => "R_BRACKET"
  | opening .curly => "L_BRACE"
  | closing .curly => "R_BRACE"
  | arrow => "ARROW"
  | lt => "LT"
  | gt => "GT"
  | dot => "DOT"
  | slash => "SLASH"
  | dash => "DASH"
  | pipe => "PIPE"
  | multiline .clean => "MULTILINE_CLEAN"
  | multiline .strip => "MULTILINE_STRIP"
  | multiline .preserve => "MULTILINE_PRESERVE"
  | multiline .preserveAll => "MULTILINE_PRESERVE_ALL"
  | string => "STRING"
  | number => "NUMBER"
  | atom => "ATOM"
  | literal (.boolean true) => "TRUE"
  | literal (.boolean false) => "FALSE"
  | literal .null => "NULL"
  | properWord => "PROPER_WORD"
  | commonNoun => "COMMON_NOUN"
  | typeTagName => "TYPE_TAG_NAME"
  | typeTagValue => "TYPE_TAG_VALUE"
  | typeTagModifier => "TYPE_TAG_MODIFIER"
  | embeddedMarker => "EMBEDDED_MARKER"
  | embeddedBlockMarker => "EMBEDDED_BLOCK_MARKER"
  | embeddedCode => "EMBEDDED_CODE_CONTENT"
  | stringContent => "STRING_CONTENT"
  | keyword .importWord => "IMPORT"
  | keyword .asWord => "AS"
  | keyword .fromWord => "FROM"
  | keyword (.opening .agent) => "AGENT"
  | keyword (.opening .agentConfig) => "AGENT_CONFIG"
  | keyword (.opening .agentDefaults) => "AGENT_DEFAULTS"
  | keyword (.opening .flow) => "FLOW"
  | keyword (.opening .messages) => "MESSAGES"
  | keyword .message => "MESSAGE"
  | keyword .withWord => "WITH"
  | keyword .whenWord => "WHEN"
  | keyword .listWord => "LIST"
  | keyword .ofWord => "OF"
  | keyword (.form .text) => "TEXT"
  | keyword (.form .richCard) => "RICH_CARD"
  | keyword (.form .carousel) => "CAROUSEL"
  | keyword (.form .rbmFile) => "RBM_FILE"
  | keyword (.form .file) => "FILE"
  | keyword (.suggestion .reply) => "REPLY"
  | keyword (.suggestion .dial) => "DIAL"
  | keyword (.suggestion .openUrl) => "OPEN_URL"
  | keyword (.suggestion .shareLocation) => "SHARE_LOCATION"
  | keyword (.suggestion .viewLocation) => "VIEW_LOCATION"
  | keyword (.suggestion .saveEvent) => "SAVE_EVENT"
  | keyword (.traffic .transactional) => "TRANSACTIONAL"
  | keyword (.traffic .promotional) => "PROMOTIONAL"
  | keyword (.traffic .acknowledgement) => "ACKNOWLEDGEMENT"
  | keyword (.traffic .authentication) => "AUTHENTICATION"
  | keyword (.traffic .serviceRequest) => "SERVICE_REQUEST"

def all : List TokenKind :=
  [indent, dedent, newline, eof, colon, comma] ++ Bracket.all.map opening ++
  Bracket.all.map closing ++ [arrow, lt, gt, dot, slash, dash, pipe] ++
  [Chomping.clean, .strip, .preserve, .preserveAll].map multiline ++ [string, number, atom] ++
  LiteralWord.all.map literal ++ [properWord, commonNoun, typeTagName, typeTagValue,
    typeTagModifier, embeddedMarker, embeddedBlockMarker, embeddedCode, stringContent] ++
  Keyword.all.map keyword

def ofName? (name : String) : Option TokenKind := all.find? (·.name == name)

end TokenKind

end AgentScript
