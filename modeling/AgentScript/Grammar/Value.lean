import AgentScript.Grammar.Block

/-!
# Parsing values

An inline value stays on its line: a scalar, a type tag, an expression, a name, or a
collection in brackets. Any value can also be a multi-line string, a code block, or a
collection with one item or entry a line in a block. The depth of nesting is at most the
number of tokens, since every level takes one; within a line it is at most the number of
tokens left on the line.
-/
namespace AgentScript.Parser

/-- The text of the current token if it is of the kind. -/
def takeText (k : TokenKind) : Parser (Option String) := do
  if ← check k then
    let t ← advance
    return some t.text
  else return none

/-- The modifier of a tag, if a bar introduces one. -/
def tagModifier : Parser (Option String) := do
  if ← eat .pipe then takeText .typeTagModifier else return none

/-- A tag `< name? value? (| modifier?)? >`. -/
def typeTag : Parser TypeTag := do
  let start ← expect .lt "'<'"
  let name ← takeText .typeTagName
  let value ← takeText .typeTagValue
  let modifier ← tagModifier
  let _ ← expect .gt "'>' closing type tag"
  let location ← spanFrom start.start
  return ⟨name, value.getD "", modifier, some location⟩

/-- Whether a point and a name come next. -/
def startsMember (s : ParserState) : Bool :=
  s.kind == .dot && ((s.ahead 1).kind == .commonNoun || (s.ahead 1).kind == .properWord)

/-- The words after the points of a dotted name, at most `fuel` of them. -/
def members : Nat → Parser (List String)
  | 0 => return []
  | fuel + 1 => do
    if ← look startsMember then
      let _ ← advance
      let t ← advance
      let rest ← members fuel
      return t.text :: rest
    else return []

/-- A dotted name, `name(.member)*`. -/
def identifier : Parser Value := do
  let first ← advance
  let rest ← members (← lineLeft)
  let location ← spanFrom first.start
  return .ofName (".".intercalate (first.text :: rest)) location

/-- The items of a list up to the token before its end, a trailing comma included. -/
def listItems (item : Parser Value) (close : TokenKind) : Nat → Parser (List Value)
  | 0 => return []
  | fuel + 1 => do
    if ← check close then return []
    else
      let v ← item
      if ← eat .comma then
        let rest ← listItems item close fuel
        return v :: rest
      else return [v]

/-- A list `( a, b )` or `[ a, b ]`. -/
def inlineList (item : Parser Value) (bracket : Bracket) (what : String) : Parser Value := do
  let opener ← advance
  let items ← listItems item (.closing bracket) ((← lineLeft) + 1)
  let _ ← expect (.closing bracket) what
  let location ← spanFrom opener.start
  return .ofItems (some opener.kind) items location

/-- The key of an entry, a word or a string. -/
def entryKey : Parser String := do
  if ← check .string then takeString "dictionary key" else takeName "dictionary key"

/-- Something under a key, `key: value`. -/
def keyed (key : Parser String) (colon : String) (value : Parser Value) : Parser (Keyed Value) := do
  let start := (← peek).start
  let key ← key
  let _ ← expect .colon colon
  let v ← value
  let location ← spanFrom start
  return ⟨key, v, some location⟩

/-- An entry of an inline dictionary. -/
def inlineEntry (item : Parser Value) : Parser (Keyed Value) :=
  keyed entryKey "':' after dictionary key" item

def dictionaryEntries (item : Parser Value) : Nat → Parser (List (Keyed Value))
  | 0 => return []
  | fuel + 1 => do
    if ← check (.closing .curly) then return []
    else
      let e ← inlineEntry item
      if ← eat .comma then
        let rest ← dictionaryEntries item fuel
        return e :: rest
      else return [e]

def inlineDictionary (item : Parser Value) : Parser Value := do
  let opener ← advance
  let entries ← dictionaryEntries item ((← lineLeft) + 1)
  let _ ← expect (.closing .curly) "'\x7d'"
  let location ← spanFrom opener.start
  return .ofEntries (some opener.kind) entries location

def expression : Parser Value := do
  let marker ← advance
  if ← check .embeddedCode then
    let code ← advance
    return .ofExpression marker (some code)
  else return .ofExpression marker none

/-- An inline value nested less than `depth` deep. -/
def inlineValueWithin : Nat → Parser Value
  | 0 => unexpected "value"
  | depth + 1 => do
    match ← kind with
    | .string => return .ofStringToken (← advance)
    | .number =>
      let t ← advance
      ofNode (Value.ofNumberToken t) t.location
    | .literal _ =>
      let t ← advance
      match Value.ofLiteralToken? t with
      | some v => return v
      | none => unexpected "value"
    | .atom => return .ofAtomToken (← advance)
    | .lt => return .typeTag (← typeTag)
    | .embeddedMarker => expression
    | .opening .paren => inlineList (inlineValueWithin depth) .paren "')'"
    | .opening .square => inlineList (inlineValueWithin depth) .square "']'"
    | .opening .curly => inlineDictionary (inlineValueWithin depth)
    | .properWord => identifier
    | .commonNoun => identifier
    | _ => unexpected "value"

def inlineValue : Parser Value := do inlineValueWithin ((← lineLeft) + 1)

/-- The texts of the tokens of a kind that follow each other here. -/
def contentLines (k : TokenKind) : Nat → Parser (List String)
  | 0 => return []
  | fuel + 1 => do
    if ← check k then
      let t ← advance
      let rest ← contentLines k fuel
      return t.text :: rest
    else return []

def content (k : TokenKind) : Parser (List String) := do contentLines k (← lineLeft)

/-- A line `- value`; the item counts as soon as its value is read. -/
def listLine (value : Parser Value) : LineParser (List Value) :=
  .thenFinish <| .item do
    let _ ← expect .dash "'-' list item"
    value

/-- A line `key: value`. -/
def keyedLine (key colon : String) (value : Parser Value) : Parser (Keyed Value) := do
  let e ← keyed (takeName key) colon value
  finishLine
  return e

def dictionaryLine (value : Parser Value) : LineParser (List (Keyed Value)) :=
  .item (keyedLine "dictionary key" "':' after dictionary key" value)

def blockList (value : Parser Value) : Parser Value := do
  let start := (← peek).start
  let items ← blockLines (listLine value) []
  let location ← spanFrom start
  return .ofItems none items location

def blockDictionary (value : Parser Value) : Parser Value := do
  let start := (← peek).start
  let entries ← blockLines (dictionaryLine value) []
  let location ← spanFrom start
  return .ofEntries none entries location

def multilineString (chomping : Chomping) : Parser Value := do
  let start := (← advance).start
  let lines ← content .stringContent
  let location ← spanFrom start
  return .ofLines chomping lines location

def codeBlock : Parser Value := do
  let marker ← advance
  let lines ← content .embeddedCode
  let location ← spanFrom marker.start
  return .ofCodeBlock marker lines location

/-- Any value, nested less than `depth` deep in blocks. -/
def valueWithin : Nat → Parser Value
  | 0 => unexpected "value"
  | depth + 1 => do
    match ← kind with
    | .newline =>
      if ← checkAhead 1 .indent then
        let _ ← advance
        let _ ← advance
        if ← check .dash then blockList (valueWithin depth)
        else blockDictionary (valueWithin depth)
      else inlineValue
    | .multiline chomping => multilineString chomping
    | .embeddedBlockMarker => codeBlock
    | _ => inlineValue

def value : Parser Value := do valueWithin ((← remaining) + 1)

end AgentScript.Parser
