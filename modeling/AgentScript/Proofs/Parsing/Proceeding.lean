import AgentScript.Proofs.Parsing.Course

/-!
# Every parser proceeds

Each parser is made of parsers that only pass tokens and report problems, so it does no
more. Where a parser chooses by the kind of a token, every choice is checked; where it
repeats itself, the check is by induction on the bound.
-/
namespace AgentScript.Parser

variable {α : Type}

instance proceeds_expect (k : TokenKind) (what : String) : Proceeds (expect k what) := by
  unfold expect
  infer_instance

instance proceeds_takeString (what : String) : Proceeds (takeString what) := by
  unfold takeString
  infer_instance

instance proceeds_takeName (what : String) : Proceeds (takeName what) := by
  unfold takeName
  infer_instance

instance proceeds_takeSectionName (what : String) : Proceeds (takeSectionName what) := by
  unfold takeSectionName
  infer_instance

instance proceeds_takeOptionalName : Proceeds takeOptionalName := by
  unfold takeOptionalName
  infer_instance

instance proceeds_optionally (k : TokenKind) {p : Parser α} [Proceeds p] :
    Proceeds (optionally k p) := by
  unfold optionally
  infer_instance

instance proceeds_eachAfter (separator : TokenKind) {item : Parser α} [Proceeds item]
    (fuel : Nat) : Proceeds (eachAfter separator item fuel) := by
  induction fuel with
  | zero => exact proceeds_pure []
  | succ fuel ih =>
    unfold eachAfter
    infer_instance

instance proceeds_followers (separator : TokenKind) {item : Parser α} [Proceeds item] :
    Proceeds (followers separator item) := by
  unfold followers
  infer_instance

instance proceeds_separated (separator : TokenKind) {first item : Parser α} [Proceeds first]
    [Proceeds item] : Proceeds (separated separator first item) := by
  unfold separated
  infer_instance

instance proceeds_takeText (k : TokenKind) : Proceeds (takeText k) := by
  unfold takeText
  infer_instance

instance proceeds_tagModifier : Proceeds tagModifier := by
  unfold tagModifier
  infer_instance

instance proceeds_typeTag : Proceeds typeTag := by
  unfold typeTag
  infer_instance

/-- A member begins with a point and a name. -/
theorem startsMember_iff {s : ParserState} : startsMember s = true ↔
    s.kind = .dot ∧ (s.advance.kind = .properWord ∨ s.advance.kind = .commonNoun) := by
  simp [startsMember, ParserState.kind_advance, or_comm]

theorem startsMember_congr {s s' : ParserState} (hcurrent : s.current = s'.current)
    (hahead : (s.ahead 1).kind = (s'.ahead 1).kind) : startsMember s = startsMember s' := by
  unfold startsMember ParserState.kind
  rw [hcurrent, hahead]

/-- What holds of points and of names holds of the first two words of a member. -/
theorem kinds_of_startsMember (P : TokenKind → Prop) (hdot : P .dot) (hproper : P .properWord)
    (hcommon : P .commonNoun) {s : ParserState} (h : startsMember s = true) :
    P s.kind ∧ P s.advance.kind := by
  obtain ⟨hk, hname | hname⟩ := startsMember_iff.mp h
  · rw [hk, hname]
    exact ⟨hdot, hproper⟩
  · rw [hk, hname]
    exact ⟨hdot, hcommon⟩

instance proceeds_members (fuel : Nat) : Proceeds (members fuel) := by
  induction fuel with
  | zero => exact proceeds_pure []
  | succ fuel ih =>
    unfold members
    infer_instance

instance proceeds_identifier : Proceeds identifier := by
  unfold identifier
  infer_instance

/-- A loop over items with commas between them, up to the token that closes it. -/
structure ItemLoop (close : TokenKind) (item : Parser α) (run : Nat → Parser (List α)) : Prop where
  zero : run 0 = pure []
  succ : ∀ fuel, run (fuel + 1) = do
    if ← check close then return []
    else
      let a ← item
      if ← eat .comma then
        let rest ← run fuel
        return a :: rest
      else return [a]

theorem itemLoop_listItems (item : Parser Value) (close : TokenKind) :
    ItemLoop close item (listItems item close) := ⟨rfl, fun _ => rfl⟩

theorem itemLoop_dictionaryEntries (item : Parser Value) :
    ItemLoop (.closing .curly) (inlineEntry item) (dictionaryEntries item) := ⟨rfl, fun _ => rfl⟩

theorem ItemLoop.proceeds {close : TokenKind} {item : Parser α} [Proceeds item]
    {run : Nat → Parser (List α)} (hrun : ItemLoop close item run) (fuel : Nat) :
    Proceeds (run fuel) := by
  induction fuel with
  | zero =>
    rw [hrun.zero]
    exact proceeds_pure []
  | succ fuel ih =>
    rw [hrun.succ]
    infer_instance

instance proceeds_listItems {item : Parser Value} [Proceeds item] (close : TokenKind)
    (fuel : Nat) : Proceeds (listItems item close fuel) :=
  (itemLoop_listItems item close).proceeds fuel

instance proceeds_inlineList {item : Parser Value} [Proceeds item] (bracket : Bracket)
    (what : String) : Proceeds (inlineList item bracket what) := by
  unfold inlineList
  infer_instance

instance proceeds_entryKey : Proceeds entryKey := by
  unfold entryKey
  infer_instance

instance proceeds_keyed {key : Parser String} [Proceeds key] (colon : String)
    {value : Parser Value} [Proceeds value] : Proceeds (keyed key colon value) := by
  unfold keyed
  infer_instance

instance proceeds_inlineEntry {item : Parser Value} [Proceeds item] :
    Proceeds (inlineEntry item) := by
  unfold inlineEntry
  infer_instance

instance proceeds_dictionaryEntries {item : Parser Value} [Proceeds item] (fuel : Nat) :
    Proceeds (dictionaryEntries item fuel) :=
  (itemLoop_dictionaryEntries item).proceeds fuel

instance proceeds_inlineDictionary {item : Parser Value} [Proceeds item] :
    Proceeds (inlineDictionary item) := by
  unfold inlineDictionary
  infer_instance

instance proceeds_expression : Proceeds expression := by
  unfold expression
  infer_instance

instance proceeds_inlineValueWithin (depth : Nat) : Proceeds (inlineValueWithin depth) := by
  induction depth with
  | zero => exact proceeds_unexpected _
  | succ depth ih =>
    unfold inlineValueWithin
    apply Proceeds.bind
    intro k
    split
    case h_3 =>
      apply Proceeds.bind
      intro t
      split <;> infer_instance
    all_goals infer_instance

instance proceeds_inlineValue : Proceeds inlineValue := by
  unfold inlineValue
  infer_instance

instance proceeds_contentLines (k : TokenKind) (fuel : Nat) : Proceeds (contentLines k fuel) := by
  induction fuel with
  | zero => exact proceeds_pure []
  | succ fuel ih =>
    unfold contentLines
    infer_instance

instance proceeds_content (k : TokenKind) : Proceeds (content k) := by
  unfold content
  infer_instance

instance proceeds_listLine {value : Parser Value} [Proceeds value] : (listLine value).Proceeds := by
  unfold listLine
  infer_instance

instance proceeds_keyedLine (key colon : String) {value : Parser Value} [Proceeds value] :
    Proceeds (keyedLine key colon value) := by
  unfold keyedLine
  infer_instance

instance proceeds_dictionaryLine {value : Parser Value} [Proceeds value] :
    (dictionaryLine value).Proceeds := by
  unfold dictionaryLine
  infer_instance

instance proceeds_blockList {value : Parser Value} [Proceeds value] :
    Proceeds (blockList value) := by
  unfold blockList
  infer_instance

instance proceeds_blockDictionary {value : Parser Value} [Proceeds value] :
    Proceeds (blockDictionary value) := by
  unfold blockDictionary
  infer_instance

instance proceeds_multilineString (chomping : Chomping) :
    Proceeds (multilineString chomping) := by
  unfold multilineString
  infer_instance

instance proceeds_codeBlock : Proceeds codeBlock := by
  unfold codeBlock
  infer_instance

instance proceeds_valueWithin (depth : Nat) : Proceeds (valueWithin depth) := by
  induction depth with
  | zero => exact proceeds_unexpected _
  | succ depth ih =>
    unfold valueWithin
    apply Proceeds.bind
    intro k
    split <;> infer_instance

instance proceeds_value : Proceeds value := by
  unfold value
  infer_instance

instance proceeds_parameter : Proceeds parameter := by
  unfold parameter
  infer_instance

instance proceeds_optionalWith : Proceeds optionalWith := by
  unfold optionalWith
  infer_instance

instance proceeds_operand : Proceeds operand := by
  apply Proceeds.bind
  intro t
  split <;> infer_instance

instance proceeds_operandChain : Proceeds operandChain := by
  unfold operandChain
  infer_instance

instance proceeds_whenClause : Proceeds whenClause := by
  unfold whenClause
  infer_instance

instance proceeds_flowRule : Proceeds flowRule := by
  unfold flowRule
  infer_instance

instance proceeds_flowSection : Proceeds flowSection := by
  unfold flowSection
  infer_instance

instance proceeds_url (what : String) : Proceeds (url what) := by
  apply Proceeds.bind
  intro k
  split <;> infer_instance

instance proceeds_optionalUrl (what : String) : Proceeds (optionalUrl what) := by
  apply Proceeds.bind
  intro k
  split <;> infer_instance

instance proceeds_optionalString (what : String) : Proceeds (optionalString what) := by
  unfold optionalString
  infer_instance

instance proceeds_applyOption (place : OptionPlace) (apply : α → String → Option α) (a : α)
    (t : Token) : Proceeds (applyOption place apply a t) := by
  unfold applyOption
  split <;> infer_instance

instance proceeds_options (place : OptionPlace) (apply : α → String → Option α) (fuel : Nat)
    (a : α) : Proceeds (options place apply fuel a) := by
  induction fuel generalizing a with
  | zero => exact proceeds_pure a
  | succ fuel ih =>
    unfold options
    infer_instance

instance proceeds_cardOptions (fuel : Nat) (c : CardParts) : Proceeds (cardOptions fuel c) := by
  induction fuel generalizing c with
  | zero => exact proceeds_pure c
  | succ fuel ih =>
    apply Proceeds.bind
    intro k
    split <;> infer_instance

instance proceeds_time (what : String) : Proceeds (time what) := by
  unfold time
  infer_instance

instance proceeds_suggestionAction (form : SuggestionForm) :
    Proceeds (suggestionAction form) := by
  cases form <;> unfold suggestionAction <;> infer_instance

instance proceeds_suggestion : Proceeds suggestion := by
  apply Proceeds.bind
  intro k
  split <;> infer_instance

instance proceeds_suggestionBlock : Proceeds suggestionBlock := by
  unfold suggestionBlock
  infer_instance

instance proceeds_cardLine : cardLine.Proceeds := by
  constructor
  intro c s
  unfold cardLine
  split_ifs
  · exact LineParser.Proceeds.leads c s
  · exact LineParser.Proceeds.leads c s

instance proceeds_richCard (traffic : Option TrafficType) : Proceeds (richCard traffic) := by
  unfold richCard
  infer_instance

instance proceeds_textMessage (traffic : Option TrafficType) : Proceeds (textMessage traffic) := by
  unfold textMessage
  infer_instance

instance proceeds_carouselLine : carouselLine.Proceeds := by
  unfold carouselLine
  infer_instance

instance proceeds_carousel (traffic : Option TrafficType) : Proceeds (carousel traffic) := by
  unfold carousel
  infer_instance

instance proceeds_rbmFile (traffic : Option TrafficType) : Proceeds (rbmFile traffic) := by
  unfold rbmFile
  infer_instance

instance proceeds_file (traffic : Option TrafficType) : Proceeds (file traffic) := by
  unfold file
  infer_instance

instance proceeds_attributeEntry : Proceeds attributeEntry := by
  unfold attributeEntry
  infer_instance

instance proceeds_definitionLine : definitionLine.Proceeds := by
  constructor
  intro parts s
  unfold definitionLine
  split_ifs
  · exact LineParser.Proceeds.leads parts s
  · exact LineParser.Proceeds.leads parts s
  · exact LineParser.Proceeds.leads parts s

instance proceeds_messageDefinition (traffic : Option TrafficType) :
    Proceeds (messageDefinition traffic) := by
  unfold messageDefinition
  infer_instance

instance proceeds_shortForm (traffic : Option TrafficType) (form : MessageForm) :
    Proceeds (shortForm traffic form) := by
  cases form <;> unfold shortForm <;> infer_instance

instance proceeds_takeTraffic : Proceeds takeTraffic := by
  apply Proceeds.bind
  intro k
  split <;> infer_instance

instance proceeds_message : Proceeds message := by
  apply Proceeds.bind
  intro traffic
  apply Proceeds.bind
  intro k
  split <;> infer_instance

instance proceeds_messageSection : Proceeds messageSection := by
  unfold messageSection
  infer_instance

instance proceeds_importLine : Proceeds importLine := by
  unfold importLine
  infer_instance

instance proceeds_mappedRow : Proceeds mappedRow := by
  unfold mappedRow
  infer_instance

instance proceeds_mappedType : Proceeds mappedType := by
  apply Proceeds.bind
  intro t
  apply Proceeds.bind
  intro name
  apply Proceeds.bind
  intro _
  apply Proceeds.bind
  intro _
  apply Proceeds.bind
  intro _
  infer_instance

instance proceeds_settingsLine : settingsLine.Proceeds := by
  constructor
  intro parts s
  unfold settingsLine
  split_ifs
  · exact LineParser.Proceeds.leads parts s
  · exact LineParser.Proceeds.leads parts s

instance proceeds_settingsSection : Proceeds settingsSection := by
  unfold settingsSection
  infer_instance

instance proceeds_fillOnce (old : Option α) (new : α) (cause : ParseCause) (location : Location) :
    Proceeds (fillOnce old new cause location) := by
  unfold fillOnce
  split <;> infer_instance

instance proceeds_agentAttribute (p : AgentParts) : Proceeds (agentAttribute p) := by
  unfold agentAttribute
  infer_instance

instance proceeds_agentPart (p : AgentParts) : Proceeds (agentPart p) := by
  apply Proceeds.bind
  intro t
  split <;> infer_instance

instance proceeds_agent : Proceeds agent := by
  unfold agent
  infer_instance

end AgentScript.Parser
