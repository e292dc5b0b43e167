import AgentScript.Proofs.Parsing.Capping
import AgentScript.Proofs.Parsing.FileLines

/-!
# Errors under a cap

No parser but the loops over lines looks at the cap, so every one of them is read under a cap as
without one until the cap is reached. For whole files this says what a cap does: it keeps the
first errors, and where there are fewer the tree is the same.
-/
namespace AgentScript.Parser

variable {α : Type}

instance untilCap_expect (k : TokenKind) (what : String) : UntilCap (expect k what) := by
  unfold expect
  infer_instance

instance untilCap_takeString (what : String) : UntilCap (takeString what) := by
  unfold takeString
  infer_instance

instance untilCap_takeName (what : String) : UntilCap (takeName what) := by
  unfold takeName
  infer_instance

instance untilCap_takeSectionName (what : String) : UntilCap (takeSectionName what) := by
  unfold takeSectionName
  infer_instance

instance untilCap_takeOptionalName : UntilCap takeOptionalName := by
  unfold takeOptionalName
  infer_instance

instance untilCap_optionally (k : TokenKind) {p : Parser α} [UntilCap p] :
    UntilCap (optionally k p) := by
  unfold optionally
  infer_instance

instance untilCap_eachAfter (separator : TokenKind) {item : Parser α} [UntilCap item]
    (fuel : Nat) : UntilCap (eachAfter separator item fuel) := by
  induction fuel with
  | zero => exact untilCap_pure []
  | succ fuel ih =>
    unfold eachAfter
    infer_instance

instance untilCap_followers (separator : TokenKind) {item : Parser α} [UntilCap item] :
    UntilCap (followers separator item) := by
  unfold followers
  infer_instance

instance untilCap_separated (separator : TokenKind) {first item : Parser α} [UntilCap first]
    [UntilCap item] : UntilCap (separated separator first item) := by
  unfold separated
  infer_instance

instance untilCap_takeText (k : TokenKind) : UntilCap (takeText k) := by
  unfold takeText
  infer_instance

instance untilCap_tagModifier : UntilCap tagModifier := by
  unfold tagModifier
  infer_instance

instance untilCap_typeTag : UntilCap typeTag := by
  unfold typeTag
  infer_instance

instance untilCap_members (fuel : Nat) : UntilCap (members fuel) := by
  induction fuel with
  | zero => exact untilCap_pure []
  | succ fuel ih =>
    unfold members
    infer_instance

instance untilCap_identifier : UntilCap identifier := by
  unfold identifier
  infer_instance

theorem ItemLoop.untilCap {close : TokenKind} {item : Parser α} [UntilCap item]
    {run : Nat → Parser (List α)} (hrun : ItemLoop close item run) (fuel : Nat) :
    UntilCap (run fuel) := by
  induction fuel with
  | zero =>
    rw [hrun.zero]
    exact untilCap_pure []
  | succ fuel ih =>
    rw [hrun.succ]
    infer_instance

instance untilCap_listItems {item : Parser Value} [UntilCap item] (close : TokenKind)
    (fuel : Nat) : UntilCap (listItems item close fuel) :=
  (itemLoop_listItems item close).untilCap fuel

instance untilCap_inlineList {item : Parser Value} [UntilCap item] (bracket : Bracket)
    (what : String) : UntilCap (inlineList item bracket what) := by
  unfold inlineList
  infer_instance

instance untilCap_entryKey : UntilCap entryKey := by
  unfold entryKey
  infer_instance

instance untilCap_keyed {key : Parser String} [UntilCap key] (colon : String)
    {value : Parser Value} [UntilCap value] : UntilCap (keyed key colon value) := by
  unfold keyed
  infer_instance

instance untilCap_inlineEntry {item : Parser Value} [UntilCap item] :
    UntilCap (inlineEntry item) := by
  unfold inlineEntry
  infer_instance

instance untilCap_dictionaryEntries {item : Parser Value} [UntilCap item] (fuel : Nat) :
    UntilCap (dictionaryEntries item fuel) :=
  (itemLoop_dictionaryEntries item).untilCap fuel

instance untilCap_inlineDictionary {item : Parser Value} [UntilCap item] :
    UntilCap (inlineDictionary item) := by
  unfold inlineDictionary
  infer_instance

instance untilCap_expression : UntilCap expression := by
  unfold expression
  infer_instance

instance untilCap_inlineValueWithin (depth : Nat) : UntilCap (inlineValueWithin depth) := by
  induction depth with
  | zero => exact untilCap_unexpected _
  | succ depth ih =>
    unfold inlineValueWithin
    apply UntilCap.bind
    intro k
    split
    case h_3 =>
      apply UntilCap.bind
      intro t
      split <;> infer_instance
    all_goals infer_instance

instance untilCap_inlineValue : UntilCap inlineValue := by
  unfold inlineValue
  infer_instance

instance untilCap_contentLines (k : TokenKind) (fuel : Nat) : UntilCap (contentLines k fuel) := by
  induction fuel with
  | zero => exact untilCap_pure []
  | succ fuel ih =>
    unfold contentLines
    infer_instance

instance untilCap_content (k : TokenKind) : UntilCap (content k) := by
  unfold content
  infer_instance

instance untilCap_listLine {value : Parser Value} [UntilCap value] : (listLine value).UntilCap := by
  unfold listLine
  infer_instance

instance untilCap_keyedLine (key colon : String) {value : Parser Value} [UntilCap value] :
    UntilCap (keyedLine key colon value) := by
  unfold keyedLine
  infer_instance

instance untilCap_dictionaryLine {value : Parser Value} [UntilCap value] :
    (dictionaryLine value).UntilCap := by
  unfold dictionaryLine
  infer_instance

instance untilCap_blockList {value : Parser Value} [UntilCap value] :
    UntilCap (blockList value) := by
  unfold blockList
  infer_instance

instance untilCap_blockDictionary {value : Parser Value} [UntilCap value] :
    UntilCap (blockDictionary value) := by
  unfold blockDictionary
  infer_instance

instance untilCap_multilineString (chomping : Chomping) :
    UntilCap (multilineString chomping) := by
  unfold multilineString
  infer_instance

instance untilCap_codeBlock : UntilCap codeBlock := by
  unfold codeBlock
  infer_instance

instance untilCap_valueWithin (depth : Nat) : UntilCap (valueWithin depth) := by
  induction depth with
  | zero => exact untilCap_unexpected _
  | succ depth ih =>
    unfold valueWithin
    apply UntilCap.bind
    intro k
    split <;> infer_instance

instance untilCap_value : UntilCap value := by
  unfold value
  infer_instance

instance untilCap_parameter : UntilCap parameter := by
  unfold parameter
  infer_instance

instance untilCap_optionalWith : UntilCap optionalWith := by
  unfold optionalWith
  infer_instance

instance untilCap_operand : UntilCap operand := by
  apply UntilCap.bind
  intro t
  split <;> infer_instance

instance untilCap_operandChain : UntilCap operandChain := by
  unfold operandChain
  infer_instance

instance untilCap_whenClause : UntilCap whenClause := by
  unfold whenClause
  infer_instance

instance untilCap_flowRule : UntilCap flowRule := by
  unfold flowRule
  infer_instance

instance untilCap_flowSection : UntilCap flowSection := by
  unfold flowSection
  infer_instance

instance untilCap_url (what : String) : UntilCap (url what) := by
  apply UntilCap.bind
  intro k
  split <;> infer_instance

instance untilCap_optionalUrl (what : String) : UntilCap (optionalUrl what) := by
  apply UntilCap.bind
  intro k
  split <;> infer_instance

instance untilCap_optionalString (what : String) : UntilCap (optionalString what) := by
  unfold optionalString
  infer_instance

instance untilCap_applyOption (place : OptionPlace) (apply : α → String → Option α) (a : α)
    (t : Token) : UntilCap (applyOption place apply a t) := by
  unfold applyOption
  split <;> infer_instance

instance untilCap_options (place : OptionPlace) (apply : α → String → Option α) (fuel : Nat)
    (a : α) : UntilCap (options place apply fuel a) := by
  induction fuel generalizing a with
  | zero => exact untilCap_pure a
  | succ fuel ih =>
    unfold options
    infer_instance

instance untilCap_cardOptions (fuel : Nat) (c : CardParts) : UntilCap (cardOptions fuel c) := by
  induction fuel generalizing c with
  | zero => exact untilCap_pure c
  | succ fuel ih =>
    apply UntilCap.bind
    intro k
    split <;> infer_instance

instance untilCap_time (what : String) : UntilCap (time what) := by
  unfold time
  infer_instance

instance untilCap_suggestionAction (form : SuggestionForm) :
    UntilCap (suggestionAction form) := by
  cases form <;> unfold suggestionAction <;> infer_instance

instance untilCap_suggestion : UntilCap suggestion := by
  apply UntilCap.bind
  intro k
  split <;> infer_instance

instance untilCap_suggestionBlock : UntilCap suggestionBlock := by
  unfold suggestionBlock
  infer_instance

instance untilCap_cardLine : cardLine.UntilCap :=
  LineParser.untilCap_choose (fun _ => rfl) inferInstance LineParser.untilCap_whole

instance untilCap_richCard (traffic : Option TrafficType) : UntilCap (richCard traffic) := by
  unfold richCard
  infer_instance

instance untilCap_textMessage (traffic : Option TrafficType) : UntilCap (textMessage traffic) := by
  unfold textMessage
  infer_instance

instance untilCap_carouselLine : carouselLine.UntilCap := by
  unfold carouselLine
  infer_instance

instance untilCap_carousel (traffic : Option TrafficType) : UntilCap (carousel traffic) := by
  unfold carousel
  infer_instance

instance untilCap_rbmFile (traffic : Option TrafficType) : UntilCap (rbmFile traffic) := by
  unfold rbmFile
  infer_instance

instance untilCap_file (traffic : Option TrafficType) : UntilCap (file traffic) := by
  unfold file
  infer_instance

instance untilCap_attributeEntry : UntilCap attributeEntry := by
  unfold attributeEntry
  infer_instance

instance untilCap_definitionLine : definitionLine.UntilCap := by
  apply LineParser.untilCap_choose (fun _ => rfl)
  · exact LineParser.untilCap_whole
  · apply LineParser.untilCap_choose (fun _ => rfl)
    · exact LineParser.untilCap_whole
    · exact LineParser.untilCap_whole

instance untilCap_messageDefinition (traffic : Option TrafficType) :
    UntilCap (messageDefinition traffic) := by
  unfold messageDefinition
  infer_instance

instance untilCap_shortForm (traffic : Option TrafficType) (form : MessageForm) :
    UntilCap (shortForm traffic form) := by
  cases form <;> unfold shortForm <;> infer_instance

instance untilCap_takeTraffic : UntilCap takeTraffic := by
  apply UntilCap.bind
  intro k
  split <;> infer_instance

instance untilCap_message : UntilCap message := by
  apply UntilCap.bind
  intro traffic
  apply UntilCap.bind
  intro k
  split <;> infer_instance

instance untilCap_messageSection : UntilCap messageSection := by
  unfold messageSection
  infer_instance

instance untilCap_importLine : UntilCap importLine := by
  unfold importLine
  infer_instance

instance untilCap_mappedRow : UntilCap mappedRow := by
  unfold mappedRow
  infer_instance

instance untilCap_mappedType : UntilCap mappedType := by
  apply UntilCap.bind
  intro t
  apply UntilCap.bind
  intro name
  apply UntilCap.bind
  intro _
  apply UntilCap.bind
  intro _
  apply UntilCap.bind
  intro _
  infer_instance

instance untilCap_settingsLine : settingsLine.UntilCap :=
  LineParser.untilCap_choose (fun _ => rfl) LineParser.untilCap_whole LineParser.untilCap_whole

instance untilCap_settingsSection : UntilCap settingsSection := by
  unfold settingsSection
  infer_instance

instance untilCap_fillOnce (old : Option α) (new : α) (cause : ParseCause) (location : Location) :
    UntilCap (fillOnce old new cause location) := by
  unfold fillOnce
  split <;> infer_instance

instance untilCap_agentAttribute (p : AgentParts) : UntilCap (agentAttribute p) := by
  unfold agentAttribute
  infer_instance

instance untilCap_agentPart (p : AgentParts) : UntilCap (agentPart p) := by
  apply UntilCap.bind
  intro t
  split <;> infer_instance

instance untilCap_agent : UntilCap agent := by
  unfold agent
  infer_instance

end AgentScript.Parser

namespace AgentScript

open ParserState

namespace FileParts

variable {f : FileParts} {s : ParserState}

instance untilCap_itemLine : itemLine.UntilCap := by
  refine ⟨proceeds_itemLine, fun f s hs => ?_⟩
  by_cases himport : s.kind = .keyword .importWord
  · have hleft := itemLine_import f himport
    have hright := itemLine_import (s := s.uncapped) f himport
    cases Parser.untilCap_importLine.abreast s hs with
    | ok capped free notHalted =>
      rw [capped] at hleft
      rw [free] at hright
      exact .level hleft hright notHalted
    | error capped free notHalted =>
      rw [capped] at hleft
      rw [free] at hright
      exact .level hleft hright notHalted
    | cut hcut =>
      exact .cut (hcut.leads (leads_itemLine_import f himport) (leads_itemLine_import f himport))
  by_cases hagent : s.kind = .keyword (.opening .agent)
  · have hleft := itemLine_agent f hagent
    have hright := itemLine_agent (s := s.uncapped) f hagent
    cases Parser.untilCap_agent.abreast s hs with
    | ok capped free notHalted =>
      rw [capped] at hleft
      rw [free] at hright
      cases hold : f.agent with
      | none =>
        rw [hold] at hleft hright
        exact .level hleft hright notHalted
      | some _ =>
        rw [hold] at hleft hright
        cases abreast_report notHalted ⟨.secondAgent, some s.current.location⟩ with
        | level same notHalted =>
          exact .level hleft (hright.trans (congrArg _ same)) notHalted
        | cut hcut => exact .cut (by rwa [hleft, hright])
    | error capped free notHalted =>
      rw [capped] at hleft
      rw [free] at hright
      exact .level hleft hright notHalted
    | cut hcut =>
      exact .cut (hcut.leads (leads_itemLine_agent f hagent) (leads_itemLine_agent f hagent))
  · exact .level (itemLine_stray f himport hagent) (itemLine_stray f himport hagent) hs

theorem abreast_readItem (f : FileParts) (hs : s.halted = false) :
    AbreastWith (f.readItem s) (f.readItem s.uncapped) := by
  by_cases hk : s.kind = .newline
  · have hnewline {s : ParserState} (hk : s.kind = .newline) : f.readItem s = (f, s.advance) := by
      rw [readItem, hk]
    rw [hnewline hk, hnewline (s := s.uncapped) hk, advance_uncapped]
    exact .level rfl (by rw [halted_advance, hs])
  · rw [readItem_eq hk, readItem_eq (s := s.uncapped) hk]
    cases untilCap_itemLine.abreast f s hs with
    | @level g problem t capped free notHalted =>
      rw [capped, free]
      cases problem with
      | none => exact .level rfl notHalted
      | some p => exact (abreast_recover notHalted p).with g
    | cut hcut => exact .cut (hcut.leads (leads_resumed _) (leads_resumed _))

theorem abreast_nextItem (f : FileParts) (hs : s.halted = false) :
    AbreastWith (f.nextItem s) (f.nextItem s.uncapped) := by
  have hforced (r : ParserState) (c : Bool) : r.Leads (if c then r.advance else r) := by
    split_ifs
    · exact r.leads_advance
    · exact .refl
  unfold nextItem
  cases abreast_readItem f hs with
  | cut hcut => exact .cut (hcut.leads (hforced _ _) (hforced _ _))
  | level same notHalted =>
    rw [same, remaining_uncapped]
    dsimp only
    rw [remaining_uncapped, advance_uncapped]
    split_ifs
    · exact .level rfl (by rw [halted_advance, notHalted])
    · exact .level rfl notHalted

/-- The items of a file, by induction on the bound: each of them keeps two parses abreast. -/
theorem abreast_readItems (fuel : Nat) (f : FileParts) (hs : s.halted = false) :
    AbreastWith (readItems fuel f s) (readItems fuel f s.uncapped) := by
  induction fuel generalizing f s with
  | zero => exact .level rfl hs
  | succ fuel ih =>
    rw [readItems_succ, readItems_succ, atEnd_uncapped, halted_uncapped, hs]
    split_ifs
    · exact .level rfl hs
    · cases abreast_nextItem f hs with
      | level same notHalted =>
        rw [same]
        exact ih _ notHalted
      | cut hcut => exact .cut (hcut.leads (leads_readItems _ _ _) (leads_readItems _ _ _))

end FileParts

namespace ParsedFile

variable {s : ParserState}

theorem abreast_read (hs : s.halted = false) : AbreastWith (read s) (read s.uncapped) := by
  cases FileParts.abreast_readItems s.remaining .empty hs with
  | cut hcut => exact .cut (hcut.leads (leads_read_items s) (leads_read_items s.uncapped))
  | @level same notHalted =>
    unfold read
    rw [remaining_uncapped, same]
    generalize FileParts.readItems s.remaining .empty s = r at notHalted
    obtain ⟨⟨imports, agent, recognized⟩, t⟩ := r
    cases recognized with
    | false => exact (abreast_report notHalted ⟨.nothingRecognized, none⟩).with none
    | true =>
      cases agent with
      | some a => exact .level rfl notHalted
      | none =>
        cases abreast_report notHalted ⟨.missingAgent, none⟩ with
        | cut hcut => exact .cut hcut
        | level same notHalted =>
          let ended (t : ParserState) : Option SourceFile × ParserState :=
            (some ⟨imports, none, some (t.spanFrom s.current.start)⟩, t)
          exact .level (congrArg ended same) notHalted

end ParsedFile

/-- The error in a file with another label. -/
def ParseError.labelled (file : Option String) (e : ParseError) : ParseError := { e with file }

/-- A cap keeps the first errors of a parse without one, and where it is not reached it makes no
difference to the tree. -/
theorem errors_upToCap (tokens : List Token) (file : Option String) {cap : Nat} (hcap : 1 ≤ cap) :
    (ParsedFile.ofTokens tokens ⟨file, cap⟩).errors =
        ((ParsedFile.ofTokens tokens ⟨none, 0⟩).errors.take cap).map (·.labelled file) ∧
      ((ParsedFile.ofTokens tokens ⟨none, 0⟩).errors.length < cap →
        (ParsedFile.ofTokens tokens ⟨file, cap⟩).tree =
          (ParsedFile.ofTokens tokens ⟨none, 0⟩).tree) := by
  have hstart : (ParserState.ofTokens tokens cap).halted = false := by
    simp [ParserState.halted, ParserState.ofTokens]
    omega
  have habreast := ParsedFile.abreast_read hstart
  have hcapped : (ParsedFile.read (.ofTokens tokens cap)).2.cap = cap :=
    (ParsedFile.leads_read _).cap_eq
  change AbreastWith _ (ParsedFile.read (.ofTokens tokens 0)) at habreast
  unfold ParsedFile.ofTokens
  dsimp only
  generalize ParsedFile.read (.ofTokens tokens cap) = r at habreast hcapped
  generalize ParsedFile.read (.ofTokens tokens 0) = r' at habreast
  have hlabel (l : List ParseProblem) :
      (l.map (·.toError none)).map (·.labelled file) = l.map (·.toError file) := by
    rw [List.map_map]
    rfl
  rw [List.length_map, ← List.map_take, hlabel]
  cases habreast with
  | level same notHalted =>
    have hfew : r.2.problems.toList.length ≤ cap := by
      simp only [ParserState.halted, hcapped] at notHalted
      rw [Array.length_toList]
      grind
    rw [same]
    refine ⟨congrArg _ ?_, fun _ => rfl⟩
    exact (List.take_of_length_le hfew).symm
  | cut hcut =>
    have hfull : r.2.problems.toList.length = cap := by
      rw [Array.length_toList, hcut.full, hcapped]
    constructor
    · rw [← hfull, ← List.prefix_iff_eq_take.mp hcut.isPrefix]
    · intro hlt
      exact absurd (hfull ▸ hcut.isPrefix.length_le) (Nat.not_le_of_lt hlt)

/-- The tokens of two broken imports and a stray line, in a file without an agent. -/
def brokenImport : List Token :=
  [.keyword .importWord, .newline, .keyword .importWord, .number, .newline, .dash, .newline,
    .eof].map (.mark · .origin)

/-- All four errors of the file, its first two, and its tree where the cap is not reached. -/
theorem errors_upToCap_brokenImport :
    (ParsedFile.ofTokens brokenImport ⟨none, 0⟩).errors.length = 4 ∧
    (ParsedFile.ofTokens brokenImport ⟨some "a.agent", 2⟩).errors =
      ((ParsedFile.ofTokens brokenImport ⟨none, 0⟩).errors.take 2).map
        (·.labelled (some "a.agent")) ∧
    (ParsedFile.ofTokens brokenImport ⟨some "a.agent", 5⟩).tree =
      (ParsedFile.ofTokens brokenImport ⟨none, 0⟩).tree := by
  have hcount : (ParsedFile.ofTokens brokenImport ⟨none, 0⟩).errors.length = 4 := by decide +kernel
  have htwo := errors_upToCap brokenImport (some "a.agent") (show 1 ≤ 2 by decide)
  have hfive := errors_upToCap brokenImport (some "a.agent") (show 1 ≤ 5 by decide)
  exact ⟨hcount, htwo.1, hfive.2 (by omega)⟩

end AgentScript
