import AgentScript.Proofs.Reflow.Values

/-!
# Sections in a text laid out anew

Flows, messages and settings are lines with blocks below them. What their lines begin with is
told from a word and the kinds of the tokens behind it, so both texts take the same line for the
same.
-/
namespace AgentScript.Parser

open ParserState

variable {α β : Type} {Moved : Position → Position → Prop} {K : ParserState → Prop} {what : String}

theorem reflows_url : StaysInside Moved K (url what) := by
  refine .kind rfl fun k => ?_
  split
  · exact reflows_typeTag.bind fun _ => .pure _
  · exact (Reflows.advance_at rfl).bind fun _ => .pure _
  · exact .unexpected what

theorem reflows_optionalUrl : StaysInside Moved K (optionalUrl what) := by
  refine .kind rfl fun k => ?_
  split
  · exact reflows_url.bind fun _ => .pure _
  · exact reflows_url.bind fun _ => .pure _
  · exact .pure none

theorem reflows_optionalString : StaysInside Moved K (optionalString what) :=
  .check rfl (reflows_takeString.bind fun _ => .pure _) (.pure none)

theorem reflows_applyOption (place : OptionPlace) (apply : α → String → Option α) (a : α)
    {t : Token} (h : Moved t.start t.start) :
    StaysInside Moved K (applyOption place apply a t) := by
  unfold applyOption
  split
  · exact .pure _
  · exact (Reflows.report _ h).bind fun _ => .pure a

theorem reflows_options (place : OptionPlace) (apply : α → String → Option α) (fuel : Nat) (a : α) :
    StaysInside Moved K (options place apply fuel a) := by
  induction fuel generalizing K a with
  | zero => exact .pure a
  | succ fuel ih =>
    refine .check rfl (.advance_placed rfl fun t ht => ?_) (.pure a)
    exact (reflows_applyOption place apply a ht).bind fun c => ih c

theorem reflows_cardOptions (fuel : Nat) (c : CardParts) :
    StaysInside Moved K (cardOptions fuel c) := by
  induction fuel generalizing K c with
  | zero => exact .pure c
  | succ fuel ih =>
    refine .kind rfl fun k => ?_
    split
    · refine .advance_placed rfl fun t ht => ?_
      exact (reflows_applyOption _ _ c ht).bind fun c => ih c
    · exact reflows_url.bind fun _ => ih _
    · exact reflows_url.bind fun _ => ih _
    · exact .pure c

theorem reflows_time : StaysInside Moved K (time what) :=
  .check rfl reflows_typeTag (.unexpected what)

theorem reflows_suggestionAction (form : SuggestionForm) :
    StaysInside Moved K (suggestionAction form) := by
  cases form with
  | reply => exact reflows_optionalString.bind fun _ => .pure _
  | dial => exact reflows_url.bind fun _ => .pure _
  | openUrl =>
    refine reflows_url.bind fun target => Reflows.lineLeft.bind fun n => ?_
    exact (reflows_options _ _ n _).bind fun _ => .pure _
  | shareLocation => exact .pure _
  | viewLocation => exact reflows_optionalUrl.bind fun _ => .pure _
  | saveEvent =>
    refine reflows_takeString.bind fun title => reflows_time.bind fun startTime => ?_
    refine reflows_time.bind fun endTime => reflows_optionalString.bind fun description => ?_
    exact .pure _

theorem staysInLine_of_traffic? {k : TokenKind} {t : TrafficType} (h : k.traffic? = some t) :
    k.staysInLine = true := by
  unfold TokenKind.traffic? at h
  split at h
  · rfl
  · exact nomatch h

theorem reflows_takeTraffic : StaysInside Moved K takeTraffic := by
  refine .kind rfl fun k => ?_
  split
  · next t ht => exact (Reflows.advance_at (staysInLine_of_traffic? ht)).bind fun _ => .pure _
  · exact .pure none

theorem reflows_whenClause : whenClause.ReflowsLine Moved K := by
  refine .expect_placed rfl _ fun start hstart => reflows_inlineValue.bind fun condition => ?_
  refine (reflows_followers reflows_operand rfl).bind fun operands => ?_
  refine reflows_optionalWith.bind fun withClause =>
    .spanFrom_placed hstart fun location place => ?_
  exact (Reflows.ofNode _ place).bind fun clause => .finish clause

theorem reflows_flowRule : flowRule.ReflowsLine Moved K := by
  refine .peek "flow operand" (fun t _ hstart => ?_) fun t s _ hs =>
    needsWord_operandChain.bind _ s hs
  refine reflows_operandChain.bind fun operands => .spanFrom_placed hstart fun header place => ?_
  refine reflows_optionalWith.bind fun withClause => ?_
  refine (Reflows.block (.item reflows_whenClause) []).bind fun whenClauses => ?_
  exact (Reflows.spanFrom _).bind fun location => .ofNode _ place

theorem reflows_flowSection (hK : ∀ s, K s → s.kind.staysInLine = true) :
    flowSection.ReflowsLine Moved K := by
  refine (Reflows.advance hK).bind fun start => reflows_takeName.bind fun name => ?_
  refine (Reflows.expect rfl _).bind fun _ => ?_
  exact (Reflows.block (.item reflows_flowRule) []).bind fun _ => (Reflows.spanFrom _).bind fun _ =>
    .pure _

/-- The word is no blank and no marker. -/
def IsKey (word : String) : Prop :=
  ∃ c ∈ word.toList.head?, CharClass.isAlphabetic c = true ∧ CharClass.isWhitespace c = false

theorem IsKey.startsWith_eq {word : String} (h : IsKey word) (d : Nat) (s s' : ParserState)
    (hs : On Moved .inside K d s s') : startsWith word s = startsWith word s' := by
  obtain ⟨c, hc, -, hspace⟩ := h
  obtain ⟨e, l, l', -, -, htokens, -⟩ := hs.1.exists_tokens
  have hblank {s : ParserState} (h : ∀ c ∈ s.current.text.toList, CharClass.isWhitespace c = true) :
      startsWith word s = false := by
    have htext : s.current.text ≠ word := by
      rintro rfl
      exact nomatch hspace.symm.trans (h c (List.mem_of_mem_head? hc))
    unfold startsWith
    rw [beq_eq_false_iff_ne.mpr htext, Bool.false_and]
  rcases htokens.text_cases rfl with ⟨heq, hstruct, -⟩ | ⟨hblank', hblank''⟩
  · have hahead : (s.ahead 1).kind = (s'.ahead 1).kind := by
      rw [← kind_advance, ← kind_advance]
      exact (hs.1.advance_word hstruct).kind_eq (Stance.endsLine_pass _ _)
    unfold startsWith
    rw [heq, hahead]
  · rw [hblank hblank', hblank hblank'']

theorem IsKey.staysInLine {word : String} (h : IsKey word) (d : Nat) (s s' : ParserState)
    (hs : On Moved .inside (fun s => startsWith word s = true ∧ K s) d s s') :
    s.kind.staysInLine = true ∧ (s.ahead 1).kind = .colon := by
  obtain ⟨c, hc, hletter, hspace⟩ := h
  obtain ⟨hs, hstarts, -⟩ := hs
  obtain ⟨e, l, l', -, -, htokens, -⟩ := hs.exists_tokens
  have htext : s.current.text = word := by
    unfold startsWith at hstarts
    simp_all
  refine ⟨?_, colon_of_startsWith hstarts⟩
  rcases htokens.text_cases rfl with ⟨-, hstruct, hmark⟩ | ⟨hblank, -⟩
  · have hnone : s.current.kind.captures? = none := by
      by_contra hcaptures
      rw [Token.Unnamed, htext] at hmark
      cases hletter.symm.trans (hmark hcaptures c hc)
    change s.current.kind.staysInLine = true
    change s.current.kind.isStructural = false at hstruct
    simp [TokenKind.staysInLine, hstruct, hnone]
  · rw [htext] at hblank
    cases hspace.symm.trans (hblank c (List.mem_of_mem_head? hc))

theorem startsEntry_of_on (d : Nat) (s s' : ParserState) (hs : On Moved .inside K d s s') :
    startsEntry s = startsEntry s' :=
  look_eq (fun _ => isStructural_of_startsEntry) (fun s s' h h' => by
    unfold startsEntry ParserState.kind
    rw [h, h']) d s s' hs

theorem staysInLine_of_startsEntry {s : ParserState} (h : startsEntry s = true) :
    s.kind.staysInLine = true := by
  unfold startsEntry at h
  rw [Bool.and_eq_true] at h
  exact staysInLine_of_isWordlike h.1

theorem reflows_suggestion : suggestion.ReflowsLine Moved K := by
  refine .kind rfl fun k => ?_
  split
  · refine (Reflows.advance_at rfl).bind fun t => reflows_takeString.bind fun text => ?_
    refine (reflows_suggestionAction _).bind fun action =>
      (Reflows.spanFrom _).bind fun location => ?_
    exact .finish _
  · exact .failHere _ fun s hs => by rw [hs.1]; rfl
  · exact .unexpected _

theorem reflows_suggestionBlock : suggestionBlock.ReflowsLine Moved K :=
  .block (.item reflows_suggestion) []

theorem isKey_description : IsKey "description" := ⟨'d', rfl, by decide, by decide⟩

theorem isKey_suggestions : IsKey "suggestions" := ⟨'s', rfl, by decide, by decide⟩

theorem reflows_cardLine : cardLine.Reflows Moved K := by
  refine .choose isKey_description.startsWith_eq (.knowing isKey_description.staysInLine ?_) ?_
  · refine .thenFinish fun c => .advance_colon (fun s hs => hs.1) (fun s hs => hs.2) ?_
    exact reflows_takeString.somewhere.bind fun _ => .ret _
  · exact .whole fun c => reflows_suggestion.bind fun _ => .pure _

theorem reflows_richCard (traffic : Option TrafficType) :
    (richCard traffic).ReflowsLine Moved K := by
  refine (Reflows.expect rfl _).bind fun start => reflows_takeOptionalName.bind fun name => ?_
  refine reflows_takeString.bind fun title => Reflows.lineLeft.bind fun n => ?_
  refine (reflows_cardOptions n _).bind fun parts =>
    (Reflows.block reflows_cardLine parts).bind fun _ => ?_
  exact (Reflows.spanFrom _).bind fun _ => .pure _

section

variable (hK : ∀ s, K s → s.kind.staysInLine = true) (traffic : Option TrafficType)

include hK

theorem reflows_textMessage : (textMessage traffic).ReflowsLine Moved K := by
  refine (Reflows.advance hK).bind fun start => reflows_takeOptionalName.bind fun name => ?_
  refine reflows_takeString.bind fun text => reflows_suggestionBlock.bind fun suggestions => ?_
  exact (Reflows.spanFrom _).bind fun _ => .pure _

omit hK in
theorem reflows_carouselLine : carouselLine.Reflows Moved K := by
  refine .whole ?_
  rintro ⟨cards, suggestions⟩
  refine .check rfl ?_ ?_
  · exact (reflows_richCard none).bind fun _ => .pure _
  · exact reflows_suggestion.bind fun _ => .pure _

theorem reflows_carousel : (carousel traffic).ReflowsLine Moved K := by
  refine (Reflows.advance hK).bind fun start => reflows_takeOptionalName.bind fun name => ?_
  refine Reflows.lineLeft.bind fun n => (reflows_options _ _ n _).bind fun width => ?_
  refine (Reflows.block reflows_carouselLine _).bind ?_
  rintro ⟨cards, suggestions⟩
  exact (Reflows.spanFrom _).bind fun _ => .pure _

theorem reflows_rbmFile : (rbmFile traffic).ReflowsLine Moved K := by
  refine (Reflows.advance hK).bind fun start => reflows_takeOptionalName.bind fun name => ?_
  refine reflows_url.bind fun fileUrl => reflows_optionalUrl.bind fun thumbnailUrl => ?_
  exact reflows_suggestionBlock.bind fun _ => (Reflows.spanFrom _).bind fun _ => .pure _

theorem reflows_file : (file traffic).ReflowsLine Moved K := by
  refine (Reflows.advance hK).bind fun start => reflows_takeOptionalName.bind fun name => ?_
  refine reflows_url.bind fun target => reflows_suggestionBlock.bind fun suggestions => ?_
  exact (Reflows.spanFrom _).bind fun _ => .pure _

theorem reflows_shortForm (form : MessageForm) : (shortForm traffic form).ReflowsLine Moved K := by
  cases form with
  | text => exact reflows_textMessage hK traffic
  | richCard => exact (reflows_richCard traffic).bind fun _ => .pure _
  | carousel => exact reflows_carousel hK traffic
  | rbmFile => exact reflows_rbmFile hK traffic
  | file => exact reflows_file hK traffic

end

theorem reflows_attributeEntry : attributeEntry.ReflowsLine Moved K :=
  reflows_keyedLine reflows_value _ _

theorem reflows_definitionLine : definitionLine.Reflows Moved K := by
  refine .choose ?_ ?_ (.choose isKey_suggestions.startsWith_eq
    (.knowing isKey_suggestions.staysInLine ?_) ?_)
  · refine look_eq (fun s hs => ?_) fun s s' hcurrent hahead => ?_
    · generalize s.kind = k at hs ⊢
      cases k <;> simp_all [TokenKind.isStructural]
    · rw [ParserState.kind, ParserState.kind, hcurrent, hahead]
  · refine .whole ?_
    rintro ⟨attributes, suggestions⟩
    exact reflows_suggestion.bind fun _ => .pure _
  · refine .whole ?_
    rintro ⟨attributes, suggestions⟩
    refine .advance_colon (fun s hs => hs.1) (fun s hs => hs.2) ?_
    exact (Reflows.block (.item reflows_suggestion) _).bind fun _ => .pure _
  · refine .whole ?_
    rintro ⟨attributes, suggestions⟩
    exact reflows_attributeEntry.bind fun _ => .pure _

theorem reflows_messageDefinition (traffic : Option TrafficType) :
    (messageDefinition traffic).ReflowsLine Moved K := by
  refine .peek "message name" (fun t _ _ => ?_) fun t s _ hs => needsWord_takeName.bind _ s hs
  refine reflows_takeName.bind fun name => (Reflows.expect rfl _).bind fun _ => ?_
  refine (Reflows.block reflows_definitionLine _).bind ?_
  rintro ⟨attributes, suggestions⟩
  exact (Reflows.spanFrom _).bind fun _ => .pure _

theorem reflows_message : message.ReflowsLine Moved K := by
  refine reflows_takeTraffic.bind fun traffic => .kind rfl fun k => ?_
  split
  · exact reflows_shortForm (staysInLine_at rfl) traffic _
  · exact (Reflows.advance_at rfl).bind fun _ => reflows_messageDefinition traffic
  · exact .failHere _ fun s hs => by rw [hs.1]; rfl
  · refine .look startsEntry_of_on (reflows_messageDefinition traffic)
      (.ite (fun hk => ?_) fun _ => ?_)
    · exact .failHere _ fun s hs => by rw [hs.1, eq_of_beq hk]; rfl
    · exact .unexpected _

theorem reflows_messageSection (hK : ∀ s, K s → s.kind.staysInLine = true) :
    messageSection.ReflowsLine Moved K := by
  refine (Reflows.advance hK).bind fun start => reflows_takeSectionName.bind fun name => ?_
  refine (Reflows.expect rfl _).bind fun _ => ?_
  exact (Reflows.block (.item reflows_message) []).bind fun _ => (Reflows.spanFrom _).bind fun _ =>
    .pure _

theorem reflows_importLine (hK : ∀ s, K s → s.kind.staysInLine = true) :
    importLine.ReflowsLine Moved K := by
  refine (Reflows.advance hK).bind fun start => ?_
  refine (reflows_separated reflows_takeName rfl reflows_takeName).bind fun path => ?_
  refine (reflows_optionally reflows_takeName rfl).bind fun localName => ?_
  refine (reflows_optionally reflows_takeString rfl).bind fun source => ?_
  exact (Reflows.spanFrom _).bind fun location => .finish _

theorem reflows_mappedRow : mappedRow.ReflowsLine Moved K := by
  refine .peek "value" (fun t _ _ => ?_) fun t s _ hs => (needsWord_inlineValue.bind _).bind _ s hs
  refine (reflows_separated reflows_inlineValue rfl reflows_inlineValue).bind fun values => ?_
  exact (Reflows.spanFrom _).bind fun location => .finish _

theorem reflows_mappedType : mappedType.ReflowsLine Moved K := by
  refine .peek "mapped type name" (fun t _ _ => ?_) fun t s _ hs => needsWord_takeName.bind _ s hs
  refine reflows_takeName.bind fun name => (Reflows.expect rfl _).bind fun _ => ?_
  refine (Reflows.expect rfl _).bind fun _ => (Reflows.expect rfl _).bind fun _ => ?_
  refine (reflows_separated reflows_takeName rfl reflows_takeName).bind fun schema => ?_
  refine (Reflows.expect rfl _).bind fun _ => (Reflows.expect rfl _).bind fun _ => ?_
  exact (Reflows.block (.item reflows_mappedRow) []).bind fun _ =>
    (Reflows.spanFrom _).bind fun _ =>
    .pure _

/-- The third token is looked at only where the first two are words. -/
theorem startsMappedType_of_on (d : Nat) (s s' : ParserState) (hs : On Moved .inside K d s s') :
    startsMappedType s = startsMappedType s' := by
  have hkind := hs.1.kind_eq rfl
  unfold startsMappedType
  cases hstruct : s.kind.isStructural with
  | true =>
    have hnone {k : TokenKind} (hk : k.isStructural = true) : k.isWordlike = false :=
      Bool.eq_false_iff.mpr fun h => by simp [isStructural_of_isWordlike h] at hk
    rw [hnone hstruct, hnone (hkind ▸ hstruct)]
    rfl
  | false =>
    have hnext := hs.1.advance_word hstruct
    have hahead : (s.ahead 1).kind = (s'.ahead 1).kind := by
      rw [← kind_advance, ← kind_advance]
      exact hnext.kind_eq (Stance.endsLine_pass _ _)
    rw [hkind, hahead]
    by_cases hlist : (s'.ahead 1).kind = .keyword .listWord
    · have hword : s.advance.kind.isStructural = false := by
        rw [kind_advance, hahead, hlist]
        rfl
      have hthird := (hnext.advance_word hword).kind_eq (Stance.endsLine_pass _ _)
      rw [kind_advance, kind_advance, ahead_advance, ahead_advance] at hthird
      rw [hthird]
    · rw [beq_eq_false_iff_ne.mpr hlist, Bool.and_false, Bool.false_and, Bool.false_and]

theorem reflows_settingsLine : settingsLine.Reflows Moved K := by
  refine .choose startsMappedType_of_on ?_ ?_
  · refine .whole ?_
    rintro ⟨attributes, mappedTypes⟩
    exact reflows_mappedType.bind fun _ => .pure _
  · refine .whole ?_
    rintro ⟨attributes, mappedTypes⟩
    exact reflows_attributeEntry.bind fun _ => .pure _

theorem reflows_settingsSection (hK : ∀ s, K s → s.kind.staysInLine = true) :
    settingsSection.ReflowsLine Moved K := by
  refine (Reflows.advance hK).bind fun start => reflows_takeSectionName.bind fun name => ?_
  refine (Reflows.expect rfl _).bind fun _ => ?_
  refine (Reflows.block reflows_settingsLine _).bind ?_
  rintro ⟨attributes, mappedTypes⟩
  exact (Reflows.spanFrom _).bind fun _ => .pure _

theorem reflows_fillOnce {st : Stance} (old : Option α) (new : α) (cause : ParseCause)
    {location : Location} (h : Moved location.start location.start) :
    Reflows Moved (On Moved st K) (On Moved st fun _ => True)
      (fillOnce old new cause location) := by
  cases old with
  | none => exact .pure _
  | some a => exact (Reflows.report _ h).bind fun _ => .pure _

theorem reflows_agentAttribute (p : AgentParts) :
    (agentAttribute p).ReflowsLine Moved fun s => startsEntry s = true ∧ K s := by
  rw [agentAttribute_eq]
  refine .peek_word (fun s hs => isStructural_of_startsEntry hs.1) fun t place => ?_
  refine .ite (fun _ => .fail _ place) fun _ =>
    Reflows.bind (Q := On Moved .between fun _ => True) ?_ fun text => ?_
  · refine .advance_colon (fun s hs => staysInLine_of_startsEntry hs.2.1)
      (fun s hs => colon_of_startsEntry hs.2.1) ?_
    exact reflows_takeString.bind fun text => .finish text
  · unfold fillText
    split_ifs
    · exact (reflows_fillOnce _ _ _ place).bind fun _ => .pure _
    · exact (reflows_fillOnce _ _ _ place).bind fun _ => .pure _

theorem reflows_agentPart (p : AgentParts) : (agentPart p).ReflowsLine Moved K := by
  have hat {t : Token} {k : TokenKind} (ht : t.kind = k) (hk : k.staysInLine = true)
      (s : ParserState) (hs : s.current = t ∧ K s) : s.kind.staysInLine = true := by
    rw [ParserState.kind, hs.1, ht, hk]
  refine .peek "agent attribute or section" (fun t _ place => ?_) fun t s ht hs => ?_
  · split
    · next ht =>
      refine (reflows_settingsSection (hat ht rfl)).bind fun section' => ?_
      exact (reflows_fillOnce _ _ _ place).bind fun _ => .pure _
    · next ht =>
      refine (reflows_settingsSection (hat ht rfl)).bind fun section' => ?_
      exact (reflows_fillOnce _ _ _ place).bind fun _ => .pure _
    · next ht => exact (reflows_flowSection (hat ht rfl)).bind fun _ => .pure _
    · next ht =>
      refine (reflows_messageSection (hat ht rfl)).bind fun messages => ?_
      exact (reflows_fillOnce _ _ _ place).bind fun _ => .pure _
    · exact .fail _ place
    · exact .look startsEntry_of_on (reflows_agentAttribute p) (.unexpected _)
  · have hentry : startsEntry s = false := Bool.eq_false_iff.mpr fun h => by
      simp [isStructural_of_startsEntry h] at hs
    obtain ⟨kind, text, start, stop⟩ := t
    change kind.isStructural = true at ht
    have hdefault : (look startsEntry >>= fun c => if c = true then agentAttribute p
        else unexpected "agent attribute or section") s =
          unexpected "agent attribute or section" s := by
      rw [look_bind_apply, if_neg (by simp [hentry])]
    cases kind <;> first | exact hdefault | exact nomatch ht

theorem reflows_agent (hK : ∀ s, K s → s.kind.staysInLine = true) : agent.ReflowsLine Moved K := by
  refine (Reflows.advance hK).bind fun start => reflows_takeName.bind fun name => ?_
  refine (Reflows.expect rfl _).bind fun _ => ?_
  exact (Reflows.block (.whole reflows_agentPart) _).bind fun _ =>
    (Reflows.spanFrom _).bind fun _ =>
    .pure _

end AgentScript.Parser
