import AgentScript.Proofs.Parsing.Agreement
import AgentScript.Proofs.Parsing.Proceeding

/-!
# Parsers within a line

Names, inline values, options and clauses stay on their line, so they do the same in two
parses of it. Their loops are bounded by the tokens left on the line, which both parses
share.
-/
namespace AgentScript.Parser

variable {α : Type} {K : ParserState → Prop} {b b' : Footing}

theorem agrees_takeString (what : String) : Agrees K b .word (takeString what) := by
  apply (agrees_expect rfl _).bind
  intro t
  exact agrees_pure _

theorem agrees_takeName (what : String) : Agrees K b .word (takeName what) := by
  apply agrees_kind_bind
  intro k
  split_ifs with hk
  · apply (agrees_advance_at (isStructural_of_isWordlike hk)).bind
    intro t
    exact agrees_pure _
  · exact agrees_unexpected what

theorem agrees_takeSectionName (what : String) : Agrees K .word .word (takeSectionName what) := by
  apply agrees_check_bind
  · exact agrees_pure none
  · apply (agrees_takeName what).bind
    intro name
    exact agrees_pure _

theorem agrees_takeOptionalName : Agrees K .word .word takeOptionalName := by
  apply agrees_kind_bind
  intro k
  split_ifs with hk
  · have hword : k.isStructural = false := by
      apply isStructural_of_isWordlike
      cases k <;> simp_all [TokenKind.isWordlike, TokenKind.isLiteralWord]
    apply (agrees_advance_at hword).bind
    intro t
    exact agrees_pure _
  · exact agrees_pure none

theorem agrees_optionally {k : TokenKind} (hk : k.isStructural = false) {p : Parser α}
    (h : Agrees (fun _ => True) .word .word p) : Agrees K .word .word (optionally k p) := by
  apply agrees_eat_bind hk
  · apply h.bind
    intro a
    exact agrees_pure _
  · exact agrees_pure none

theorem agrees_eachAfter {separator : TokenKind} (hk : separator.isStructural = false)
    {item : Parser α} (h : Agrees (fun _ => True) .word .word item) (fuel : Nat) :
    Agrees K .word .word (eachAfter separator item fuel) := by
  induction fuel generalizing K with
  | zero => exact agrees_pure []
  | succ fuel ih =>
    apply agrees_eat_bind hk
    · apply h.bind
      intro a
      apply ih.bind
      intro rest
      exact agrees_pure _
    · exact agrees_pure []

theorem agrees_followers {separator : TokenKind} (hk : separator.isStructural = false)
    {item : Parser α} (h : Agrees (fun _ => True) .word .word item) :
    Agrees K .word .word (followers separator item) := by
  apply agrees_lineLeft.bind
  intro n
  exact agrees_eachAfter hk h n

theorem agrees_separated {separator : TokenKind} (hk : separator.isStructural = false)
    {first item : Parser α} (hfirst : Agrees K b .word first)
    (h : Agrees (fun _ => True) .word .word item) :
    Agrees K b .word (separated separator first item) := by
  apply hfirst.bind
  intro a
  apply (agrees_followers hk h).bind
  intro rest
  exact agrees_pure _

theorem agrees_takeText {k : TokenKind} (hk : k.isStructural = false) :
    Agrees K .word .word (takeText k) := by
  apply agrees_check_bind
  · apply (agrees_advance_at hk).bind
    intro t
    exact agrees_pure _
  · exact agrees_pure none

theorem agrees_tagModifier : Agrees K .word .word tagModifier :=
  agrees_eat_bind rfl (agrees_takeText rfl) (agrees_pure none)

theorem agrees_typeTag : Agrees K b .word typeTag := by
  apply (agrees_expect rfl _).bind
  intro start
  apply (agrees_takeText rfl).bind
  intro name
  apply (agrees_takeText rfl).bind
  intro value
  apply agrees_tagModifier.bind
  intro modifier
  apply (agrees_expect rfl _).bind
  intro _
  apply (agrees_spanFrom _).bind
  intro location
  exact agrees_pure _

theorem agrees_members (fuel : Nat) : Agrees K .word .word (members fuel) := by
  induction fuel generalizing K with
  | zero => exact agrees_pure []
  | succ fuel ih =>
    have hwords {s : ParserState} (h : startsMember s = true) :=
      kinds_of_startsMember (·.isStructural = false) rfl rfl rfl h
    apply agrees_look_bind (fun _ h => (hwords h).1)
    · exact fun s s' hcurrent hahead => startsMember_congr hcurrent (by rw [hahead])
    · apply agrees_advance_bind (P := fun s => s.kind.isStructural = false)
      · exact fun s hs => (hwords hs.1).1
      · exact fun s hs => (hwords hs.1).2
      · intro _
        apply agrees_advance.bind
        intro t
        apply ih.bind
        intro rest
        exact agrees_pure _
    · exact agrees_pure []

theorem agrees_identifier : Agrees (fun s => s.kind.isStructural = false) b .word identifier := by
  apply agrees_advance.bind
  intro first
  apply agrees_lineLeft.bind
  intro n
  apply (agrees_members n).bind
  intro rest
  apply (agrees_spanFrom _).bind
  intro location
  exact agrees_pure _

theorem ItemLoop.agrees {close : TokenKind} {item : Parser α} {run : Nat → Parser (List α)}
    (hrun : ItemLoop close item run) (h : Agrees (fun _ => True) .word .word item) (fuel : Nat) :
    Agrees K .word .word (run fuel) := by
  induction fuel generalizing K with
  | zero =>
    rw [hrun.zero]
    exact agrees_pure []
  | succ fuel ih =>
    rw [hrun.succ]
    apply agrees_check_bind
    · exact agrees_pure []
    · apply (h.restrict fun _ _ => trivial).bind
      intro v
      apply agrees_eat_bind rfl
      · apply ih.bind
        intro rest
        exact agrees_pure _
      · exact agrees_pure _

theorem agrees_inlineList {item : Parser Value} (h : Agrees (fun _ => True) .word .word item)
    (bracket : Bracket) (what : String) :
    Agrees (fun s => s.kind.isStructural = false) b .word (inlineList item bracket what) := by
  apply agrees_advance.bind
  intro opener
  apply agrees_lineLeft.bind
  intro n
  apply ((itemLoop_listItems item _).agrees h _).bind
  intro items
  apply (agrees_expect rfl what).bind
  intro _
  apply (agrees_spanFrom _).bind
  intro location
  exact agrees_pure _

theorem agrees_entryKey : Agrees K b .word entryKey :=
  agrees_check_bind (agrees_takeString _) (agrees_takeName _)

theorem agrees_keyed {key : Parser String} (hkey : Agrees (fun _ => True) b .word key)
    (colon : String) {value : Parser Value} (h : Agrees (fun _ => True) .word .word value) :
    Agrees K b .word (keyed key colon value) := by
  apply agrees_peek_bind
  intro t
  apply (hkey.restrict fun _ _ => trivial).bind
  intro key
  apply (agrees_expect rfl _).bind
  intro _
  apply h.bind
  intro v
  apply (agrees_spanFrom _).bind
  intro location
  exact agrees_pure _

theorem agrees_inlineEntry {item : Parser Value} (h : Agrees (fun _ => True) .word .word item) :
    Agrees K b .word (inlineEntry item) := agrees_keyed agrees_entryKey _ h

theorem agrees_inlineDictionary {item : Parser Value}
    (h : Agrees (fun _ => True) .word .word item) :
    Agrees (fun s => s.kind.isStructural = false) b .word (inlineDictionary item) := by
  apply agrees_advance.bind
  intro opener
  apply agrees_lineLeft.bind
  intro n
  apply ((itemLoop_dictionaryEntries item).agrees (agrees_inlineEntry h) _).bind
  intro entries
  apply (agrees_expect rfl _).bind
  intro _
  apply (agrees_spanFrom _).bind
  intro location
  exact agrees_pure _

theorem agrees_expression : Agrees (fun s => s.kind.isStructural = false) b .word expression := by
  apply agrees_advance.bind
  intro marker
  apply agrees_check_bind
  · apply (agrees_advance_at rfl).bind
    intro code
    exact agrees_pure _
  · exact agrees_pure _

/-- The induction is on the depth; items of a collection are one level deeper. -/
theorem agrees_inlineValueWithin (depth : Nat) : Agrees K b .word (inlineValueWithin depth) := by
  induction depth generalizing K b with
  | zero => exact agrees_unexpected _
  | succ depth ih =>
    apply agrees_kind_bind
    intro k
    have hat {p : Parser Value} (h : Agrees (fun s => s.kind.isStructural = false) b .word p)
        {k : TokenKind} (hk : k.isStructural = false) :
        Agrees (fun s => s.kind = k ∧ K s) b .word p := by
      apply h.restrict
      intro s hs
      rw [hs.1, hk]
    split
    · apply (agrees_advance_at rfl).bind
      intro t
      exact agrees_pure _
    · apply (agrees_advance_at rfl).bind
      intro t
      exact agrees_ofNode _ _
    · apply (agrees_advance_at rfl).bind
      intro t
      split
      · exact agrees_pure _
      · exact agrees_unexpected _
    · apply (agrees_advance_at rfl).bind
      intro t
      exact agrees_pure _
    · apply agrees_typeTag.bind
      intro tag
      exact agrees_pure _
    · exact hat agrees_expression rfl
    · exact hat (agrees_inlineList ih _ _) rfl
    · exact hat (agrees_inlineList ih _ _) rfl
    · exact hat (agrees_inlineDictionary ih) rfl
    · exact hat agrees_identifier rfl
    · exact hat agrees_identifier rfl
    · exact agrees_unexpected _

theorem agrees_inlineValue : Agrees K b .word inlineValue := by
  apply agrees_lineLeft.bind
  intro n
  exact agrees_inlineValueWithin (n + 1)

theorem agrees_contentLines {k : TokenKind} (hk : k.isStructural = false) (fuel : Nat) :
    Agrees K .word .word (contentLines k fuel) := by
  induction fuel generalizing K with
  | zero => exact agrees_pure []
  | succ fuel ih =>
    apply agrees_check_bind
    · apply (agrees_advance_at hk).bind
      intro t
      apply ih.bind
      intro rest
      exact agrees_pure _
    · exact agrees_pure []

theorem agrees_content {k : TokenKind} (hk : k.isStructural = false) :
    Agrees K .word .word (content k) := by
  apply agrees_lineLeft.bind
  intro n
  exact agrees_contentLines hk n

theorem agrees_multilineString (chomping : Chomping) :
    Agrees (fun s => s.kind.isStructural = false) b .word (multilineString chomping) := by
  apply agrees_advance.bind
  intro t
  apply (agrees_content rfl).bind
  intro lines
  apply (agrees_spanFrom _).bind
  intro location
  exact agrees_pure _

theorem agrees_codeBlock : Agrees (fun s => s.kind.isStructural = false) b .word codeBlock := by
  apply agrees_advance.bind
  intro marker
  apply (agrees_content rfl).bind
  intro lines
  apply (agrees_spanFrom _).bind
  intro location
  exact agrees_pure _

theorem agrees_url (what : String) : Agrees K b .word (url what) := by
  apply agrees_kind_bind
  intro k
  split
  · apply agrees_typeTag.bind
    intro tag
    exact agrees_pure _
  · apply (agrees_advance_at rfl).bind
    intro t
    exact agrees_pure _
  · exact agrees_unexpected what

theorem agrees_optionalUrl (what : String) : Agrees K .word .word (optionalUrl what) := by
  apply agrees_kind_bind
  intro k
  split
  · apply (agrees_url what).bind
    intro target
    exact agrees_pure _
  · apply (agrees_url what).bind
    intro target
    exact agrees_pure _
  · exact agrees_pure none

theorem agrees_optionalString (what : String) : Agrees K .word .word (optionalString what) := by
  apply agrees_check_bind
  · apply (agrees_takeString what).bind
    intro text
    exact agrees_pure _
  · exact agrees_pure none

theorem agrees_applyOption (place : OptionPlace) (apply : α → String → Option α) (a : α)
    (t : Token) : Agrees K b b (applyOption place apply a t) := by
  unfold applyOption
  split
  · exact agrees_pure _
  · apply (agrees_report _ _).bind
    intro _
    exact agrees_pure a

theorem agrees_options (place : OptionPlace) (apply : α → String → Option α) (fuel : Nat) (a : α) :
    Agrees K .word .word (options place apply fuel a) := by
  induction fuel generalizing K a with
  | zero => exact agrees_pure a
  | succ fuel ih =>
    apply agrees_check_bind
    · apply (agrees_advance_at rfl).bind
      intro t
      apply (agrees_applyOption place apply a t).bind
      intro c
      exact ih c
    · exact agrees_pure a

theorem agrees_cardOptions (fuel : Nat) (c : CardParts) :
    Agrees K .word .word (cardOptions fuel c) := by
  induction fuel generalizing K c with
  | zero => exact agrees_pure c
  | succ fuel ih =>
    apply agrees_kind_bind
    intro k
    split
    · apply (agrees_advance_at rfl).bind
      intro t
      apply (agrees_applyOption _ _ c t).bind
      intro c
      exact ih c
    · apply (agrees_url _).bind
      intro image
      exact ih _
    · apply (agrees_url _).bind
      intro image
      exact ih _
    · exact agrees_pure c

theorem agrees_time (what : String) : Agrees K b .word (time what) :=
  agrees_check_bind agrees_typeTag (agrees_unexpected what)

theorem agrees_suggestionAction (form : SuggestionForm) :
    Agrees K .word .word (suggestionAction form) := by
  cases form with
  | reply =>
    apply (agrees_optionalString _).bind
    intro postback
    exact agrees_pure _
  | dial =>
    apply (agrees_url _).bind
    intro number
    exact agrees_pure _
  | openUrl =>
    apply (agrees_url _).bind
    intro target
    apply agrees_lineLeft.bind
    intro n
    apply (agrees_options _ _ n _).bind
    intro o
    exact agrees_pure _
  | shareLocation => exact agrees_pure _
  | viewLocation =>
    apply (agrees_optionalUrl _).bind
    intro query
    exact agrees_pure _
  | saveEvent =>
    apply (agrees_takeString _).bind
    intro title
    apply (agrees_time _).bind
    intro startTime
    apply (agrees_time _).bind
    intro endTime
    apply (agrees_optionalString _).bind
    intro description
    exact agrees_pure _

theorem isStructural_of_traffic? {k : TokenKind} {t : TrafficType} (h : k.traffic? = some t) :
    k.isStructural = false := by
  unfold TokenKind.traffic? at h
  split at h
  · rfl
  · exact nomatch h

theorem agrees_takeTraffic : Agrees K b b takeTraffic := by
  apply agrees_kind_bind
  intro k
  split
  · next t ht =>
    have hsome : Agrees (fun s => s.kind = k ∧ K s) b .word
        (advance >>= fun _ => (pure (some t) : Parser (Option TrafficType))) := by
      apply (agrees_advance_at (isStructural_of_traffic? ht)).bind
      intro _
      exact agrees_pure _
    exact hsome.loosen (Footing.le_refl b) (Footing.le_word b)
  · exact agrees_pure none

theorem agrees_parameter : Agrees K b .word parameter :=
  agrees_keyed (agrees_takeName _) _ agrees_inlineValue

theorem agrees_optionalWith : Agrees K .word .word optionalWith := by
  apply agrees_check_bind
  · apply (agrees_advance_at rfl).bind
    intro t
    apply (agrees_separated rfl agrees_parameter agrees_parameter).bind
    intro parameters
    apply (agrees_spanFrom _).bind
    intro location
    exact agrees_pure _
  · exact agrees_pure none

theorem agrees_operand : Agrees K b .word operand := by
  apply agrees_peek_bind
  intro t
  split
  · next o ho =>
    have hadvance : Agrees (fun s => s.current = t ∧ K s) b .word advance := by
      apply agrees_advance.restrict
      intro s hs
      rw [ParserState.kind, hs.1]
      exact isStructural_of_ofToken? ho
    apply hadvance.bind
    intro _
    exact agrees_pure o
  · exact agrees_unexpected _

theorem agrees_operandChain : Agrees K b .word operandChain := by
  apply (agrees_separated rfl agrees_operand agrees_operand).bind
  intro operands
  split_ifs
  · exact agrees_unexpected _
  · exact agrees_pure operands

end AgentScript.Parser
