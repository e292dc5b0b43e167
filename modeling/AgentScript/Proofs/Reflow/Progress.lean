import AgentScript.Proofs.Parsing.FileLines

/-!
# Lines that take a token

A line that has been read has taken a token, and so has a recovery from a failed one that began
with a word or a block. A loop over lines therefore never has to pass a token for lack of
progress.
-/
namespace AgentScript

open ParserState

variable {α β : Type} {s t : ParserState}

namespace Parser

/-- Before the end of input the parser takes a token where it succeeds. -/
class Consumes (p : Parser α) : Prop where
  lt : ∀ {s t : ParserState} {a : α}, s.atEnd = false → p s = .ok a t → t.remaining < s.remaining

theorem Consumes.bind {p : Parser α} {f : α → Parser β} [h : Consumes p] [∀ a, Proceeds (f a)] :
    Consumes (p >>= f) := by
  constructor
  intro s u b hend heq
  obtain ⟨a, t, hp, hf⟩ := bind_eq_ok.mp heq
  exact Nat.lt_of_le_of_lt ((f a).leads_of_ok hf).remaining_le (h.lt hend hp)

/-- A look before the parser takes nothing. -/
theorem Consumes.after {p : Parser α} {f : α → Parser β} (hp : ∀ s, ∃ a, p s = .ok a s)
    (h : ∀ a, Consumes (f a)) : Consumes (p >>= f) := by
  constructor
  intro s u b hend heq
  obtain ⟨a, ha⟩ := hp s
  exact (h a).lt hend ((bind_of_ok f ha).symm.trans heq)

/-- What comes before the parser may take tokens, or leave the next one where it is. -/
theorem Consumes.behind {p : Parser α} {f : α → Parser β} [Proceeds p]
    (hf : ∀ a, Proceeds (f a)) (h : ∀ a, Consumes (f a)) : Consumes (p >>= f) := by
  constructor
  intro s u b hend heq
  obtain ⟨a, t, hp, hf⟩ := bind_eq_ok.mp heq
  have hleads := p.leads_of_ok hp
  rcases Nat.lt_or_eq_of_le hleads.remaining_le with hlt | hsame
  · exact Nat.lt_of_le_of_lt ((f a).leads_of_ok hf).remaining_le hlt
  · have hrest := hleads.rest_eq_of_remaining_eq hsame
    have hend' : t.atEnd = false := by
      rw [atEnd, hrest, ParserState.kind, hleads.current_eq hrest]
      exact hend
    exact hsame ▸ (h a).lt hend' hf

instance consumes_advance : Consumes advance := by
  constructor
  rintro s _ _ hend ⟨⟩
  exact advance_remaining_lt hend

instance consumes_failHere (cause : Token → ParseCause) : Consumes (failHere cause : Parser α) :=
  ⟨fun _ h => nomatch h⟩

instance consumes_fail (cause : ParseCause) (location : Location) :
    Consumes (fail cause location : Parser α) := ⟨fun _ h => nomatch h⟩

instance consumes_unexpected (what : String) : Consumes (unexpected what : Parser α) :=
  consumes_failHere _

instance consumes_ite {c : Prop} [Decidable c] {p q : Parser α} [h : Consumes p] [h' : Consumes q] :
    Consumes (if c then p else q) := by
  split_ifs
  · exact h
  · exact h'

theorem Consumes.kind {f : TokenKind → Parser β} (h : ∀ k, Consumes (f k)) :
    Consumes (kind >>= f) := .after (fun s => ⟨s.kind, rfl⟩) h

theorem Consumes.peek {f : Token → Parser β} (h : ∀ t, Consumes (f t)) : Consumes (peek >>= f) :=
  .after (fun s => ⟨s.current, rfl⟩) h

theorem Consumes.look {γ : Type} {g : ParserState → γ} {f : γ → Parser β}
    (h : ∀ c, Consumes (f c)) : Consumes (look g >>= f) := .after (fun s => ⟨g s, rfl⟩) h

instance consumes_expect (k : TokenKind) (what : String) : Consumes (expect k what) :=
  .after (fun s => ⟨s.kind == k, rfl⟩) fun _ => inferInstance

instance consumes_takeString (what : String) : Consumes (takeString what) := .bind

instance consumes_takeName (what : String) : Consumes (takeName what) := by
  refine .kind fun k => ?_
  have : Consumes (advance >>= fun t => (pure t.text : Parser String)) := .bind
  infer_instance

instance consumes_separated (separator : TokenKind) {first item : Parser α} [Consumes first]
    [Proceeds item] : Consumes (separated separator first item) := .bind

instance consumes_keyed {key : Parser String} [Consumes key] (colon : String) {v : Parser Value}
    [Proceeds v] : Consumes (keyed key colon v) := .peek fun _ => .bind

instance consumes_typeTag : Consumes typeTag := .bind

instance consumes_url (what : String) : Consumes (url what) := by
  refine .kind fun k => ?_
  split
  · exact .bind
  · exact .bind
  · infer_instance

instance consumes_identifier : Consumes identifier := .bind

instance consumes_inlineList {item : Parser Value} [Proceeds item] (bracket : Bracket)
    (what : String) : Consumes (inlineList item bracket what) := .bind

instance consumes_inlineDictionary {item : Parser Value} [Proceeds item] :
    Consumes (inlineDictionary item) := .bind

instance consumes_expression : Consumes expression := .bind

instance consumes_inlineValueWithin (depth : Nat) : Consumes (inlineValueWithin depth) := by
  cases depth with
  | zero => exact consumes_unexpected _
  | succ depth =>
    refine .kind fun k => ?_
    split
    case h_3 =>
      refine @Consumes.bind _ _ _ _ _ fun t => ?_
      split <;> infer_instance
    case h_12 => exact consumes_unexpected _
    case h_6 => exact consumes_expression
    case h_7 => exact consumes_inlineList _ _
    case h_8 => exact consumes_inlineList _ _
    case h_9 => exact consumes_inlineDictionary
    case h_10 => exact consumes_identifier
    case h_11 => exact consumes_identifier
    all_goals exact .bind

instance consumes_inlineValue : Consumes inlineValue := .look fun _ => inferInstance

instance consumes_operand : Consumes operand := by
  refine .peek fun t => ?_
  split
  · exact .bind
  · infer_instance

instance consumes_operandChain : Consumes operandChain := .bind

end Parser

namespace LineParser

/-- Before the end of input the line takes a token where it does not fail. -/
class Consumes (line : LineParser α) : Prop where
  lt : ∀ (gathered : α) (s : ParserState), s.atEnd = false →
    (line gathered s).problem = none → (line gathered s).state.remaining < s.remaining

theorem consumes_whole {p : α → Parser α} (h : ∀ a, Parser.Consumes (p a)) :
    (whole p).Consumes := by
  constructor
  intro gathered s hend hnone
  unfold whole at hnone ⊢
  cases heq : p gathered s with
  | ok a t => exact (h gathered).lt hend heq
  | error e t => simp [heq] at hnone

instance consumes_item {p : Parser α} [Parser.Consumes p] : (item p).Consumes :=
  consumes_whole fun _ => .bind

instance consumes_thenFinish {line : LineParser α} [h : line.Consumes] :
    (thenFinish line).Consumes := by
  constructor
  intro gathered s hend hnone
  have hline := h.lt gathered s hend
  unfold thenFinish at hnone ⊢
  dsimp only at hnone ⊢
  cases hproblem : (line gathered s).problem with
  | some p => simp [hproblem] at hnone
  | none =>
    simp only [hproblem] at hnone ⊢
    cases heq : Parser.finishLine (line gathered s).state with
    | error e t => simp [heq] at hnone
    | ok a t =>
      exact Nat.lt_of_le_of_lt (Parser.finishLine.leads_of_ok heq).remaining_le (hline hproblem)

theorem consumes_choose {line line' : LineParser α} {g : ParserState → Bool} (h : line.Consumes)
    (h' : line'.Consumes) :
    LineParser.Consumes fun a s => if g s = true then line a s else line' a s := by
  constructor
  intro gathered s hend hnone
  split_ifs at hnone ⊢
  · exact h.lt gathered s hend hnone
  · exact h'.lt gathered s hend hnone

instance consumes_listLine {v : Parser Value} [Parser.Proceeds v] : (Parser.listLine v).Consumes :=
  have : Parser.Consumes (Parser.expect .dash "'-' list item" >>= fun _ => v) := .bind
  consumes_thenFinish

instance consumes_keyedLine (key colon : String) {v : Parser Value} [Parser.Proceeds v] :
    Parser.Consumes (Parser.keyedLine key colon v) := .bind

instance consumes_dictionaryLine {v : Parser Value} [Parser.Proceeds v] :
    (Parser.dictionaryLine v).Consumes := consumes_item

end LineParser

namespace Parser

instance consumes_whenClause : Consumes whenClause := .bind

instance consumes_flowRule : Consumes flowRule := .peek fun _ => .bind

instance consumes_flowSection : Consumes flowSection := .bind

instance consumes_suggestion : Consumes suggestion := by
  refine .kind fun k => ?_
  split
  · exact .bind
  · infer_instance
  · infer_instance

instance consumes_richCard (traffic : Option TrafficType) : Consumes (richCard traffic) := .bind

instance consumes_attributeEntry : Consumes attributeEntry := LineParser.consumes_keyedLine _ _

instance consumes_messageDefinition (traffic : Option TrafficType) :
    Consumes (messageDefinition traffic) := .peek fun _ => .bind

instance consumes_shortForm (traffic : Option TrafficType) (form : MessageForm) :
    Consumes (shortForm traffic form) := by
  cases form with
  | text => exact .bind
  | richCard => exact .bind
  | carousel => exact .bind
  | rbmFile => exact .bind
  | file => exact .bind

instance consumes_message : Consumes message := by
  refine .behind (fun traffic => .bind fun k => ?_) fun traffic => .kind fun k => ?_
  · split <;> infer_instance
  · split
    · infer_instance
    · exact .bind
    · infer_instance
    · exact .look fun _ => inferInstance

instance consumes_messageSection : Consumes messageSection := .bind

instance consumes_importLine : Consumes importLine := .bind

instance consumes_mappedRow : Consumes mappedRow := .peek fun _ => .bind

instance consumes_mappedType : Consumes mappedType := by
  refine .peek fun t => @Consumes.bind _ _ _ _ _ fun name => ?_
  exact .bind fun _ => .bind fun _ => .bind fun _ => inferInstance

instance consumes_settingsSection : Consumes settingsSection := .bind

instance consumes_agentAttribute (p : AgentParts) : Consumes (agentAttribute p) := by
  rw [agentAttribute_eq]
  refine .peek fun t => ?_
  have hattribute : Consumes (attributeText t.text) := .bind
  have hfill (text : String) : Proceeds (fillText p t.text text t.location) := by
    unfold fillText
    infer_instance
  have : Consumes (attributeText t.text >>= fun text => fillText p t.text text t.location) := .bind
  infer_instance

instance consumes_agentPart (p : AgentParts) : Consumes (agentPart p) := by
  refine .peek fun t => ?_
  split
  · exact .bind
  · exact .bind
  · exact .bind
  · exact .bind
  · infer_instance
  · exact .look fun _ => inferInstance

instance consumes_agent : Consumes agent := .bind

end Parser

namespace LineParser

instance consumes_cardLine : Parser.cardLine.Consumes := by
  refine consumes_choose (g := Parser.startsWith "description") ?_ (consumes_whole fun _ => .bind)
  have := consumes_whole (p := fun c : CardParts => (do
    let _ ← Parser.advance
    let _ ← Parser.advance
    let description ← Parser.takeString "card description"
    return { c with description := some description } : Parser CardParts)) fun _ => .bind
  exact consumes_thenFinish

instance consumes_carouselLine : Parser.carouselLine.Consumes := by
  refine consumes_whole fun ⟨cards, suggestions⟩ => .after (fun s => ⟨_, rfl⟩) fun c => ?_
  split_ifs
  · exact .bind
  · exact .bind

instance consumes_definitionLine : Parser.definitionLine.Consumes :=
  consumes_choose (consumes_whole fun ⟨_, _⟩ => .bind) <|
    consumes_choose (g := Parser.startsWith "suggestions") (consumes_whole fun ⟨_, _⟩ => .bind)
      (consumes_whole fun ⟨_, _⟩ => .bind)

instance consumes_settingsLine : Parser.settingsLine.Consumes :=
  consumes_choose (consumes_whole fun ⟨_, _⟩ => .bind) (consumes_whole fun ⟨_, _⟩ => .bind)

instance consumes_agentLine : (whole Parser.agentPart).Consumes :=
  consumes_whole fun _ => inferInstance

instance consumes_itemLine : FileParts.itemLine.Consumes := by
  constructor
  intro f s hend hnone
  by_cases himport : s.kind = .keyword .importWord
  · rw [FileParts.itemLine_import f himport] at hnone ⊢
    cases heq : Parser.importLine s with
    | ok i t => exact Parser.Consumes.lt hend heq
    | error e t => simp [heq] at hnone
  by_cases hagent : s.kind = .keyword (.opening .agent)
  · rw [FileParts.itemLine_agent f hagent] at hnone ⊢
    cases heq : Parser.agent s with
    | error e t => simp [heq] at hnone
    | ok a t =>
      have hlt := Parser.Consumes.lt hend heq
      cases f.agent with
      | none => exact hlt
      | some _ => simpa [remaining] using hlt
  · rw [FileParts.itemLine_stray f himport hagent] at hnone
    exact nomatch hnone

end LineParser

namespace ParserState

/-- A word or a block that cannot be read is skipped. -/
theorem remaining_recover_lt (hend : s.atEnd = false)
    (hk : s.kind.isStructural = false ∨ s.kind = .indent) (p : ParseProblem) :
    (s.recover p).remaining < s.remaining := by
  have hreport : (s.report p).remaining = s.remaining := by simp [remaining]
  have hkind : (s.report p).kind = s.kind := by
    obtain ⟨l, hl⟩ := s.exists_tokens
    rw [kind, current_of_tokens ((tokens_report s p).trans hl), ← kind]
  have hend' : (s.report p).atEnd = false := by rw [atEnd, report_rest, hkind]; exact hend
  have hadvance := advance_remaining_lt hend'
  rw [recover, synchronize, ← hreport]
  generalize s.report p = t at hkind hadvance ⊢
  refine Nat.lt_of_le_of_lt ?_ hadvance
  rw [skipLine, hkind]
  generalize hs : s.kind = k at hk hkind
  cases k with
  | indent =>
    dsimp only
    rw [skipBlock, if_pos (by simp [hkind])]
    exact (leads_skipLevels _ _ _).remaining_le
  | newline => simp [TokenKind.isStructural] at hk
  | dedent => simp [TokenKind.isStructural] at hk
  | eof => simp [TokenKind.isStructural] at hk
  | _ =>
    dsimp only
    rw [if_neg (by simp)]
    exact (leads_skipLine _ _ _).remaining_le

/-- A line that has been read or recovered from has taken a token. -/
theorem remaining_resumed_lt {line : LineParser α} [hproceeds : line.Proceeds]
    [h : line.Consumes] (gathered : α) (hend : s.atEnd = false)
    (hk : s.kind.isStructural = false ∨ s.kind = .indent) :
    (line gathered s).resumed.remaining < s.remaining := by
  unfold LineResult.resumed
  cases hproblem : (line gathered s).problem with
  | none => exact h.lt gathered s hend hproblem
  | some p =>
    have hleads := hproceeds.leads gathered s
    rcases Nat.lt_or_eq_of_le hleads.remaining_le with hlt | hsame
    · exact Nat.lt_of_le_of_lt (leads_recover _ _).remaining_le hlt
    · have hrest := hleads.rest_eq_of_remaining_eq hsame
      have hkind : (line gathered s).state.kind = s.kind := by
        rw [kind, hleads.current_eq hrest, ← kind]
      have hend' : (line gathered s).state.atEnd = false := by
        rw [atEnd, hrest, hkind]
        exact hend
      exact hsame ▸ remaining_recover_lt hend' (hkind ▸ hk) p

end ParserState

end AgentScript
