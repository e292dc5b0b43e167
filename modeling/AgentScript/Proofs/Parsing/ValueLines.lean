import AgentScript.Proofs.Parsing.InlineAgreement
import AgentScript.Proofs.Parsing.SharedBlocks

/-!
# Two parses of the same value or flow

A value stays on its line or takes the block below it as a whole. A line that holds a value
ends behind the one or the other, and none of these lines can begin with an indentation.

A rule takes its line and the when clauses below it. Once its operands have been read nothing
about the rule can fail behind its line.
-/
namespace AgentScript

open WholeLine

namespace Parser

variable {α β : Type} {b c : Footing} {K : ParserState → Prop} {s s' : ParserState}

theorem refuses_inlineValueWithin (depth : Nat) : (inlineValueWithin depth).Refuses := by
  cases depth with
  | zero => exact refuses_unexpected _
  | succ depth => exact refuses_kind_bind (refuses_unexpected _)

/-- Behind a value both parses are on its line or behind its block. -/
def AfterValue (L : WholeLine) (s s' : ParserState) : Prop :=
  On .word (fun _ => True) L s s' ∨ L.Beyond s s'

theorem steps_spanFrom_afterValue (start : Position) :
    Steps b AfterValue AfterValue (spanFrom start) := by
  apply steps_spanFrom
  rintro L s s' (hs | hs)
  · obtain ⟨words, -, halike⟩ := hs.1
    exact halike.text (Footing.le_word _)
  · exact hs.alike.text (Footing.le_refl _)

theorem agrees_lineValue : Agrees K b .word lineValue := by
  apply agrees_kind_bind
  intro k
  split
  · apply (agrees_multilineString _).restrict
    intro s hs
    rw [hs.1]
    rfl
  · apply agrees_codeBlock.restrict
    intro s hs
    rw [hs.1]
    rfl
  · exact agrees_inlineValue

theorem Inside.current_eq {L : WholeLine} (h : Inside L s s') : s.current = s'.current := by
  obtain ⟨body, dedent, -, -, halike⟩ := h
  cases body with
  | nil =>
    rw [ParserState.current_of_tokens halike.left, ParserState.current_of_tokens halike.right]
  | cons x body =>
    rw [ParserState.current_of_tokens halike.left, ParserState.current_of_tokens halike.right]

/-- An item that has been read counts even if its line does not end behind it. -/
theorem completes_thenFinish {p : α → Parser α}
    (h : ∀ g, ∀ b ≤ Footing.text,
      Steps b (On b fun s => s.kind.isStructural = false ∧ K s) AfterValue (p g)) :
    (LineParser.thenFinish (.whole p)).Completes K Eq := by
  rintro L b s s' g _ hb hs hword hK rfl
  have hp := h g b hb ⟨hs, hword, hK⟩
  unfold LineParser.thenFinish LineParser.whole
  generalize p g s = left at hp
  generalize p g s' = right at hp
  cases hp with
  | error e within => exact .failed rfl e within
  | @ok t t' a after =>
    have hfinish : L.Outcome b _ (finishLine t) (finishLine t') :=
      steps_finishLine_behindValue after
    dsimp only
    generalize finishLine t = left at hfinish
    generalize finishLine t' = right at hfinish
    cases hfinish with
    | ok _ passed => exact .done rfl passed
    | error e within => exact .failed rfl e within

variable {v : Parser Value}

/-- A value does the same in two parses of the line that it begins on. -/
def StepsValue (v : Parser Value) : Prop :=
  ∀ b ≤ Footing.text, Steps b (On .word fun _ => True) AfterValue v

theorem StepsValue.completes_listLine (h : StepsValue v) :
    (listLine v).Completes K Eq := by
  apply completes_thenFinish
  intro g b hb
  apply Steps.bind
  · exact ((agrees_expect rfl _).thenSteps (Footing.le_refl b) fun _ => h b hb)
  · exact fun a => steps_pure (g ++ [a])

theorem refuses_listLine (v : Parser Value) : (listLine v).Refuses :=
  (LineParser.refuses_item ((refuses_expect (by decide) _).bind _)).thenFinish

theorem StepsValue.keyed (h : StepsValue v) (hb : b ≤ .text) (key colon : String) :
    Steps b (On b K) AfterValue (keyed (takeName key) colon v) := by
  apply steps_peek_bind
  intro t
  apply (agrees_takeName key).thenSteps (Footing.le_refl b)
  intro name
  apply (agrees_expect rfl colon).thenSteps (Footing.le_word b)
  intro _
  apply (h b hb).bind
  intro value
  apply (steps_spanFrom_afterValue _).bind
  intro location
  exact steps_pure _

theorem StepsValue.completes_keyedLine (h : StepsValue v) (key colon : String) :
    (keyedLine key colon v).Completes K := by
  intro b hb
  apply (h.keyed hb key colon).bind
  intro e
  apply steps_finishLine_behindValue.bind
  intro _
  exact steps_pure e

theorem refuses_keyedLine (key colon : String) (v : Parser Value) :
    (keyedLine key colon v).Refuses := by
  apply Refuses.bind
  apply refuses_peek_bind
  intro t _
  exact (refuses_takeName key).bind _

theorem StepsValue.completes_dictionaryLine (h : StepsValue v) :
    (dictionaryLine v).Completes K Eq :=
  LineParser.completes_item (by rintro g _ a rfl; rfl) (h.completes_keyedLine _ _)

theorem steps_peek_bind_inside {f : Token → Parser β}
    {Q : WholeLine → ParserState → ParserState → Prop} (h : ∀ t, Steps b Inside Q (f t)) :
    Steps b Inside Q (peek >>= f) := by
  intro L s s' hs
  have heq : (peek >>= f) s' = f s.current s' := by
    rw [hs.current_eq]
    rfl
  rw [heq]
  exact h s.current hs

theorem StepsValue.blockList [Proceeds v] (h : StepsValue v) :
    Steps b Inside Beyond (blockList v) := by
  apply steps_peek_bind_inside
  intro t
  apply (steps_blockLines h.completes_listLine (refuses_listLine v) []).bind
  intro items
  apply (steps_spanFrom_beyond _).bind
  intro location
  exact steps_pure _

theorem StepsValue.blockDictionary [Proceeds v] (h : StepsValue v) :
    Steps b Inside Beyond (blockDictionary v) := by
  apply steps_peek_bind_inside
  intro t
  apply (steps_blockLines h.completes_dictionaryLine
    (LineParser.refuses_item (refuses_keyedLine _ _ v)) []).bind
  intro entries
  apply (steps_spanFrom_beyond _).bind
  intro location
  exact steps_pure _

theorem StepsValue.blockValue [Proceeds v] (h : StepsValue v) :
    Steps b Inside Beyond (blockValue v) := by
  intro L s s' hs
  unfold Parser.blockValue
  rw [check_bind_apply, check_bind_apply, ParserState.kind, ParserState.kind, ← hs.current_eq]
  split_ifs
  · exact h.blockList hs
  · exact h.blockDictionary hs

/-- The induction is on the depth; a block holds values that are one level deeper. -/
theorem steps_valueWithin (depth : Nat) : StepsValue (valueWithin depth) := by
  induction depth with
  | zero => exact fun b hb => steps_unexpected (Footing.le_word b) _
  | succ depth ih =>
    intro b hb L s s' hs
    have hline (h : s.kind = .newline → (s.ahead 1).kind ≠ .indent)
        (h' : s'.kind = .newline → (s'.ahead 1).kind ≠ .indent) :
        L.Outcome b (AfterValue L) (valueWithin (depth + 1) s) (valueWithin (depth + 1) s') := by
      rw [valueWithin_of_line h, valueWithin_of_line h']
      exact ((agrees_lineValue.steps (Footing.le_word b)).mono (fun _ _ _ h => h)
        fun _ _ _ h => .inl h) hs
    obtain ⟨words, hwords, halike⟩ := hs.1
    cases words with
    | cons x words =>
      have hx := hwords x (List.mem_cons_self ..)
      apply hline
      · exact fun hk => absurd ((ParserState.kind_of_tokens halike.left).symm.trans hk)
          (Token.ne_of_word hx rfl)
      · exact fun hk => absurd ((ParserState.kind_of_tokens halike.right).symm.trans hk)
          (Token.ne_of_word hx rfl)
    | nil =>
      have hnext := (halike.weaken (Footing.le_word .text)).advance_layout L.isStructural
        (L.ends.ne_eof (by decide)) (Footing.le_refl _)
      have hbelow := L.isBelow
      generalize L.below = below at halike hnext hbelow
      cases hbelow with
      | none =>
        apply hline
        · rw [← ParserState.kind_advance]
          exact fun _ => ParserState.kind_ne_of_head hnext.left L.clear.left
        · rw [← ParserState.kind_advance]
          exact fun _ => ParserState.kind_ne_of_head hnext.right L.clear.right
      | @block body indent dedent opens inner closes =>
        have hkind := (ParserState.kind_of_tokens halike.left).trans L.ends.kind_eq
        have hkind' := (ParserState.kind_of_tokens halike.right).trans L.ends.kind_eq
        have hindent := (ParserState.kind_of_tokens hnext.left).trans opens.kind_eq
        have hindent' := (ParserState.kind_of_tokens hnext.right).trans opens.kind_eq
        rw [ParserState.kind_advance] at hindent hindent'
        have hinside := hnext.advance_layout (opens.isStructural_eq.trans rfl)
          (opens.ne_eof (by decide)) (Footing.le_refl _)
        rw [valueWithin_of_block hkind hindent, valueWithin_of_block hkind' hindent']
        exact (ih.blockValue.mono (fun _ _ _ h => h) fun _ _ _ h => .inr h)
          ⟨body, dedent, inner, closes, hinside⟩

theorem steps_value : StepsValue value := by
  intro b hb L s s' hs
  have hleft : value s = valueWithin (max s.remaining s'.remaining + 1) s :=
    value_eq (Nat.lt_succ_of_le (Nat.le_max_left _ _))
  have hright : value s' = valueWithin (max s.remaining s'.remaining + 1) s' :=
    value_eq (Nat.lt_succ_of_le (Nat.le_max_right _ _))
  rw [hleft, hright]
  exact steps_valueWithin _ b hb hs

theorem completes_whenClause : whenClause.Completes K := by
  intro b _
  apply (agrees_expect rfl _).thenSteps (Footing.le_refl b)
  intro t
  apply agrees_inlineValue.thenSteps (Footing.le_word b)
  intro condition
  apply (agrees_followers rfl agrees_operand).thenSteps (Footing.le_word b)
  intro operands
  apply agrees_optionalWith.thenSteps (Footing.le_word b)
  intro withClause
  apply (agrees_spanFrom _).thenSteps (Footing.le_word b)
  intro location
  apply (agrees_ofNode _ _).thenSteps (Footing.le_word b)
  intro clause
  exact steps_finish _

theorem refuses_whenClause : whenClause.Refuses := (refuses_expect (by decide) _).bind _

theorem length_of_operandChain {s t : ParserState} {operands : List Operand}
    (h : operandChain s = .ok operands t) : ¬ operands.length < 2 := by
  obtain ⟨operands', u, -, h⟩ := bind_eq_ok.mp h
  split_ifs at h with hlength
  · exact nomatch h
  · cases h
    exact hlength

theorem completes_flowRule : flowRule.Completes K := by
  intro b _
  apply Steps.passed
  apply steps_peek_bind
  intro t
  apply agrees_operandChain.thenStepsWith (Footing.le_refl b) fun _ _ _ h =>
    length_of_operandChain h
  intro operands hlength
  apply (agrees_spanFrom _).thenSteps (Footing.le_word b)
  intro header
  apply agrees_optionalWith.thenSteps (Footing.le_word b)
  intro withClause
  apply (steps_itemBlock completes_whenClause refuses_whenClause []).bind
  intro whenClauses
  apply (steps_spanFrom_beyond _).bind
  intro location
  have hbuild : FlowRule.build operands withClause whenClauses location =
      .ok ⟨operands, withClause, whenClauses, some location⟩ := if_neg hlength
  rw [hbuild]
  exact steps_pure _

theorem refuses_operand : operand.Refuses := by
  apply refuses_peek_bind
  intro t ht
  cases ho : Operand.ofToken? t with
  | some o =>
    have hword := isStructural_of_ofToken? ho
    rw [ht.kind_eq] at hword
    exact nomatch hword
  | none => exact refuses_unexpected _

theorem refuses_flowRule : flowRule.Refuses := by
  apply refuses_peek_bind
  intro t _
  exact ((refuses_operand.bind _).bind _).bind _

end Parser

end AgentScript
