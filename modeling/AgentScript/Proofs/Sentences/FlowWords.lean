import AgentScript.Proofs.Sentences.InlineValues

/-!
# Sentences on the lines of a flow

The words of a rule and of a when clause, up to the end of their line. Any word is an operand,
those that begin clauses too; what follows an operand decides where the chain ends.
-/
namespace AgentScript

open FlowGrammar ParserState Computability

variable {kinds : List TokenKind} {k : TokenKind} {follow : TokenKind → Prop} {s t : ParserState}

namespace FlowGrammar

/-- The words of a rule. -/
def ruleWords : KindLanguage := operand * destinations * atMostOne withClause

/-- The words of a when clause. -/
def whenWords : KindLanguage :=
  one (.keyword .whenWord) * inlineValue * destinations * atMostOne withClause

theorem whenClause_eq : whenClause = whenWords * one .newline := rfl

theorem operand_eq : operand =
    oneThat fun k => (k = .atom ∨ k = .string) ∨ k.isWordlike = true := by
  rw [operand, word, ← oneThat_eq, ← oneThat_eq, oneThat_add, oneThat_add]

end FlowGrammar

namespace Parser

theorem isSome_ofToken? (t : Token) : (Operand.ofToken? t).isSome = true ↔
    (t.kind = .atom ∨ t.kind = .string) ∨ t.kind.isWordlike = true := by
  unfold Operand.ofToken?
  split
  · next hk => simp [hk]
  · next hk => simp [hk]
  · next hatom hstring =>
    split_ifs with hword
    · simp [hword]
    · simp [hword, show t.kind ≠ .atom from hatom, show t.kind ≠ .string from hstring]

theorem recognizes_operand : operand.Recognizes FlowGrammar.operand follow := by
  intro s he
  rw [operand_eq]
  refine .look ?_
  cases ho : Operand.ofToken? s.current with
  | some o =>
    have hkind := (isSome_ofToken? s.current).mp (by rw [ho]; rfl)
    have hnumber : s.kind ≠ .number := fun h => by
      rw [← ParserState.kind, h] at hkind
      simp [TokenKind.isWordlike] at hkind
    rw [← mul_one (oneThat _)]
    exact .advanceThat hkind (isStructural_of_ofToken? ho) hnumber (recognizesAt_pure trivial)
  | none =>
    have hlacks : s.Lacks (oneThat fun k => (k = .atom ∨ k = .string) ∨ k.isWordlike = true)
        follow := by
      rintro _ ⟨k, hk, rfl⟩ t ht -
      rw [← ht.uncons.1] at hk
      have hsome := (isSome_ofToken? s.current).mpr hk
      rw [ho] at hsome
      cases hsome
    rw [← zero_add (oneThat _)]
    exact (recognizes_unexpected _ s he).inl hlacks

theorem recognizes_parameter : parameter.Recognizes FlowGrammar.parameter MayFollowValue :=
  recognizes_keyed (recognizes_takeName _) _ recognizes_inlineValue

theorem recognizes_optionalWith (hwith : ¬ follow (.keyword .withWord))
    (hfollow : ∀ k, follow k → MayFollowValue k) (hcomma : ¬ follow .comma) :
    optionalWith.Recognizes (atMostOne withClause) follow := by
  rw [atMostOne, withClause, mul_assoc]
  refine recognizes_check rfl (by decide) (fun t => ?_) (recognizes_pure none) fun h =>
    hwith (first_epsilon.mp h)
  refine (recognizes_separated rfl (by decide) recognizes_parameter ⟨by decide, by decide⟩ hfollow
    hcomma recognizes_parameter).bind_last fun parameters => ?_
  exact recognizes_spanFrom fun location => recognizes_pure _

/-- The operands that arrows lead to, where there are any. -/
theorem recognizes_destinations (hfollow : ¬ follow .arrow) :
    (followers .arrow operand).RecognizesWith destinations follow (· ≠ []) := by
  have hoperand : operand.Recognizes FlowGrammar.operand fun _ => True := recognizes_operand
  exact recognizes_followers_some rfl (by decide) hoperand trivial (fun _ _ => trivial) hfollow

/-- A chain has at least two operands. -/
theorem recognizes_operandChain (hfollow : ¬ follow .arrow) :
    operandChain.RecognizesWith (FlowGrammar.operand * destinations) follow (2 ≤ ·.length) := by
  have hseparated : (separated .arrow operand operand).RecognizesWith
      (FlowGrammar.operand * destinations) follow (2 ≤ ·.length) := by
    refine recognizes_operand.bind fun a => ?_
    refine (recognizes_destinations hfollow).bindWith_last (fun rest hrest s _ => ?_) ?_
    · refine recognizesAt_pure ?_
      have hpositive := List.length_pos_iff.mpr hrest
      rw [List.length_cons]
      omega
    · rintro rest t b u hpure hb rfl
      cases hpure
      exact absurd hb (by simp)
  refine hseparated.bindWith_last (fun operands hlength s _ => ?_) ?_
  · rw [if_neg (by omega)]
    exact recognizesAt_pure hlength
  · intro operands t b u hok _
    split_ifs at hok with hlength
    · exact nomatch hok
    · omega

/-- The words of a when clause. -/
def whenWords : Parser WhenClause := do
  let start := (← expect (.keyword .whenWord) "'when'").start
  let condition ← inlineValue
  let operands ← followers .arrow operand
  let withClause ← optionalWith
  let location ← spanFrom start
  ofNode (WhenClause.build condition operands withClause location) location

theorem whenClause_eq :
    whenClause = (whenWords >>= fun clause => finishLine >>= fun _ => pure clause) := by
  simp only [whenClause, whenWords, bind_assoc]

/-- What a rule is made of on its line: where it begins, its operands, where these end, and the
with clause. -/
def ruleWords : Parser (Position × List Operand × Location × Option WithClause) := do
  let start := (← peek).start
  let operands ← operandChain
  let header ← spanFrom start
  let withClause ← optionalWith
  return (start, operands, header, withClause)

theorem flowRule_eq : flowRule = (ruleWords >>= fun r => block (.item whenClause) [] >>=
    fun whenClauses => spanFrom r.1 >>= fun location =>
      ofNode (FlowRule.build r.2.1 r.2.2.2 whenClauses location) r.2.2.1) := by
  simp only [flowRule, ruleWords, bind_assoc, pure_bind]

theorem recognizes_whenWords :
    whenWords.Recognizes FlowGrammar.whenWords (· = .newline) := by
  have hwith : ∀ k, First (atMostOne withClause) (· = .newline) k →
      k = .newline ∨ k = .keyword .withWord := by
    intro k h
    rw [withClause, mul_assoc] at h
    exact h.atMostOne.imp_right First.one_mul
  have hdestinations : ∀ k, First (destinations * atMostOne withClause) (· = .newline) k →
      MayFollowValue k := by
    intro k h
    rw [destinations, atLeastOne, mul_assoc, mul_assoc] at h
    rw [h.one_mul]
    exact ⟨by decide, by decide⟩
  unfold FlowGrammar.whenWords
  simp only [mul_assoc]
  refine (recognizes_expect rfl (by decide) _).bind fun start => ?_
  refine (recognizes_inlineValue.narrow hdestinations).bind fun condition => ?_
  refine (recognizes_destinations fun h => by simpa using hwith _ h).bindWith
    (fun operands hoperands => ?_) ?_
  · refine (recognizes_optionalWith (by decide) ?_ (by decide)).bind_last fun withClause => ?_
    · rintro k rfl
      exact ⟨by decide, by decide⟩
    refine recognizes_spanFrom fun location => ?_
    have hbuild : WhenClause.build condition operands withClause location =
        .ok ⟨condition, operands, withClause, some location⟩ := if_neg (by simpa using hoperands)
    rw [hbuild]
    exact recognizes_pure _
  · rintro operands t clause u hok - rfl
    obtain ⟨withClause, v, -, hok⟩ := bind_eq_ok.mp hok
    cases hok

theorem recognizes_ruleWords :
    ruleWords.RecognizesWith FlowGrammar.ruleWords (· = .newline) (2 ≤ ·.2.1.length) := by
  have hwith : ∀ k, First (atMostOne withClause) (· = .newline) k → k ≠ .arrow := by
    intro k h
    rw [withClause, mul_assoc] at h
    rcases h.atMostOne.imp_right First.one_mul with rfl | rfl
    · decide
    · decide
  refine recognizes_peek fun start => ?_
  refine (recognizes_operandChain fun h => hwith _ h rfl).bindWith (fun operands hlength => ?_) ?_
  · refine recognizes_spanFrom fun header => ?_
    refine (recognizes_optionalWith (by decide) ?_ (by decide)).bind_last fun withClause s _ => ?_
    · rintro k rfl
      exact ⟨by decide, by decide⟩
    exact recognizesAt_pure hlength
  · intro operands t r u hok hr
    obtain ⟨header, v, -, hok⟩ := bind_eq_ok.mp hok
    obtain ⟨withClause, w, -, hok⟩ := bind_eq_ok.mp hok
    cases hok
    exact hr

end Parser

end AgentScript
