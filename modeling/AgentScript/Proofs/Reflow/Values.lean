import AgentScript.Proofs.Reflow.Parsers

/-!
# Values in a text laid out anew

Names, inline values, options and clauses stay in their line. A value may also be captured text,
behind which nothing but the line end is looked at, or a block of lines.
-/
namespace AgentScript.Parser

open ParserState

variable {α β : Type} {Moved : Position → Position → Prop} {st : Stance} {K : ParserState → Prop}
  {Q : Nat → ParserState → ParserState → Prop} {what : String}

/-- The parser fails for lack of a word where a line ends or a block begins. -/
def NeedsWord (what : String) (p : Parser α) : Prop :=
  ∀ s : ParserState, s.kind.isStructural = true → p s = unexpected what s

theorem NeedsWord.bind {p : Parser α} (h : NeedsWord what p) (f : α → Parser β) :
    NeedsWord what (p >>= f) := fun s hs => bind_of_error f (h s hs)

theorem needsWord_takeName : NeedsWord what (takeName what) := by
  intro s hs
  have hk : s.kind.isWordlike = false :=
    Bool.eq_false_iff.mpr fun h => by simp [isStructural_of_isWordlike h] at hs
  unfold takeName
  rw [bind_of_ok _ (rfl : kind s = .ok s.kind s), if_neg (by simp [hk])]

theorem staysInLine_of_isWordlike {k : TokenKind} (h : k.isWordlike = true) :
    k.staysInLine = true := by
  cases k <;> simp_all [TokenKind.isWordlike, TokenKind.staysInLine, TokenKind.isStructural,
    TokenKind.captures?]

theorem reflows_takeString : StaysInside Moved K (takeString what) :=
  (Reflows.expect rfl _).bind fun _ => .pure _

theorem reflows_takeName : StaysInside Moved K (takeName what) := by
  refine .kind rfl fun k => .ite (fun hk => ?_) fun _ => .unexpected what
  exact (Reflows.advance_at (staysInLine_of_isWordlike hk)).bind fun _ => .pure _

theorem reflows_takeSectionName : StaysInside Moved K (takeSectionName what) :=
  .check rfl (.pure none) (reflows_takeName.bind fun _ => .pure _)

theorem reflows_takeOptionalName : StaysInside Moved K takeOptionalName := by
  refine .kind rfl fun k => .ite (fun hk => ?_) fun _ => .pure none
  have hstays : k.staysInLine = true := by
    apply staysInLine_of_isWordlike
    cases k <;> simp_all [TokenKind.isWordlike, TokenKind.isLiteralWord]
  exact (Reflows.advance_at hstays).bind fun _ => .pure _

section

variable {item : Parser α} (h : StaysInside Moved (fun _ => True) item)

include h

theorem reflows_optionally {k : TokenKind} (hk : k.staysInLine = true) :
    StaysInside Moved K (optionally k item) :=
  .eat hk (h.bind fun _ => .pure _) (.pure none)

theorem reflows_eachAfter {k : TokenKind} (hk : k.staysInLine = true) (fuel : Nat) :
    StaysInside Moved K (eachAfter k item fuel) := by
  induction fuel generalizing K with
  | zero => exact .pure []
  | succ fuel ih => exact .eat hk (h.bind fun _ => ih.bind fun _ => .pure _) (.pure [])

theorem ItemLoop.staysInside {close : TokenKind} {run : Nat → Parser (List α)}
    (hrun : ItemLoop close item run) (hclose : close.isStructural = false) (fuel : Nat) :
    StaysInside Moved K (run fuel) := by
  induction fuel generalizing K with
  | zero =>
    rw [hrun.zero]
    exact .pure []
  | succ fuel ih =>
    rw [hrun.succ]
    refine .check hclose (.pure []) (h.any.bind fun _ => .eat rfl ?_ (.pure _))
    exact ih.bind fun _ => .pure _

theorem reflows_followers {k : TokenKind} (hk : k.staysInLine = true) :
    StaysInside Moved K (followers k item) :=
  Reflows.lineLeft.bind fun fuel => reflows_eachAfter h hk fuel

theorem reflows_separated {k : TokenKind} (hk : k.staysInLine = true) {first : Parser α}
    (hfirst : StaysInside Moved K first) : StaysInside Moved K (separated k first item) :=
  hfirst.bind fun _ => (reflows_followers h hk).bind fun _ => .pure _

end

theorem reflows_takeText {k : TokenKind} (hk : k.staysInLine = true) :
    StaysInside Moved K (takeText k) :=
  .check (TokenKind.isStructural_of_staysInLine hk)
    ((Reflows.advance_at hk).bind fun _ => .pure _) (.pure none)

theorem reflows_tagModifier : StaysInside Moved K tagModifier :=
  .eat rfl (reflows_takeText rfl) (.pure none)

theorem reflows_typeTag : StaysInside Moved K typeTag := by
  refine (Reflows.expect rfl _).bind fun start => (reflows_takeText rfl).bind fun name => ?_
  refine (reflows_takeText rfl).bind fun value => reflows_tagModifier.bind fun modifier => ?_
  exact (Reflows.expect rfl _).bind fun _ => (Reflows.spanFrom _).bind fun _ => .pure _

/-- Where the first of two words is known, a look at both is the same in two texts. -/
theorem look_eq {g : ParserState → Bool} (hword : ∀ s, g s = true → s.kind.isStructural = false)
    (hsame : ∀ s s' : ParserState, s.current = s'.current → (s.ahead 1).kind = (s'.ahead 1).kind →
      g s = g s')
    (d : Nat) (s s' : ParserState) (h : On Moved .inside K d s s') : g s = g s' := by
  have hkind := h.1.kind_eq rfl
  cases hstruct : s.kind.isStructural with
  | false =>
    refine hsame s s' (h.1.current_eq hstruct) ?_
    rw [← kind_advance, ← kind_advance]
    exact (h.1.advance_word hstruct).kind_eq (Stance.endsLine_pass _ _)
  | true =>
    have hleft : g s = false := Bool.eq_false_iff.mpr fun hg => by simp [hword s hg] at hstruct
    rw [hkind] at hstruct
    have hright : g s' = false := Bool.eq_false_iff.mpr fun hg => by simp [hword s' hg] at hstruct
    rw [hleft, hright]

theorem reflows_members (fuel : Nat) : StaysInside Moved K (members fuel) := by
  induction fuel generalizing K with
  | zero => exact .pure []
  | succ fuel ih =>
    have hword (s : ParserState) (h : startsMember s = true) : s.kind.isStructural = false :=
      (kinds_of_startsMember (·.isStructural = false) rfl rfl rfl h).1
    have hstays {s : ParserState} (h : startsMember s = true) :=
      kinds_of_startsMember (·.staysInLine = true) rfl rfl rfl h
    refine .look (look_eq hword fun _ _ => startsMember_congr) ?_ (.pure [])
    refine .advance_bind (J := fun s => s.kind.staysInLine = true) (fun s hs => (hstays hs.1).1)
      (fun s hs => (hstays hs.1).2) fun _ _ => ?_
    exact (Reflows.advance fun s hs => hs).bind fun _ => ih.bind fun _ => .pure _

theorem reflows_identifier (hK : ∀ s, K s → s.kind.staysInLine = true) :
    StaysInside Moved K identifier :=
  (Reflows.advance hK).bind fun _ => Reflows.lineLeft.bind fun fuel =>
    (reflows_members fuel).bind fun _ => (Reflows.spanFrom _).bind fun _ => .pure _

theorem reflows_expression (hK : ∀ s, K s → s.kind.staysInLine = true) :
    StaysInside Moved K expression :=
  (Reflows.advance hK).bind fun _ =>
    .check rfl ((Reflows.advance_at rfl).bind fun _ => .pure _) (.pure _)

theorem reflows_entryKey : StaysInside Moved K entryKey :=
  .check rfl reflows_takeString reflows_takeName

theorem needsWord_entryKey : NeedsWord "dictionary key" entryKey := by
  intro s hs
  refine (check_bind_apply _ _ _ s).trans ((if_neg ?_).trans (needsWord_takeName s hs))
  rintro hk
  rw [hk] at hs
  exact nomatch hs

/-- Something under a key, where behind its value a location can be told. -/
theorem reflows_keyed {key : Parser String} (hkey : StaysInside Moved (fun _ => True) key)
    (hneeds : NeedsWord what key) (colon : String) {v : Parser Value}
    (h : Reflows Moved (On Moved .inside fun _ => True) Q v)
    (hspan : ∀ start, Reflows Moved Q Q (spanFrom start)) :
    Reflows Moved (On Moved .inside K) Q (keyed key colon v) := by
  refine .peek what (fun t _ _ => ?_) fun t s _ hs => hneeds.bind _ s hs
  refine hkey.any.bind fun name => (Reflows.expect rfl colon).bind fun _ => h.bind fun value => ?_
  exact (hspan _).bind fun _ => .ret _

section

variable {item : Parser Value} (h : StaysInside Moved (fun _ => True) item)

include h

theorem reflows_inlineList (bracket : Bracket) (what : String)
    (hK : ∀ s, K s → s.kind.staysInLine = true) :
    StaysInside Moved K (inlineList item bracket what) :=
  (Reflows.advance hK).bind fun _ => Reflows.lineLeft.bind fun _ =>
    ((itemLoop_listItems item _).staysInside h rfl _).bind fun _ =>
      (Reflows.expect rfl what).bind fun _ =>
      (Reflows.spanFrom _).bind fun _ => .pure _

theorem reflows_inlineEntry : StaysInside Moved K (inlineEntry item) :=
  reflows_keyed reflows_entryKey needsWord_entryKey _ h .spanFrom

theorem reflows_inlineDictionary (hK : ∀ s, K s → s.kind.staysInLine = true) :
    StaysInside Moved K (inlineDictionary item) :=
  (Reflows.advance hK).bind fun _ => Reflows.lineLeft.bind fun _ =>
    ((itemLoop_dictionaryEntries item).staysInside (reflows_inlineEntry h) rfl _).bind fun _ =>
      (Reflows.expect rfl _).bind fun _ =>
      (Reflows.spanFrom _).bind fun _ => .pure _

end

theorem staysInLine_at {k : TokenKind} (hk : k.staysInLine = true) (s : ParserState)
    (hs : s.kind = k ∧ K s) : s.kind.staysInLine = true := by rwa [hs.1]

/-- The induction is on the depth; items of a collection are one level deeper. -/
theorem reflows_inlineValueWithin (depth : Nat) :
    StaysInside Moved K (inlineValueWithin depth) := by
  induction depth generalizing K with
  | zero => exact .unexpected _
  | succ depth ih =>
    refine .kind rfl fun k => ?_
    split
    case h_1 => exact (Reflows.advance_at rfl).bind fun _ => .pure _
    case h_2 => exact .advance_placed rfl fun t place => .ofNode _ place
    case h_3 =>
      refine (Reflows.advance_at rfl).bind fun t => ?_
      split
      · exact .pure _
      · exact .unexpected _
    case h_4 => exact (Reflows.advance_at rfl).bind fun _ => .pure _
    case h_5 => exact reflows_typeTag.bind fun _ => .pure _
    case h_6 => exact reflows_expression (staysInLine_at rfl)
    case h_7 => exact reflows_inlineList ih _ _ (staysInLine_at rfl)
    case h_8 => exact reflows_inlineList ih _ _ (staysInLine_at rfl)
    case h_9 => exact reflows_inlineDictionary ih (staysInLine_at rfl)
    case h_10 => exact reflows_identifier (staysInLine_at rfl)
    case h_11 => exact reflows_identifier (staysInLine_at rfl)
    case h_12 => exact .unexpected _

theorem reflows_inlineValue : StaysInside Moved K inlineValue :=
  Reflows.lineLeft.bind fun _ => reflows_inlineValueWithin _

theorem needsWord_inlineValue : NeedsWord "value" inlineValue := by
  intro s hs
  refine (bind_of_ok _ (rfl : lineLeft s = .ok s.lineLeft s)).trans ?_
  unfold inlineValueWithin
  rw [bind_of_ok _ (rfl : kind s = .ok s.kind s)]
  generalize s.kind = k at hs
  cases k <;> first | rfl | exact nomatch hs

theorem reflows_parameter : StaysInside Moved K parameter :=
  reflows_keyed reflows_takeName needsWord_takeName _ reflows_inlineValue .spanFrom

theorem reflows_optionalWith : StaysInside Moved K optionalWith := by
  refine .check rfl ?_ (.pure none)
  refine (Reflows.advance_at rfl).bind fun _ => ?_
  refine (reflows_separated reflows_parameter rfl reflows_parameter).bind fun _ => ?_
  exact (Reflows.spanFrom _).bind fun _ => .pure _

theorem ofToken?_of_isStructural {t : Token} (h : t.isStructural = true) :
    Operand.ofToken? t = none := by
  cases ho : Operand.ofToken? t with
  | none => rfl
  | some o => exact nomatch (isStructural_of_ofToken? ho).symm.trans h

theorem needsWord_operand : NeedsWord "flow operand" operand := by
  intro s hs
  refine (bind_of_ok _ (rfl : peek s = .ok s.current s)).trans ?_
  rw [ofToken?_of_isStructural hs]

theorem staysInLine_of_ofToken? {t : Token} {o : Operand} (h : Operand.ofToken? t = some o) :
    t.kind.staysInLine = true := by
  unfold Operand.ofToken? at h
  split at h
  · next hk => rw [hk]; rfl
  · next hk => rw [hk]; rfl
  · split_ifs at h with hword
    exact staysInLine_of_isWordlike hword

theorem reflows_operand : StaysInside Moved K operand := by
  refine .peek "flow operand" (fun t _ _ => ?_) fun t s ht hs => ?_
  · split
    · next o ho =>
      have hadvance : StaysInside Moved (fun s => s.current = t ∧ K s) advance :=
        .advance fun s hs => by rw [ParserState.kind, hs.1]; exact staysInLine_of_ofToken? ho
      exact hadvance.bind fun _ => .pure _
    · exact .unexpected _
  · rw [ofToken?_of_isStructural ht]

theorem reflows_operandChain : StaysInside Moved K operandChain :=
  (reflows_separated reflows_operand rfl reflows_operand).bind fun _ =>
    .ite (fun _ => .unexpected _) fun _ => .pure _

theorem needsWord_operandChain : NeedsWord "flow operand" operandChain :=
  (needsWord_operand.bind _).bind _

/-- Passing a word of a known kind behind which captured text may follow. -/
theorem Reflows.advance_captures {k : TokenKind} (hk : k.isStructural = false)
    (hpass : st.pass k = .captured) :
    Reflows Moved (On Moved st fun s => s.kind = k ∧ K s) (On Moved .captured fun _ => True)
      Parser.advance := by
  rintro d s s' ⟨hs, hkind, -⟩
  have hnext := hs.advance_word (hkind ▸ hk)
  rw [hkind, hpass] at hnext
  unfold Parser.advance
  rw [hs.current_eq (hkind ▸ hk)]
  exact .ok _ ⟨hnext, trivial⟩

theorem reflows_contentLines {k : TokenKind} (hk : k.isStructural = false) (fuel : Nat) :
    Reflows Moved (On Moved .captured K) (On Moved .captured fun _ => True)
      (contentLines k fuel) := by
  induction fuel generalizing K with
  | zero => exact .pure []
  | succ fuel ih =>
    refine .check hk ?_ (.pure [])
    exact (Reflows.advance_captures hk (Stance.pass_captured k)).bind fun _ =>
      ih.bind fun _ => .pure _

theorem reflows_content {k : TokenKind} (hk : k.isStructural = false) :
    Reflows Moved (On Moved .captured fun _ => True) (On Moved .captured fun _ => True)
      (content k) :=
  Reflows.lineLeft.bind fun fuel => reflows_contentLines hk fuel

theorem reflows_multilineString (chomping : Chomping) :
    Reflows Moved (On Moved .inside fun s => s.kind = .multiline chomping ∧ K s)
      (On Moved .captured fun _ => True) (multilineString chomping) :=
  (Reflows.advance_captures rfl rfl).bind fun _ =>
    (reflows_content rfl).bind fun _ => (Reflows.spanFrom _).bind fun _ => .pure _

theorem reflows_codeBlock :
    Reflows Moved (On Moved .inside fun s => s.kind = .embeddedBlockMarker ∧ K s)
      (On Moved .captured fun _ => True) codeBlock :=
  (Reflows.advance_captures rfl rfl).bind fun _ =>
    (reflows_content rfl).bind fun _ => (Reflows.spanFrom _).bind fun _ => .pure _

theorem reflows_lineValue : Reflows Moved (On Moved .inside K) (Somewhere Moved) lineValue := by
  refine .kind rfl fun k => ?_
  split
  · exact (reflows_multilineString _).somewhere
  · exact reflows_codeBlock.somewhere
  · exact reflows_inlineValue.somewhere

/-- The value may be read in a line or as the block below it. -/
abbrev ReflowsValue (Moved : Position → Position → Prop) (v : Parser Value) : Prop :=
  Reflows Moved (On Moved .inside fun _ => True) (Somewhere Moved) v

/-- At the beginning of a block a parser may note where the next token begins. -/
theorem Reflows.peek_opened {f : Position → Parser β}
    (h : ∀ p, Reflows Moved (fun d => On Moved .opened (fun _ => True) (d + 1)) Q (f p)) :
    Reflows Moved (fun d => On Moved .opened (fun _ => True) (d + 1)) Q
      (Parser.peek >>= fun t : Token => f t.start) := by
  rintro d s s' ⟨hs, -⟩
  obtain ⟨e, l, l', -, -, htokens, -⟩ := hs.exists_tokens
  have hstart : s.current.start = s'.current.start := htokens.meets
  change Alike Moved d (Q d) (f s.current.start s) (f s'.current.start s')
  rw [← hstart]
  exact h _ ⟨hs, trivial⟩

section

variable {v : Parser Value} (h : ReflowsValue Moved v)

include h

theorem reflows_listLine : (listLine v).Reflows Moved K :=
  .thenFinish fun items => ((Reflows.expect rfl _).bind fun _ => h).bind fun a =>
    .ret (items ++ [a])

theorem reflows_keyedLine (key colon : String) : (keyedLine key colon v).ReflowsLine Moved K := by
  refine (reflows_keyed reflows_takeName needsWord_takeName colon h
    .spanFrom_somewhere).bind fun e => ?_
  exact Reflows.finishLine.bind fun _ => .pure e

theorem reflows_dictionaryLine : (dictionaryLine v).Reflows Moved K :=
  .item (reflows_keyedLine h _ _)

variable [Proceeds v]

theorem reflows_blockList :
    Reflows Moved (fun d => On Moved .opened (fun _ => True) (d + 1))
      (On Moved .between fun _ => True) (blockList v) := by
  have hlines (start : Position) :
      Reflows Moved (fun d => On Moved .opened (fun _ => True) (d + 1))
        (On Moved .between fun _ => True) (blockLines (listLine v) [] >>= fun items =>
          spanFrom start >>= fun location => pure (Value.ofItems none items location)) :=
    (Reflows.blockLines (reflows_listLine h) []).bind fun _ =>
      (Reflows.spanFrom _).bind fun _ => .pure _
  exact .peek_opened hlines

theorem reflows_blockDictionary :
    Reflows Moved (fun d => On Moved .opened (fun _ => True) (d + 1))
      (On Moved .between fun _ => True) (blockDictionary v) := by
  have hlines (start : Position) :
      Reflows Moved (fun d => On Moved .opened (fun _ => True) (d + 1))
        (On Moved .between fun _ => True) (blockLines (dictionaryLine v) [] >>= fun entries =>
          spanFrom start >>= fun location => pure (Value.ofEntries none entries location)) :=
    (Reflows.blockLines (reflows_dictionaryLine h) []).bind fun _ =>
      (Reflows.spanFrom _).bind fun _ => .pure _
  exact .peek_opened hlines

theorem reflows_blockValue :
    Reflows Moved (fun d => On Moved .opened (fun _ => True) (d + 1))
      (On Moved .between fun _ => True) (blockValue v) := by
  rintro d s s' ⟨hs, -⟩
  have hiff := hs.kind_iff (k := .dash) (.inl rfl)
  unfold blockValue
  rw [check_bind_apply, check_bind_apply]
  by_cases hk : s.kind = .dash
  · rw [if_pos hk, if_pos (hiff.mp hk)]
    exact reflows_blockList h ⟨hs, trivial⟩
  · rw [if_neg hk, if_neg fun hk' => hk (hiff.mpr hk')]
    exact reflows_blockDictionary h ⟨hs, trivial⟩

end

/-- The induction is on the depth; a block holds values that are one level deeper. -/
theorem reflows_valueWithin (depth : Nat) : ReflowsValue Moved (valueWithin depth) := by
  induction depth with
  | zero => exact .unexpected _
  | succ depth ih =>
    rintro d s s' ⟨hs, -⟩
    have hkind := hs.kind_eq rfl
    by_cases hblock : s.kind = .newline ∧ (s.ahead 1).kind = .indent
    · obtain ⟨hk, hnext⟩ := hblock
      have hk' : s'.kind = .newline := hkind ▸ hk
      have hbelow := hs.advance_newline hk hk'
      rw [← kind_advance] at hnext
      have hnext' : s'.advance.kind = .indent := (hbelow.kind_iff (.inr rfl)).mp hnext
      rw [valueWithin_of_block hk (s.kind_advance ▸ hnext),
        valueWithin_of_block hk' (s'.kind_advance ▸ hnext')]
      exact (reflows_blockValue ih).somewhere ⟨hbelow.advance_indent hnext, trivial⟩
    · have hline' (hk' : s'.kind = .newline) : (s'.ahead 1).kind ≠ .indent := by
        intro hnext'
        have hk : s.kind = .newline := hkind ▸ hk'
        rw [← kind_advance] at hnext'
        refine hblock ⟨hk, ?_⟩
        rw [← kind_advance]
        exact ((hs.advance_newline hk hk').kind_iff (.inr rfl)).mpr hnext'
      rw [valueWithin_of_line fun hk hnext => hblock ⟨hk, hnext⟩, valueWithin_of_line hline']
      exact reflows_lineValue (K := fun _ => True) ⟨hs, trivial⟩

theorem reflows_value : ReflowsValue Moved value := by
  intro d s s' hs
  have hleft : value s = valueWithin (max s.remaining s'.remaining + 1) s :=
    value_eq (Nat.lt_succ_of_le (Nat.le_max_left _ _))
  have hright : value s' = valueWithin (max s.remaining s'.remaining + 1) s' :=
    value_eq (Nat.lt_succ_of_le (Nat.le_max_right _ _))
  rw [hleft, hright]
  exact reflows_valueWithin _ hs

end AgentScript.Parser
