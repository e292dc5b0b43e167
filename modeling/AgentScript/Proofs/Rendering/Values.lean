import AgentScript.Proofs.Rendering.Parsers

/-!
# Rendered values

Every parser of a name, a list or a value mirrors itself. Those that begin with a token that
they do not look at do so where one of a known kind comes.
-/
namespace AgentScript

open Rendered (render)

namespace Value

variable (r : Rendering)

theorem render_ofItems (opener : Option TokenKind) (items : List Value) (l : Location) :
    render r (ofItems opener items l) = ofItems opener (render r items) (render r l) := by
  change list (renderedItems r items) _ _ = _
  rw [renderedItems_eq]
  rfl

theorem render_ofEntries (opener : Option TokenKind) (entries : List (Keyed Value)) (l : Location) :
    render r (ofEntries opener entries l) = ofEntries opener (render r entries) (render r l) := by
  change dictionary (renderedEntries r entries) _ _ = _
  rw [renderedEntries_eq]
  rfl

variable {r} {t marker code : Token}

theorem render_ofStringToken (h : (render r t).text = t.text) :
    ofStringToken (render r t) = render r (ofStringToken t) := by
  unfold ofStringToken
  rw [h]
  rfl

theorem render_ofAtomToken (h : (render r t).text = t.text) :
    ofAtomToken (render r t) = render r (ofAtomToken t) := by
  unfold ofAtomToken
  rw [h]
  rfl

theorem render_ofNumberToken (h : (render r t).text = t.text) :
    ofNumberToken (render r t) = (ofNumberToken t).map (render r) := by
  unfold ofNumberToken
  rw [h]
  cases readFloat? t.text <;> rfl

theorem render_ofLiteralToken? (r : Rendering) (t : Token) :
    ofLiteralToken? (render r t) = (ofLiteralToken? t).map (render r) := by
  obtain ⟨kind, text, start, stop⟩ := t
  cases kind with
  | literal word => cases word <;> rfl
  | _ => rfl

theorem render_ofMarker (h : (render r marker).text = marker.text) :
    ofExpression (render r marker) none = render r (ofExpression marker none) := by
  unfold ofExpression
  rw [h]
  rfl

theorem render_ofExpression (h : (render r marker).text = marker.text)
    (hcode : (render r code).text = code.text) :
    ofExpression (render r marker) (some (render r code)) =
      render r (ofExpression marker (some code)) := by
  change expression _ (render r code).text
    (some ((render r marker.location).cover (render r code.location))) = _
  rw [h, hcode, ← r.render_cover]
  rfl

theorem render_ofCodeBlock (h : (render r marker).text = marker.text) (lines : List String)
    (l : Location) :
    ofCodeBlock (render r marker) lines (render r l) = render r (ofCodeBlock marker lines l) := by
  unfold ofCodeBlock
  rw [h]
  rfl

end Value

namespace Parser

variable {α : Type} [Rendered α] {r : Rendering} {beyond : List Token} {P : ParserState → Prop}

theorem ne_eof_of {k : TokenKind} (hk : k ≠ .eof) (s : ParserState) (h : P s ∧ s.kind = k) :
    s.kind ≠ .eof := by rwa [h.2]

theorem onLine_of {k : TokenKind} (hk : k ≠ .eof) (hk' : k ≠ .newline) (s : ParserState)
    (h : P s ∧ s.kind = k) : s.OnLine := ⟨by rwa [h.2], by rwa [h.2]⟩

theorem onLine_of_isWordlike {k : TokenKind} (hk : k.isWordlike = true) (s : ParserState)
    (h : P s ∧ s.kind = k) : s.OnLine := by
  constructor <;> rw [h.2] <;> rintro rfl <;> exact nomatch hk

theorem mirrors_takeString {what : String} :
    Mirrors r beyond P (takeString what) (takeString what) := by
  refine .expect_word (by decide) (by decide) fun t ht => ?_
  rw [ht]
  exact .pure _

theorem mirrors_takeName {what : String} :
    Mirrors r beyond P (takeName what) (takeName what) := by
  refine .kind fun k => .ite (fun hk => ?_) fun _ => .unexpected
  refine .advance_word (onLine_of_isWordlike hk) fun t ht => ?_
  rw [ht]
  exact .pure _

theorem mirrors_takeSectionName {what : String} :
    Mirrors r beyond P (takeSectionName what) (takeSectionName what) :=
  .check (.pure _) (.bind mirrors_takeName fun _ => .pure _)

theorem mirrors_takeOptionalName : Mirrors r beyond P takeOptionalName takeOptionalName := by
  refine .kind fun k => .ite (fun hk => ?_) fun _ => .pure _
  refine .advance_word (fun s hs => ?_) fun t ht => ?_
  · constructor <;> rw [hs.2] <;> rintro rfl <;> exact nomatch hk
  · rw [ht]
    exact .pure _

section

variable {p : Parser α} [Proceeds p] (h : Mirrors r beyond (fun _ => True) p p)

include h

theorem mirrors_optionally {k : TokenKind} (hk : k ≠ .eof) :
    Mirrors r beyond P (optionally k p) (optionally k p) :=
  .bind (.eat hk) fun _ => .ite (fun _ => .bind h fun _ => .pure _) fun _ => .pure _

theorem mirrors_eachAfter {k : TokenKind} (hk : k ≠ .eof) (fuel : Nat) :
    Mirrors r beyond P (eachAfter k p fuel) (eachAfter k p fuel) := by
  induction fuel generalizing P with
  | zero => exact .pure []
  | succ fuel ih =>
    refine .bind (.eat hk) fun _ => .ite (fun _ => ?_) fun _ => .pure _
    exact .bind h fun _ => .bind ih fun _ => .pure _

theorem ItemLoop.mirrors {close : TokenKind} {run : Nat → Parser (List α)}
    (hrun : ItemLoop close p run) (fuel : Nat) : Mirrors r beyond P (run fuel) (run fuel) := by
  induction fuel generalizing P with
  | zero =>
    rw [hrun.zero]
    exact .pure []
  | succ fuel ih =>
    rw [hrun.succ]
    have := hrun.proceeds fuel
    refine .check (.pure _) (.bind h.any fun a => .bind (.eat (by decide)) fun _ => ?_)
    exact .ite (fun _ => .bind ih fun _ => .pure _) fun _ => .pure _

theorem mirrors_followers {k : TokenKind} (hk : k ≠ .eof) :
    Mirrors r beyond P (followers k p) (followers k p) :=
  .lineLeft fun fuel => mirrors_eachAfter h hk fuel

theorem mirrors_separated {first : Parser α} [Proceeds first]
    (hfirst : Mirrors r beyond (fun _ => True) first first) {k : TokenKind} (hk : k ≠ .eof) :
    Mirrors r beyond P (separated k first p) (separated k first p) :=
  .bind hfirst.any fun _ => .bind (mirrors_followers h hk) fun _ => .pure _

end

theorem mirrors_takeText {k : TokenKind} (hk : k ≠ .eof) (hk' : k ≠ .newline) :
    Mirrors r beyond P (takeText k) (takeText k) := by
  refine .check (.advance_word (onLine_of hk hk') fun t ht => ?_) (.pure _)
  rw [ht]
  exact .pure _

theorem mirrors_tagModifier : Mirrors r beyond P tagModifier tagModifier :=
  .bind (.eat (by decide)) fun _ =>
    .ite (fun _ => mirrors_takeText (by decide) (by decide)) fun _ => .pure _

theorem mirrors_typeTag : Mirrors r beyond P typeTag typeTag := by
  refine .bind (.expect (by nofun)) fun start =>
    .fixed (mirrors_takeText (by decide) (by decide)) fun name => ?_
  refine .fixed (mirrors_takeText (by decide) (by decide)) fun value =>
    .fixed mirrors_tagModifier fun modifier => ?_
  exact .bind (.expect (by nofun)) fun _ => .bind .spanFrom fun _ => .pure _

theorem startsMember_rendered {s : ParserState} (hs : s.Closed) :
    startsMember (s.rendered r beyond) = startsMember s := by
  unfold startsMember
  rw [ParserState.kind_rendered]
  by_cases hdot : s.kind = .dot
  · rw [hs.kind_ahead_one (by simp [hdot])]
  · rw [beq_eq_false_iff_ne.mpr hdot, Bool.false_and, Bool.false_and]

theorem mirrors_members (fuel : Nat) : Mirrors r beyond P (members fuel) (members fuel) := by
  induction fuel generalizing P with
  | zero => exact .pure []
  | succ fuel ih =>
    refine .look (fun s hs _ => startsMember_rendered hs) fun b =>
      .ite (fun hb => ?_) fun _ => .pure _
    subst hb
    have hnext {s : ParserState} (h : P s ∧ startsMember s = true) := startsMember_iff.mp h.2
    refine (Mirrors.advance fun s hs => by simp [(hnext hs).1]).bindOk fun s t u hs heq => ?_
    cases heq
    have hline : s.advance.OnLine := by
      constructor <;> rcases (hnext hs).2 with h | h <;> simp [h]
    refine .advance_word (by rintro _ rfl; exact hline) fun t ht => ?_
    rw [ht]
    exact .fixed ih fun _ => .pureFixed _

theorem mirrors_identifier (hP : ∀ s, P s → s.OnLine) :
    Mirrors r beyond P identifier identifier := by
  refine .advance_word hP fun first hfirst => ?_
  rw [hfirst]
  exact .lineLeft fun fuel => .fixed (mirrors_members fuel) fun _ =>
    .bind .spanFrom fun _ => .pure _

theorem mirrors_entryKey : Mirrors r beyond P entryKey entryKey :=
  .check mirrors_takeString mirrors_takeName

section

variable {item : Parser Value} [Proceeds item] (h : Mirrors r beyond (fun _ => True) item item)

include h

theorem mirrors_inlineList (bracket : Bracket) (what : String) (hP : ∀ s, P s → s.kind ≠ .eof) :
    Mirrors r beyond P (inlineList item bracket what) (inlineList item bracket what) := by
  refine .bind (.advance hP) fun opener => .lineLeft fun fuel => ?_
  refine .bind ((itemLoop_listItems item _).mirrors h _) fun items =>
    .bind (.expect (by nofun)) fun _ => ?_
  refine .bind .spanFrom fun l => ?_
  rw [← Value.render_ofItems]
  exact .pure _

theorem mirrors_keyed {key : Parser String} [Proceeds key]
    (hkey : Mirrors r beyond (fun _ => True) key key) (colon : String) :
    Mirrors r beyond P (keyed key colon item) (keyed key colon item) := by
  refine .peek fun start => .bind hkey.any fun _ => .bind (.expect (by nofun)) fun _ => ?_
  exact .bind h fun _ => .bind .spanFrom fun _ => .pure _

theorem mirrors_inlineEntry : Mirrors r beyond P (inlineEntry item) (inlineEntry item) :=
  mirrors_keyed h mirrors_entryKey _

theorem mirrors_inlineDictionary (hP : ∀ s, P s → s.kind ≠ .eof) :
    Mirrors r beyond P (inlineDictionary item) (inlineDictionary item) := by
  refine .bind (.advance hP) fun opener => .lineLeft fun fuel => ?_
  refine .bind ((itemLoop_dictionaryEntries item).mirrors (mirrors_inlineEntry h) _) fun items =>
    .bind (.expect (by nofun)) fun _ => ?_
  refine .bind .spanFrom fun l => ?_
  rw [← Value.render_ofEntries]
  exact .pure _

end

theorem mirrors_expression (hP : ∀ s, P s → s.OnLine) :
    Mirrors r beyond P expression expression := by
  refine .advance_word hP fun marker hmarker => ?_
  refine .check (.advance_word (onLine_of (by decide) (by decide)) fun code hcode => ?_) ?_
  · rw [Value.render_ofExpression hmarker hcode]
    exact .pure _
  · rw [Value.render_ofMarker hmarker]
    exact .pure _

theorem mirrors_inlineValueWithin (depth : Nat) :
    Mirrors r beyond P (inlineValueWithin depth) (inlineValueWithin depth) := by
  induction depth generalizing P with
  | zero => exact .unexpected
  | succ depth ih =>
    refine .kind fun k => ?_
    split
    case h_1 =>
      refine .advance_word (onLine_of (by decide) (by decide)) fun t ht => ?_
      rw [Value.render_ofStringToken ht]
      exact .pure _
    case h_2 =>
      exact .advance_word (onLine_of (by decide) (by decide)) fun t ht =>
        .ofNode (Value.render_ofNumberToken ht)
    case h_3 =>
      refine .bind (.advance (ne_eof_of (by simp))) fun t => ?_
      rw [Value.render_ofLiteralToken?]
      cases Value.ofLiteralToken? t with
      | none => exact .unexpected
      | some v => exact .pure v
    case h_4 =>
      refine .advance_word (onLine_of (by decide) (by decide)) fun t ht => ?_
      rw [Value.render_ofAtomToken ht]
      exact .pure _
    case h_5 => exact .bind mirrors_typeTag fun _ => .pure _
    case h_6 => exact mirrors_expression (onLine_of (by decide) (by decide))
    case h_7 => exact mirrors_inlineList ih _ _ (ne_eof_of (by decide))
    case h_8 => exact mirrors_inlineList ih _ _ (ne_eof_of (by decide))
    case h_9 => exact mirrors_inlineDictionary ih (ne_eof_of (by decide))
    case h_10 => exact mirrors_identifier (onLine_of (by decide) (by decide))
    case h_11 => exact mirrors_identifier (onLine_of (by decide) (by decide))
    case h_12 => exact .unexpected

theorem mirrors_inlineValue : Mirrors r beyond P inlineValue inlineValue :=
  .lineLeft fun _ => mirrors_inlineValueWithin _

theorem mirrors_contentLines {k : TokenKind} (hk : k ≠ .eof) (hk' : k ≠ .newline) (fuel : Nat) :
    Mirrors r beyond P (contentLines k fuel) (contentLines k fuel) := by
  induction fuel generalizing P with
  | zero => exact .pure []
  | succ fuel ih =>
    refine .check (.advance_word (onLine_of hk hk') fun t ht => ?_) (.pure _)
    rw [ht]
    exact .fixed ih fun _ => .pureFixed _

theorem mirrors_content {k : TokenKind} (hk : k ≠ .eof) (hk' : k ≠ .newline) :
    Mirrors r beyond P (content k) (content k) :=
  .lineLeft fun fuel => mirrors_contentLines hk hk' fuel

section

variable {value : Parser Value} [Proceeds value] (h : Mirrors r beyond (fun _ => True) value value)

include h

theorem mirrors_listLine : LineParser.Mirrors r beyond P (listLine value) :=
  .thenFinish (.item (.bind (.expect (by decide)) fun _ => h))

theorem mirrors_keyedLine (key colon : String) :
    Mirrors r beyond P (keyedLine key colon value) (keyedLine key colon value) :=
  .bind (mirrors_keyed h mirrors_takeName _) fun _ => .bind .finishLine fun _ => .pure _

theorem mirrors_dictionaryLine : LineParser.Mirrors r beyond P (dictionaryLine value) :=
  .item (mirrors_keyedLine h _ _)

theorem mirrors_blockList : Mirrors r beyond P (blockList value) (blockList value) := by
  refine .peek fun start => .bind (.blockLines (mirrors_listLine h) []) fun items => ?_
  refine .bind .spanFrom fun l => ?_
  rw [← Value.render_ofItems]
  exact .pure _

theorem mirrors_blockDictionary :
    Mirrors r beyond P (blockDictionary value) (blockDictionary value) := by
  refine .peek fun start => .bind (.blockLines (mirrors_dictionaryLine h) []) fun entries => ?_
  refine .bind .spanFrom fun l => ?_
  rw [← Value.render_ofEntries]
  exact .pure _

end

theorem mirrors_multilineString (chomping : Chomping) (hP : ∀ s, P s → s.kind ≠ .eof) :
    Mirrors r beyond P (multilineString chomping) (multilineString chomping) := by
  refine .bind (.advance hP) fun start =>
    .fixed (mirrors_content (by decide) (by decide)) fun lines => ?_
  exact .bind .spanFrom fun _ => .pure _

theorem mirrors_codeBlock (hP : ∀ s, P s → s.OnLine) :
    Mirrors r beyond P codeBlock codeBlock := by
  refine .advance_word hP fun marker hmarker =>
    .fixed (mirrors_content (by decide) (by decide)) fun lines => ?_
  refine .bind .spanFrom fun l => ?_
  rw [Value.render_ofCodeBlock hmarker]
  exact .pure _

theorem mirrors_valueWithin (depth : Nat) :
    Mirrors r beyond P (valueWithin depth) (valueWithin depth) := by
  induction depth generalizing P with
  | zero => exact .unexpected
  | succ depth ih =>
    refine .kind fun k => ?_
    split
    case h_1 =>
      refine .checkNext (ne_eof_of (by decide)) ?_ mirrors_inlineValue
      refine (Mirrors.advance fun s hs => by simp [hs.1.2]).bindOk fun s t u hs heq => ?_
      cases heq
      have hnext : s.advance.kind ≠ .eof := by simp [ParserState.kind_advance, hs.2]
      refine .bind (.advance (by rintro _ rfl; exact hnext)) fun _ => ?_
      exact .check (mirrors_blockList ih) (mirrors_blockDictionary ih)
    case h_2 => exact mirrors_multilineString _ (ne_eof_of (by simp))
    case h_3 => exact mirrors_codeBlock (onLine_of (by decide) (by decide))
    case h_4 => exact mirrors_inlineValue

/-- The depth of a value is bounded by the tokens to come, behind the end of input or not. -/
theorem mirrors_value : Mirrors r beyond P value value := by
  constructor
  intro s hs hP
  have hbound : (s.rendered r beyond).remaining < s.remaining + beyond.length + 1 := by simp
  rw [value_eq hbound, value_eq (show s.remaining < s.remaining + beyond.length + 1 by omega)]
  exact (mirrors_valueWithin _).reads s hs hP

end Parser

end AgentScript
