import AgentScript.Proofs.Sentences.Recognition

/-!
# Sentences that are inline values

The parsers for names, tags, expressions and collections recognize the parts of the grammar that
they are for. The depth of nesting that the parser for values is given bounds the depth of the
sentences; on a line it is given as much as the line can hold.
-/
namespace AgentScript

open FlowGrammar ParserState Computability

variable {α : Type} {L V : KindLanguage} {kinds : List TokenKind} {k : TokenKind}
  {follow : TokenKind → Prop} {s : ParserState}

namespace FlowGrammar

/-- Nothing that a value could go on with. -/
def MayFollowValue (k : TokenKind) : Prop := k ≠ .dot ∧ k ≠ .embeddedCode

/-- The values that begin with a token of the kind. -/
def valueFrom (V : KindLanguage) : TokenKind → KindLanguage
  | .string => one .string
  | .number => one .number
  | .literal _ => literal
  | .atom => one .atom
  | .lt => typeTag
  | .embeddedMarker => expression
  | .properWord | .commonNoun => identifier
  | .opening .paren => bracketed .paren (commaSeparated V)
  | .opening .square => bracketed .square (commaSeparated V)
  | .opening .curly => bracketed .curly (commaSeparated (entry V))
  | _ => 0

theorem name_eq : name = oneThat fun k => k = .properWord ∨ k = .commonNoun := by
  rw [name, ← oneThat_eq, ← oneThat_eq, oneThat_add]

theorem mem_of_valueFrom (h : kinds ∈ valueFrom V k) : kinds ∈ inlineValueOver V := by
  simp only [inlineValueOver, Language.mem_add]
  unfold valueFrom at h
  split at h
  case h_12 => exact absurd h (Language.notMem_zero kinds)
  all_goals simp only [h, true_or, or_true]

theorem mem_valueFrom (h : kinds ∈ inlineValueOver V)
    (hk : kinds = [] ∨ ∃ more, kinds = k :: more) : kinds ∈ valueFrom V k := by
  have hfirst {P : TokenKind → Prop} {L : KindLanguage} (hL : Starts P L) (h : kinds ∈ L) :
      P k := by
    obtain ⟨k', more, rfl, hk'⟩ := hL kinds h
    rcases hk with hnil | ⟨more, hcons⟩
    · exact nomatch hnil
    · cases hcons
      exact hk'
  have hone {k : TokenKind} : Starts (· = k) (one k) := starts_one rfl
  have hname : Starts (fun k => k = .properWord ∨ k = .commonNoun) identifier := by
    rw [identifier, name_eq]
    exact (starts_oneThat fun _ hk => hk).mul _
  have hbracketed {b : Bracket} {L : KindLanguage} : Starts (· = .opening b) (bracketed b L) :=
    (hone.mul _).mul _
  have htag : Starts (· = .lt) typeTag := (((hone.mul _).mul _).mul _).mul _
  have hexpression : Starts (· = .embeddedMarker) expression := hone.mul _
  rcases h with ((((((((h | h) | h) | h) | h) | h) | h) | h) | h) | h
  · cases hfirst hone h
    exact h
  · cases hfirst hone h
    exact h
  · have hk := hfirst (starts_oneThat fun _ hk => hk) h
    cases k <;> first | exact h | exact nomatch hk
  · cases hfirst hone h
    exact h
  · cases hfirst htag h
    exact h
  · cases hfirst hexpression h
    exact h
  · rcases hfirst hname h with rfl | rfl
    · exact h
    · exact h
  · cases hfirst hbracketed h
    exact h
  · cases hfirst hbracketed h
    exact h
  · cases hfirst hbracketed h
    exact h

end FlowGrammar

namespace Parser

theorem recognizes_takeText (hword : k.isStructural = false) (hnumber : k ≠ .number)
    (hfollow : ¬ follow k) : (takeText k).Recognizes (atMostOne (one k)) follow := by
  have h := recognizes_check (L := 1) (M := 1) hword hnumber
    (fun t => recognizes_pure (some t.text)) (recognizes_pure none)
    fun h => hfollow (first_epsilon.mp h)
  rwa [mul_one] at h

theorem recognizes_tagModifier (hfollow : ¬ follow .pipe) (hfollow' : ¬ follow .typeTagModifier) :
    tagModifier.Recognizes (atMostOne (one .pipe * atMostOne (one .typeTagModifier))) follow := by
  rw [tagModifier, eat_bind_eq]
  exact recognizes_check rfl (by decide) (fun _ => recognizes_takeText rfl (by decide) hfollow')
    (recognizes_pure none) fun h => hfollow (first_epsilon.mp h)

theorem recognizes_typeTag : typeTag.Recognizes FlowGrammar.typeTag follow := by
  have hclose : ∀ k, First (one .gt) follow k → k = .gt := fun _ h => h.one
  have hmodifier : ∀ k, First (atMostOne (one .pipe * atMostOne (one .typeTagModifier)) * one .gt)
      follow k → k = .gt ∨ k = .pipe := fun k h =>
    h.mul.atMostOne.imp (hclose k) First.one_mul
  have hvalue : ∀ k, First (atMostOne (one .typeTagValue) *
      (atMostOne (one .pipe * atMostOne (one .typeTagModifier)) * one .gt)) follow k →
      (k = .gt ∨ k = .pipe) ∨ k = .typeTagValue :=
    fun k h => h.mul.atMostOne_one.imp_left (hmodifier k)
  unfold FlowGrammar.typeTag
  simp only [mul_assoc]
  refine (recognizes_expect rfl (by decide) _).bind fun start => ?_
  refine (recognizes_takeText rfl (by decide) ?_).bind fun name => ?_
  · intro h
    simpa using hvalue _ h
  refine (recognizes_takeText rfl (by decide) ?_).bind fun value => ?_
  · intro h
    simpa using hmodifier _ h
  refine (recognizes_tagModifier ?_ ?_).bind fun modifier => ?_
  · intro h
    simpa using hclose _ h
  · intro h
    simpa using hclose _ h
  refine (recognizes_expect rfl (by decide) _).bind_last fun _ => ?_
  exact recognizes_spanFrom fun location => recognizes_pure _

theorem recognizesAt_name (hname : s.kind = .properWord ∨ s.kind = .commonNoun)
    {f : Token → Parser α} {good : α → Prop}
    (h : (f s.current).RecognizesAt s.advance L follow good) :
    (advance >>= f).RecognizesAt s (name * L) follow good := by
  have hword : s.kind.isStructural = false := by
    rcases hname with hk | hk <;> rw [hk] <;> rfl
  have hnumber : s.kind ≠ .number := by
    rcases hname with hk | hk <;> rw [hk] <;> decide
  rw [name_eq]
  exact h.advanceThat hname hword hnumber

/-- The names behind the points of a name. -/
theorem recognizesAt_members {fuel : Nat} (he : s.ending.kind = .eof) (hfuel : s.lineLeft ≤ fuel)
    (hfollow : ¬ follow .dot) :
    (members fuel).RecognizesAt s (one .dot * name)∗ follow fun _ => True := by
  induction fuel generalizing s with
  | zero =>
    exact recognizesAt_pure_of_lineLeft he (Nat.le_zero.mp hfuel) (Language.nil_mem_kstar _)
  | succ fuel ih =>
    rw [← Language.one_add_self_mul_kstar_eq_kstar, mul_assoc, members]
    refine .branch (fun h => ⟨?_, ?_⟩) fun h => ⟨recognizesAt_pure trivial, ?_⟩
    · obtain ⟨hdot, hname⟩ := startsMember_iff.mp h
      have he' : s.advance.ending.kind = .eof := by simpa using he
      have hfirst := lineLeft_advance he (by rw [hdot]; rfl)
      have hsecond := lineLeft_advance he' (by rcases hname with hk | hk <;> rw [hk] <;> rfl)
      refine .advance hdot rfl (by decide) (recognizesAt_name hname ?_)
      have hlater := ih (s := s.advance.advance) (by simpa using he) (by omega)
      refine hlater.bind_last fun rest t _ => ?_
      exact recognizesAt_pure trivial
    · exact lacks_of_first fun hnone => hfollow ((startsMember_iff.mp h).1 ▸ first_epsilon.mp hnone)
    · intro kinds hkinds t ht _
      obtain ⟨_, rfl, later, hlater, rfl⟩ := Language.mem_mul.mp hkinds
      rw [name_eq] at hlater
      obtain ⟨_, ⟨k, hname, rfl⟩, _, _, rfl⟩ := Language.mem_mul.mp hlater
      obtain ⟨hdot, -, -, ht⟩ := ht.uncons
      have hmember := startsMember_iff.mpr ⟨hdot, ht.uncons.1 ▸ hname⟩
      simp [hmember] at h

theorem recognizesAt_identifier (he : s.ending.kind = .eof)
    (hname : s.kind = .properWord ∨ s.kind = .commonNoun) (hfollow : ¬ follow .dot) :
    identifier.RecognizesAt s FlowGrammar.identifier follow fun _ => True := by
  refine recognizesAt_name hname (.look ?_)
  have he' : s.advance.ending.kind = .eof := by simpa using he
  refine (recognizesAt_members he' (Nat.le_refl _) hfollow).bind_last fun rest t ht => ?_
  exact recognizes_spanFrom (fun location => recognizes_pure _) t (ht ▸ he')

theorem recognizesAt_expression (hk : s.kind = .embeddedMarker) (hfollow : ¬ follow .embeddedCode) :
    expression.RecognizesAt s FlowGrammar.expression follow fun _ => True := by
  rw [FlowGrammar.expression, atMostOne, ← mul_one (one .embeddedCode)]
  refine .advance hk rfl (by decide) (.check rfl (by decide) (fun _ => ?_) ?_ ?_)
  · exact recognizesAt_pure trivial
  · exact recognizesAt_pure trivial
  · exact fun h => hfollow (first_epsilon.mp h)

/-- Items with commas between them, up to the token before the end. Both loops over items are of
this form. -/
theorem recognizesAt_items {item : Parser α} {items : Nat → Parser (List α)} {close : TokenKind}
    (hitems : ∀ n, items (n + 1) = (check close >>= fun c => if c = true then pure [] else
      item >>= fun a => eat .comma >>= fun c => if c = true then
        items n >>= fun rest => pure (a :: rest) else pure [a]))
    (hitem : item.Recognizes L MayFollowValue) (hstart : Starts (· ≠ close) L)
    (hclose : MayFollowValue close) (hcomma : close ≠ .comma) {fuel : Nat}
    (he : s.ending.kind = .eof) (hfuel : s.lineLeft < fuel) :
    (items fuel).RecognizesAt s (commaSeparated L) (· = close) fun _ => True := by
  induction fuel generalizing s with
  | zero => exact absurd hfuel (Nat.not_lt_zero _)
  | succ fuel ih =>
    have hends : ∀ k, First (1 + one .comma * commaSeparated L) (· = close) k →
        MayFollowValue k := by
      intro k h
      rcases h.atMostOne with rfl | h
      · exact hclose
      · rw [h.one_mul]
        exact ⟨by decide, by decide⟩
    rw [hitems, commaSeparated_eq, add_comm]
    refine .branch (g := fun s => s.kind == close) (fun hk => ⟨?_, ?_⟩) fun hk => ⟨?_, ?_⟩
    · exact recognizesAt_pure trivial
    · exact lacks_of_first fun h => h.mul.of_starts hstart (eq_of_beq hk)
    · refine ((hitem s he).narrow hends).bind (fun a t kinds _ ht => ?_) fun _ _ _ _ _ _ => trivial
      have hleft := ht.lineLeft_eq he
      have he' := ht.takes.ending_kind he
      rw [eat_bind_eq]
      refine .check rfl (by decide) (fun hk => ?_) (recognizesAt_pure trivial) fun h =>
        hcomma (first_epsilon.mp h).symm
      have hnext := lineLeft_advance he' (by rw [hk]; rfl)
      have hlater := ih (s := t.advance) (by simpa using he') (by omega)
      refine hlater.bind_last fun rest u _ => ?_
      exact recognizesAt_pure trivial
    · exact lacks_of_first fun h => by simp [first_epsilon.mp h] at hk

/-- Brackets around items. -/
theorem recognizesAt_bracketed {b : Bracket} {items : Nat → Parser α} {what : String}
    {f : Token → α → Parser Value} (hk : s.kind = .opening b) (he : s.ending.kind = .eof)
    (hitems : ∀ (t : ParserState) fuel, t.ending.kind = .eof → t.lineLeft < fuel →
      (items fuel).RecognizesAt t L (· = .closing b) fun _ => True)
    (hf : ∀ t a, (f t a).Recognizes 1 follow) :
    (advance >>= fun opener => lineLeft >>= fun n => items (n + 1) >>= fun a =>
      expect (.closing b) what >>= fun _ => f opener a).RecognizesAt s (bracketed b L) follow
      fun _ => True := by
  have he' : s.advance.ending.kind = .eof := by simpa using he
  rw [bracketed, mul_assoc]
  refine .advance hk rfl (by simp) (.look ?_)
  have hclose : (items (s.advance.lineLeft + 1)).RecognizesAt s.advance L
      (First (one (.closing b)) follow) fun _ => True :=
    (hitems s.advance _ he' (Nat.lt_succ_self _)).narrow fun k h => h.one
  refine hclose.bind (fun a t kinds _ ht => ?_) fun _ _ _ _ _ _ => trivial
  have hexpect : (expect (.closing b) what).Recognizes (one (.closing b)) follow :=
    recognizes_expect rfl (by simp) what
  exact (hexpect.bind_last fun _ => hf _ a) t (ht.takes.ending_kind he')

theorem recognizesAt_inlineList {item : Parser Value} {b : Bracket} (what : String)
    (hk : s.kind = .opening b) (he : s.ending.kind = .eof)
    (hitem : item.Recognizes V MayFollowValue) (hstart : Starts MayStartValue V) :
    (inlineList item b what).RecognizesAt s (bracketed b (commaSeparated V)) follow
      fun _ => True := by
  refine recognizesAt_bracketed hk he (fun t fuel ht hfuel => ?_) fun t a =>
    recognizes_spanFrom fun location => recognizes_pure _
  refine recognizesAt_items (fun _ => rfl) hitem ?_ ⟨by simp, by simp⟩ (by simp) ht hfuel
  intro kinds hkinds
  obtain ⟨k, more, rfl, hbegins⟩ := hstart kinds hkinds
  exact ⟨k, more, rfl, fun h => by simp [h, MayStartValue] at hbegins⟩

theorem recognizes_keyed {key : Parser String} {value : Parser Value} {K : KindLanguage}
    (hkey : key.Recognizes K fun _ => True) (colon : String) (hvalue : value.Recognizes V follow) :
    (keyed key colon value).Recognizes (K * one .colon * V) follow := by
  rw [mul_assoc]
  refine recognizes_peek fun start => ?_
  refine (hkey.narrow fun _ _ => trivial).bind fun key => ?_
  refine (recognizes_expect rfl (by decide) colon).bind fun _ => ?_
  refine hvalue.bind_last fun v => ?_
  exact recognizes_spanFrom fun location => recognizes_pure _

theorem recognizes_entryKey : entryKey.Recognizes (one .string + word) follow := by
  intro s he
  rw [add_comm]
  refine .branch (g := fun s => s.kind == .string)
    (fun hk => ⟨recognizes_takeString _ s he, ?_⟩) fun hk => ⟨recognizes_takeName _ s he, ?_⟩
  · refine lacks_of_first fun h => ?_
    have hword := h.of_starts (P := (·.isWordlike = true)) (starts_oneThat fun _ hk => hk)
    rw [eq_of_beq hk] at hword
    exact nomatch hword
  · exact lacks_of_first fun h => by simp [h.one] at hk

theorem recognizesAt_inlineDictionary {item : Parser Value} (hk : s.kind = .opening .curly)
    (he : s.ending.kind = .eof) (hitem : item.Recognizes V MayFollowValue) :
    (inlineDictionary item).RecognizesAt s (bracketed .curly (commaSeparated (entry V))) follow
      fun _ => True := by
  refine recognizesAt_bracketed hk he (fun t fuel ht hfuel => ?_) fun t a =>
    recognizes_spanFrom fun location => recognizes_pure _
  have hentry : (inlineEntry item).Recognizes (entry V) MayFollowValue :=
    recognizes_keyed recognizes_entryKey _ hitem
  refine recognizesAt_items (fun _ => rfl) hentry ?_ ⟨by simp, by simp⟩ (by simp) ht hfuel
  have hkey : Starts (· ≠ .closing .curly) (one .string + word) :=
    (starts_one (by simp)).add (starts_oneThat fun k hword h => by
      rw [h] at hword
      exact nomatch hword)
  exact (hkey.mul _).mul _

theorem recognizesAt_token {f : Token → Parser α} (hk : s.kind = k) (hword : k.isStructural = false)
    (hnumber : k ≠ .number) (hf : (f s.current).RecognizesAt s.advance 1 follow fun _ => True) :
    (advance >>= f).RecognizesAt s (one k) follow fun _ => True := by
  rw [← mul_one (one k)]
  exact .advance hk hword hnumber hf

theorem recognizesAt_literal {w : LiteralWord} (hk : s.kind = .literal w) :
    (advance >>= fun t => match Value.ofLiteralToken? t with
      | some v => pure v
      | none => unexpected "value").RecognizesAt s literal follow fun _ => True := by
  have hliteral : ∃ v, Value.ofLiteralToken? s.current = some v := by
    unfold Value.ofLiteralToken?
    rw [← ParserState.kind, hk]
    cases w with
    | boolean b => exact ⟨_, rfl⟩
    | null => exact ⟨_, rfl⟩
  obtain ⟨v, hv⟩ := hliteral
  rw [literal, ← mul_one (oneThat _)]
  refine .advanceThat (by rw [hk]; rfl) (by rw [hk]; rfl) (by rw [hk]; simp) ?_
  rw [hv]
  exact recognizesAt_pure trivial

/-- A number is a value where its text can be read. -/
theorem recognizesAt_number (hk : s.kind = .number) :
    (advance >>= fun t => ofNode (Value.ofNumberToken t) t.location).RecognizesAt s (one .number)
      follow fun _ => True := by
  cases hread : readFloat? s.current.text with
  | some x =>
    have hnode : Value.ofNumberToken s.current = .ok (.number x (some s.current.location)) := by
      unfold Value.ofNumberToken
      rw [hread]
    rw [← mul_one (one .number)]
    refine .advanceReadable hk rfl (fun _ => by rw [hread]; rfl) ?_
    rw [hnode]
    exact recognizesAt_pure trivial
  | none =>
    have hnode : Value.ofNumberToken s.current = .error (.invalidNumber s.current.text) := by
      unfold Value.ofNumberToken
      rw [hread]
    constructor
    · intro a t hp
      change ofNode (Value.ofNumberToken s.current) s.current.location s.advance = _ at hp
      rw [hnode] at hp
      exact nomatch hp
    · rintro _ t rfl ht -
      have hsome := ht.uncons.2.2.1 hk
      rw [hread] at hsome
      exact nomatch hsome

/-- The induction is on the depth; what stands in a collection is one level deeper. -/
theorem recognizes_inlineValueWithin (depth : Nat) :
    (inlineValueWithin depth).Recognizes (FlowGrammar.inlineValueWithin depth) MayFollowValue := by
  induction depth with
  | zero => exact recognizes_unexpected _
  | succ depth ih =>
    intro s he
    have hstart := starts_inlineValueWithin depth
    refine .congr (L := valueFrom (FlowGrammar.inlineValueWithin depth) s.kind) (.look ?_)
      (fun _ => mem_of_valueFrom) fun _ => mem_valueFrom
    have hname (hk : s.kind = .properWord ∨ s.kind = .commonNoun) :
        identifier.RecognizesAt s FlowGrammar.identifier MayFollowValue fun _ => True :=
      recognizesAt_identifier he hk fun h => h.1 rfl
    cases hk : s.kind
    case string => exact recognizesAt_token hk rfl (by decide) (recognizesAt_pure trivial)
    case number => exact recognizesAt_number hk
    case literal w => exact recognizesAt_literal hk
    case atom => exact recognizesAt_token hk rfl (by decide) (recognizesAt_pure trivial)
    case lt => exact (recognizes_typeTag.bind_last fun tag => recognizes_pure _) s he
    case embeddedMarker => exact recognizesAt_expression hk fun h => h.2 rfl
    case opening b =>
      cases b with
      | paren => exact recognizesAt_inlineList _ hk he ih hstart
      | square => exact recognizesAt_inlineList _ hk he ih hstart
      | curly => exact recognizesAt_inlineDictionary hk he ih
    case properWord => exact hname (.inl hk)
    case commonNoun => exact hname (.inr hk)
    all_goals exact recognizes_unexpected _ s he

/-- On a line the depth is never used up. -/
theorem recognizes_inlineValue : inlineValue.Recognizes FlowGrammar.inlineValue MayFollowValue := by
  intro s he
  refine .look ?_
  have h := recognizes_inlineValueWithin (s.lineLeft + 1) s he
  constructor
  · intro v t hp hgood
    obtain ⟨kinds, hkinds, ht⟩ := h.sound hp hgood
    exact ⟨kinds, inlineValueWithin_le _ hkinds, ht⟩
  · intro kinds t hkinds ht hfollow
    have hlength := ht.lineLeft_eq he
    exact h.complete (mem_inlineValueWithin hkinds (by omega)) ht hfollow

end Parser

end AgentScript
