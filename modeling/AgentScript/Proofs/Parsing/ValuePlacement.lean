import AgentScript.Proofs.Parsing.Building

/-!
# Where values are placed

Every value and every entry is made between its first token and its last, collections
around their items. A block collection begins with the first token of its block, so it is
never empty unless the parse has been halted before, which happens between lines only.
-/
namespace AgentScript.Parser

variable {α : Type} {limit : Nat} {K : ParserState → Prop}

theorem places_eachAfter (separator : TokenKind) {item : Parser α} [Proceeds item]
    {node : α → Node} (h : Places limit (fun _ => True) (fun a => [node a]) item) (fuel : Nat) :
    Places limit K (fun as => as.map node) (eachAfter separator item fuel) := by
  induction fuel generalizing K with
  | zero =>
    apply places_of_builds
    intro lo
    exact .pure (.inr rfl)
  | succ fuel ih =>
    apply places_of_builds
    intro lo
    apply Builds.skip
    intro c
    split_ifs
    · apply Builds.append h
      intro a
      apply Builds.append ih
      intro rest
      exact .pure (.inl (List.mem_cons_self ..))
    · exact .pure (.inr rfl)

theorem places_separated (separator : TokenKind) {item : Parser α} [Proceeds item]
    {node : α → Node} (h : Places limit (fun _ => True) (fun a => [node a]) item) :
    Places limit K (fun as => as.map node) (separated separator item item) := by
  apply places_of_builds
  intro lo
  apply Builds.append (h.restrict fun _ _ => trivial)
  intro a
  apply Builds.append (.skip fun n => places_eachAfter separator h n)
  intro rest
  exact .pure (.inl (List.mem_cons_self ..))

theorem places_typeTag : Places limit K (fun t => [t.node]) typeTag := by
  apply places_of_expect rfl
  intro start
  apply Builds.skip
  intro name
  apply Builds.skip
  intro value
  apply Builds.skip
  intro modifier
  apply Builds.skip
  intro _
  apply Builds.span [] (by simp)
  intro l s t tag h
  cases h
  rfl

theorem places_identifier :
    Places limit (fun s => s.kind.isStructural = false) (fun v => [v.node]) identifier := by
  apply places_of_advance (fun _ h => h)
  intro first
  apply Builds.skip
  intro n
  apply Builds.skip
  intro rest
  apply Builds.span [] (by simp)
  intro l s t v h
  cases h
  rfl

theorem ItemLoop.places {close : TokenKind} {item : Parser α} [Proceeds item]
    {run : Nat → Parser (List α)} (hrun : ItemLoop close item run) {node : α → Node}
    (h : Places limit (fun _ => True) (fun a => [node a]) item) (fuel : Nat) :
    Places limit K (fun as => as.map node) (run fuel) := by
  induction fuel generalizing K with
  | zero =>
    rw [hrun.zero]
    exact places_pure rfl
  | succ fuel ih =>
    rw [hrun.succ]
    have := hrun.proceeds fuel
    apply places_of_builds
    intro lo
    apply Builds.skip
    intro c
    split_ifs
    · exact .pure (.inr rfl)
    · apply Builds.append h
      intro v
      apply Builds.skip
      intro c
      split_ifs
      · apply Builds.append ih
        intro rest
        exact .pure (.inl (List.mem_cons_self ..))
      · exact .pure (.inl (List.mem_cons_self ..))

theorem places_inlineList {item : Parser Value} [Proceeds item]
    (h : Places limit (fun _ => True) (fun v => [v.node]) item) (bracket : Bracket)
    (what : String) :
    Places limit (fun s => s.kind.isStructural = false) (fun v => [v.node])
      (inlineList item bracket what) := by
  apply places_of_advance (fun _ h => h)
  intro opener
  apply Builds.skip
  intro n
  apply Builds.row ((itemLoop_listItems item _).places h _)
  intro items
  apply Builds.skip
  intro _
  apply Builds.span [items.map Value.node] (by simp)
  intro l s t v h
  cases h
  rw [Value.ofItems, Value.node, Value.nodes_eq_map]

theorem passesText_entryKey : PassesText K entryKey := by
  intro limit s t a hs hk heq
  have heq' : (if (s.kind == .string) = true then takeString "dictionary key"
    else takeName "dictionary key") s = .ok a t := heq
  split_ifs at heq'
  · exact passesText_takeString _ hs hk heq'
  · exact passesText_takeName _ hs hk heq'

/-- What holds of the state before the parser holds of the state after it. -/
def Keeps (K : ParserState → Prop) (p : Parser α) : Prop :=
  ∀ ⦃s t : ParserState⦄ ⦃a : α⦄, K s → p s = .ok a t → K t

/-- The value under a key may need what the parsers of the key and of the colon keep. -/
theorem places_keyed {key : Parser String} [Proceeds key] (hkey : PassesText K key)
    (hkeep : Keeps K key) {colon : String} (hcolon : Keeps K (expect .colon colon))
    {value : Parser Value} [Proceeds value] (h : Places limit K (fun v => [v.node]) value) :
    Places limit K (fun e => [e.node]) (keyed key colon value) := by
  intro s t e hs hk heq
  obtain ⟨_, _, hpeek, heq⟩ := bind_eq_ok.mp heq
  cases hpeek
  obtain ⟨k, s₁, hk₁, heq⟩ := bind_eq_ok.mp heq
  obtain ⟨_, s₂, hc, heq⟩ := bind_eq_ok.mp heq
  obtain ⟨v, s₃, hv, heq⟩ := bind_eq_ok.mp heq
  have h₁ := (Building.start hs).begin (key.leads_of_ok hk₁) (hkey hs hk hk₁)
  have h₂ := h₁.leads (leads_of_ok _ hc)
  have h₃ := h₂.addRow (value.leads_of_ok hv) (h h₂.ordered (hcolon (hkeep hk hk₁) hc) hv)
  cases heq
  exact Row.span h₃.ordered (h₃.past rfl) h₃.rows

theorem places_inlineEntry {item : Parser Value} [Proceeds item]
    (h : Places limit (fun _ => True) (fun v => [v.node]) item) :
    Places limit K (fun e => [e.node]) (inlineEntry item) := by
  apply (places_keyed passesText_entryKey _ _ h).restrict
  · exact fun _ _ => trivial
  · exact fun _ _ _ _ _ => trivial
  · exact fun _ _ _ _ _ => trivial

theorem places_inlineDictionary {item : Parser Value} [Proceeds item]
    (h : Places limit (fun _ => True) (fun v => [v.node]) item) :
    Places limit (fun s => s.kind.isStructural = false) (fun v => [v.node])
      (inlineDictionary item) := by
  apply places_of_advance (fun _ h => h)
  intro opener
  apply Builds.skip
  intro n
  apply Builds.row ((itemLoop_dictionaryEntries item).places (places_inlineEntry h) _)
  intro entries
  apply Builds.skip
  intro _
  apply Builds.span [entries.map Keyed.node] (by simp)
  intro l s t v h
  cases h
  rw [Value.ofEntries, Value.node, Value.entryNodes_eq_map]

/-- The range of an expression covers the marker and the code, which stand in order. -/
theorem places_expression :
    Places limit (fun s => s.kind.isStructural = false) (fun v => [v.node]) expression := by
  intro s t v hs hk heq
  have happly : expression s = if s.advance.kind = .embeddedCode
      then .ok (.ofExpression s.current (some s.advance.current)) s.advance.advance
      else .ok (.ofExpression s.current none) s.advance := by
    change (if (s.advance.kind == TokenKind.embeddedCode) = true then _ else _ : Parser Value)
      s.advance = _
    by_cases hc : s.advance.kind = .embeddedCode
    · rw [if_pos hc, if_pos (by simpa using hc)]
      rfl
    · rw [if_neg hc, if_neg (by simpa using hc)]
      rfl
  rw [happly] at heq
  split_ifs at heq with hc
  · cases heq
    have hnext := hs.advance
    have hword : s.advance.kind.isStructural = false := by
      rw [hc]
      rfl
    have hstop : s.current.stop.Before s.advance.current.stop :=
      (hnext.before_of_past (hs.past_current hk)).trans hnext.current.1
    have hnode : (Value.ofExpression s.current (some s.advance.current)).node =
        ⟨some ⟨s.current.start, s.advance.current.stop⟩, []⟩ :=
      congrArg (fun l => Node.mk (some l) [])
        (Location.cover_of_before hs.current_before_advance hstop)
    change Row limit s.current.start s.advance.advance [_]
    rw [hnode]
    apply Row.single
    · exact .mk (hs.current.1.trans hstop) hnext.current.2 (by simp) (by simp) (by simp)
    · exact ⟨_, rfl, .refl _, hnext.past_current hword⟩
  · cases heq
    exact Row.token hs hk

theorem node_of_ofLiteralToken? {t : Token} {v : Value} (h : Value.ofLiteralToken? t = some v) :
    v.node = ⟨some t.location, []⟩ := by
  unfold Value.ofLiteralToken? at h
  split at h
  · cases h
    rfl
  · cases h
    rfl
  · exact nomatch h

theorem node_of_ofNumberToken {t : Token} {v : Value} (h : Value.ofNumberToken t = .ok v) :
    v.node = ⟨some t.location, []⟩ := by
  unfold Value.ofNumberToken at h
  split at h
  · cases h
    rfl
  · exact nomatch h

/-- The induction is on the depth; items of a collection are one level deeper. -/
theorem places_inlineValueWithin (depth : Nat) :
    Places limit K (fun v => [v.node]) (inlineValueWithin depth) := by
  induction depth generalizing K with
  | zero => exact places_unexpected _ _
  | succ depth ih =>
    have hat {k : TokenKind} (hk : k.isStructural = false) (s : ParserState)
        (hs : s.kind = k ∧ K s) : s.kind.isStructural = false := by rw [hs.1, hk]
    apply places_kind_bind
    intro k
    split
    · apply places_token (hat rfl)
      intro t s v u h
      cases h
      exact ⟨rfl, rfl⟩
    · apply places_token (hat rfl)
      intro t s v u h
      obtain ⟨hv, rfl⟩ := ofNode_eq_ok.mp h
      exact ⟨rfl, by rw [node_of_ofNumberToken hv]⟩
    · apply places_token (hat rfl)
      intro t s v u h
      cases hw : Value.ofLiteralToken? t with
      | some w =>
        rw [hw] at h
        cases h
        exact ⟨rfl, by rw [node_of_ofLiteralToken? hw]⟩
      | none =>
        rw [hw] at h
        cases h
    · apply places_token (hat rfl)
      intro t s v u h
      cases h
      exact ⟨rfl, rfl⟩
    · exact places_typeTag.map fun _ => rfl
    · exact places_expression.restrict (hat rfl)
    · exact (places_inlineList ih _ _).restrict (hat rfl)
    · exact (places_inlineList ih _ _).restrict (hat rfl)
    · exact (places_inlineDictionary ih).restrict (hat rfl)
    · exact places_identifier.restrict (hat rfl)
    · exact places_identifier.restrict (hat rfl)
    · exact places_unexpected _ _

theorem places_inlineValue : Places limit K (fun v => [v.node]) inlineValue :=
  .skip fun n => places_inlineValueWithin (n + 1)

theorem places_multilineString (chomping : Chomping) :
    Places limit (fun s => s.kind.isStructural = false) (fun v => [v.node])
      (multilineString chomping) := by
  apply places_of_advance (fun _ h => h)
  intro t
  apply Builds.skip
  intro lines
  apply Builds.span [] (by simp)
  intro l s u v h
  cases h
  rfl

theorem places_codeBlock :
    Places limit (fun s => s.kind.isStructural = false) (fun v => [v.node]) codeBlock := by
  apply places_of_advance (fun _ h => h)
  intro marker
  apply Builds.skip
  intro lines
  apply Builds.span [] (by simp)
  intro l s u v h
  cases h
  rfl

end AgentScript.Parser
