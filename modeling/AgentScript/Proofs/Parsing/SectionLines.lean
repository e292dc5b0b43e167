import AgentScript.Proofs.Parsing.MessageLines
import AgentScript.Proofs.Parsing.ValueLines

/-!
# Two parses of the same section

Sections take their header and their block. What an agent does with a section depends on the
parts it has already, of which two parses may know different ones.
-/
namespace AgentScript

open WholeLine

theorem ParserState.ahead_advance (s : ParserState) (n : Nat) :
    s.advance.ahead n = s.ahead (n + 1) := by
  unfold ahead advance
  cases hr : s.rest with
  | nil => simp [hr]
  | cons t rest => simp

namespace Parser

variable {α β : Type} {b : Footing} {K : ParserState → Prop} {s s' : ParserState}

theorem completes_importLine : importLine.Completes K := by
  intro b _
  apply (agrees_advance.restrict fun _ hs => hs.1).thenSteps (Footing.le_refl b)
  intro t
  apply (agrees_separated rfl (agrees_takeName _) (agrees_takeName _)).thenSteps (Footing.le_word b)
  intro path
  apply (agrees_optionally rfl (agrees_takeName _)).thenSteps (Footing.le_word b)
  intro localName
  apply (agrees_optionally rfl (agrees_takeString _)).thenSteps (Footing.le_word b)
  intro source
  apply (agrees_spanFrom _).thenSteps (Footing.le_word b)
  intro location
  exact steps_finish _

theorem completes_mappedRow : mappedRow.Completes K := by
  intro b _
  apply steps_peek_bind
  intro t
  apply (agrees_separated rfl agrees_inlineValue agrees_inlineValue).thenSteps (Footing.le_refl b)
  intro values
  apply (agrees_spanFrom _).thenSteps (Footing.le_word b)
  intro location
  exact steps_finish _

theorem refuses_inlineValue : inlineValue.Refuses := by
  apply Refuses.after 0
  · intro s hk
    have hnone : s.lineLeft = 0 := by
      unfold ParserState.lineLeft
      cases hr : s.rest with
      | nil => rfl
      | cons t rest =>
        have ht : t.kind = .indent := by
          rwa [ParserState.kind, ParserState.current, ParserState.ahead, hr] at hk
        simp [Token.isStructural, ht, TokenKind.isStructural]
    unfold lineLeft look
    rw [hnone]
  · exact refuses_inlineValueWithin _

theorem refuses_mappedRow : mappedRow.Refuses := by
  apply refuses_peek_bind
  intro t _
  exact (refuses_inlineValue.bind _).bind _

theorem steps_mappedType : Steps b (On b K) Beyond mappedType := by
  apply steps_peek_bind
  intro t
  apply (agrees_takeName _).thenSteps (Footing.le_refl b)
  intro name
  apply (agrees_expect rfl _).thenSteps (Footing.le_word b)
  intro _
  apply (agrees_expect rfl _).thenSteps (Footing.le_word b)
  intro _
  apply (agrees_expect rfl _).thenSteps (Footing.le_word b)
  intro _
  apply (agrees_separated rfl (agrees_takeName _) (agrees_takeName _)).thenSteps (Footing.le_word b)
  intro schema
  apply (agrees_expect rfl _).thenSteps (Footing.le_word b)
  intro _
  apply (agrees_expect rfl _).thenSteps (Footing.le_word b)
  intro _
  apply (steps_itemBlock completes_mappedRow refuses_mappedRow []).bind
  intro rows
  apply (steps_spanFrom_beyond _).bind
  intro location
  exact steps_pure _

/-- The third token is looked at only where the first two are words. -/
theorem startsMappedType_eq {L : SharedLine} (h : L.Within b s s')
    (hk : s.kind.isStructural = false) : startsMappedType s = startsMappedType s' := by
  have hnext := h.ahead_one_eq hk
  unfold startsMappedType
  rw [h.kind_eq, hnext]
  by_cases hlist : (s'.ahead 1).kind = .keyword .listWord
  · have hword : s.advance.kind.isStructural = false := by
      rw [s.kind_advance, hnext, hlist]
      rfl
    have hthird := (h.advance hk).ahead_one_eq hword
    rw [s.ahead_advance, s'.ahead_advance] at hthird
    rw [hthird]
  · rw [beq_eq_false_iff_ne.mpr hlist, Bool.and_false, Bool.false_and, Bool.false_and]

theorem completes_settingsLine : settingsLine.Completes K Eq := by
  apply LineParser.completes_choose
  · exact fun _ _ _ _ h hk => startsMappedType_eq h hk
  · apply LineParser.completes_whole
    rintro ⟨attributes, mappedTypes⟩ b hb
    exact steps_mappedType.passed.bind fun m => steps_pure _
  · apply LineParser.completes_whole
    rintro ⟨attributes, mappedTypes⟩ b hb
    exact (completes_attributeEntry b hb).bind fun a => steps_pure _

theorem refuses_settingsLine : settingsLine.Refuses := by
  apply LineParser.refuses_choose
  · intro s hs
    unfold startsMappedType
    rw [ParserState.kind, hs.kind_eq]
    rfl
  · apply LineParser.refuses_whole
    intro t ht
    obtain ⟨e, he⟩ := refuses_attributeEntry t ht
    refine ⟨e, ?_⟩
    rintro ⟨attributes, mappedTypes⟩ s hs
    exact bind_of_error _ (he s hs)

theorem steps_settingsSection :
    Steps b (On b fun s => s.kind.isStructural = false) Beyond settingsSection := by
  apply agrees_advance.thenSteps (Footing.le_refl b)
  intro t
  apply (agrees_takeSectionName _).thenSteps (Footing.le_word b)
  intro name
  apply (agrees_expect rfl _).thenSteps (Footing.le_word b)
  intro _
  apply (steps_block completes_settingsLine refuses_settingsLine _).bind
  rintro ⟨attributes, mappedTypes⟩
  apply (steps_spanFrom_beyond _).bind
  intro location
  exact steps_pure _

theorem steps_flowSection :
    Steps b (On b fun s => s.kind.isStructural = false) Beyond flowSection := by
  apply agrees_advance.thenSteps (Footing.le_refl b)
  intro t
  apply (agrees_takeName _).thenSteps (Footing.le_word b)
  intro name
  apply (agrees_expect rfl _).thenSteps (Footing.le_word b)
  intro _
  apply (steps_itemBlock completes_flowRule refuses_flowRule []).bind
  intro rules
  apply (steps_spanFrom_beyond _).bind
  intro location
  exact steps_pure _

theorem steps_messageSection :
    Steps b (On b fun s => s.kind.isStructural = false) Beyond messageSection := by
  apply agrees_advance.thenSteps (Footing.le_refl b)
  intro t
  apply (agrees_takeSectionName _).thenSteps (Footing.le_word b)
  intro name
  apply (agrees_expect rfl _).thenSteps (Footing.le_word b)
  intro _
  apply (steps_itemBlock completes_message refuses_message []).bind
  intro messages
  apply (steps_spanFrom_beyond _).bind
  intro location
  exact steps_pure _

/-- What a line does in two parses that may have gathered different parts: it adds to both, or it
fails in both with the same problem. -/
inductive Parallel (L : WholeLine) (b : Footing) (G : α → α → Prop) :
    EStateM.Result ParseProblem ParserState α → EStateM.Result ParseProblem ParserState α → Prop
  | ok {t t' : ParserState} {a a' : α} (gathered : G a a') (passed : L.Passed t t') :
      Parallel L b G (.ok a t) (.ok a' t')
  | error {t t' : ParserState} (e : ParseProblem) (within : L.Within b t t') :
      Parallel L b G (.error e t) (.error e t')

theorem completes_of_parallel {p : α → Parser α} {G : α → α → Prop}
    (h : ∀ ⦃L : WholeLine⦄ ⦃b : Footing⦄ ⦃s s' : ParserState⦄ ⦃g g' : α⦄, b ≤ .text →
      L.Within b s s' → s.kind.isStructural = false → K s → G g g' →
      Parallel L b G (p g s) (p g' s')) : (LineParser.whole p).Completes K G := by
  intro L b s s' g g' hb hs hword hK hG
  have hp := h hb hs hword hK hG
  unfold LineParser.whole
  generalize p g s = left at hp
  generalize p g' s' = right at hp
  cases hp with
  | ok gathered passed => exact .done gathered passed
  | error e within => exact .failed hG e within

variable {L : WholeLine} {G : α → α → Prop} {Q : WholeLine → ParserState → ParserState → Prop}

/-- What is done with the result of a parser may differ in the two parses. -/
theorem parallel_bind {q : Parser β} {f f' : β → Parser α} (hq : L.Outcome b (Q L) (q s) (q s'))
    (h : ∀ a t t', Q L t t' → Parallel L b G (f a t) (f' a t')) :
    Parallel L b G ((q >>= f) s) ((q >>= f') s') := by
  generalize hleft : q s = left at hq
  generalize hright : q s' = right at hq
  cases hq with
  | ok a after =>
    rw [bind_of_ok f hleft, bind_of_ok f' hright]
    exact h a _ _ after
  | error e within =>
    rw [bind_of_error f hleft, bind_of_error f' hright]
    exact .error e within

theorem passed_report_behind {t t' : ParserState} (h : L.Behind t t') (p : ParseProblem) :
    L.Passed (t.report p) (t'.report p) := by
  have hprevious {u : ParserState} : (u.report p).previous = u.previous := by
    unfold ParserState.report
    split_ifs <;> rfl
  exact .behind ⟨h.alike.report p, hprevious.trans h.left, hprevious.trans h.right⟩

theorem passed_report_beyond {t t' : ParserState} (h : L.Beyond t t') (p : ParseProblem) :
    L.Passed (t.report p) (t'.report p) :=
  .beyond (h.alike.report p) (.inl rfl) (.inl rfl)

/-- In both parses the place is empty, or it is filled in both. -/
theorem parallel_fillOnce {γ : Type} {t t' : ParserState} {old old' : Option γ} {new : γ}
    {cause : ParseCause} {location : Location} {fill fill' : Option γ → α}
    (h : (old = none ∧ old' = none ∧ G (fill (some new)) (fill' (some new))) ∨
      ∃ x x', old = some x ∧ old' = some x' ∧ G (fill old) (fill' old'))
    (hpassed : L.Passed t t') (hreport : ∀ p, L.Passed (t.report p) (t'.report p)) :
    Parallel L b G ((fillOnce old new cause location >>= fun place => pure (fill place)) t)
      ((fillOnce old' new cause location >>= fun place => pure (fill' place)) t') := by
  rcases h with ⟨rfl, rfl, hG⟩ | ⟨x, x', rfl, rfl, hG⟩
  · exact .ok hG hpassed
  · exact .ok hG (hreport ⟨cause, some location⟩)

end Parser

/-- Parts of two agents that agree in all but the messages and the flows, which are related as
the conditions say. -/
structure AgentParts.Related (M : Option MessageSection → Option MessageSection → Prop)
    (R : List Flow → List Flow → Prop) (p p' : AgentParts) : Prop where
  displayName : p.displayName = p'.displayName
  brandName : p.brandName = p'.brandName
  config : p.config = p'.config
  defaults : p.defaults = p'.defaults
  flows : R p.flows p'.flows
  messages : M p.messages p'.messages

namespace Parser

variable {b : Footing} {K : TokenKind → Prop} {L : WholeLine} {s s' : ParserState}
  {M : Option MessageSection → Option MessageSection → Prop} {R : List Flow → List Flow → Prop}
  {p p' : AgentParts}

/-- An attribute of an agent without the place that it fills. -/
def attributeText (key : String) : Parser String := do
  let _ ← advance
  let _ ← advance
  let text ← takeString s!"string value for {key}"
  finishLine
  return text

/-- Fills the place of an attribute of the agent. -/
def fillText (p : AgentParts) (key text : String) (location : Location) : Parser AgentParts := do
  if key == "displayName" then
    let place ← fillOnce p.displayName text (.duplicateAttribute key) location
    return { p with displayName := place }
  else
    let place ← fillOnce p.brandName text (.duplicateAttribute key) location
    return { p with brandName := place }

theorem agentAttribute_eq (p : AgentParts) :
    agentAttribute p = peek >>= fun t =>
      if (t.text != "displayName" && t.text != "brandName") = true then
        fail (.unknownAgentAttribute t.text) t.location
      else attributeText t.text >>= fun text => fillText p t.text text t.location := by
  unfold agentAttribute attributeText fillText
  simp only [bind_assoc, pure_bind]

theorem steps_attributeText {J : ParserState → Prop} (key : String)
    (hword : ∀ s, J s → s.kind.isStructural = false)
    (hcolon : ∀ s, J s → (s.ahead 1).kind = .colon) :
    Steps b (On b J) Behind (attributeText key) := by
  apply steps_advance_colon hword hcolon
  apply (agrees_takeString _).thenSteps (Footing.le_word b)
  intro text
  apply steps_finishLine.bind
  intro _
  exact steps_pure text

/-- The same place is empty in both parses or filled in both. -/
theorem same_place {α γ : Type} {G : α → α → Prop} {old old' : Option γ} (h : old = old') {new : γ}
    {fill fill' : Option γ → α} (hG : ∀ place, G (fill place) (fill' place)) :
    (old = none ∧ old' = none ∧ G (fill (some new)) (fill' (some new))) ∨
      ∃ x x', old = some x ∧ old' = some x' ∧ G (fill old) (fill' old') := by
  subst h
  cases old with
  | none => exact .inl ⟨rfl, rfl, hG _⟩
  | some x => exact .inr ⟨x, x, rfl, rfl, hG _⟩

theorem parallel_fillText (hG : p.Related M R p') (key text : String) (location : Location)
    (hs : L.Behind s s') :
    Parallel L b (AgentParts.Related M R) (fillText p key text location s)
      (fillText p' key text location s') := by
  have hdisplay (place : Option String) : AgentParts.Related M R { p with displayName := place }
      { p' with displayName := place } := { hG with displayName := rfl }
  have hbrand (place : Option String) : AgentParts.Related M R { p with brandName := place }
      { p' with brandName := place } := { hG with brandName := rfl }
  unfold fillText
  split_ifs
  · exact parallel_fillOnce (same_place hG.displayName hdisplay) (.behind hs)
      (passed_report_behind hs)
  · exact parallel_fillOnce (same_place hG.brandName hbrand) (.behind hs) (passed_report_behind hs)

theorem parallel_agentAttribute (hG : p.Related M R p') (hs : L.Within b s s')
    (hword : s.kind.isStructural = false) (hcolon : (s.ahead 1).kind = .colon) :
    Parallel L b (AgentParts.Related M R) (agentAttribute p s) (agentAttribute p' s') := by
  rw [agentAttribute_eq, agentAttribute_eq, bind_of_ok _ (rfl : peek s = .ok s.current s),
    bind_of_ok _ (rfl : peek s' = .ok s'.current s'), ← hs.current_eq]
  split_ifs
  · exact .error _ hs
  · apply parallel_bind (steps_attributeText (J := fun s => s.kind.isStructural = false ∧
      (s.ahead 1).kind = .colon) _ (fun _ h => h.1) (fun _ h => h.2) ⟨hs, hword, hcolon⟩)
    exact fun text t t' ht => parallel_fillText hG _ text _ ht

/-- What begins no section is an attribute, or it is refused. -/
theorem parallel_noSection (hG : p.Related M R p') (hs : L.Within b s s')
    (hword : s.kind.isStructural = false) :
    Parallel L b (AgentParts.Related M R)
      ((look startsEntry >>= fun c =>
        if c = true then agentAttribute p else unexpected "agent attribute or section") s)
      ((look startsEntry >>= fun c =>
        if c = true then agentAttribute p' else unexpected "agent attribute or section") s') := by
  have hlook := hs.look_eq (g := startsEntry) (fun s h => isStructural_of_startsEntry h)
    fun s s' h h' => startsEntry_congr h h'
  rw [look_bind_apply, look_bind_apply, ← hlook]
  split_ifs with hentry
  · exact parallel_agentAttribute hG hs hword (colon_of_startsEntry hentry)
  · unfold unexpected failHere
    rw [hs.current_eq]
    exact .error _ hs

theorem completes_agentPart (hflow : ∀ fs fs' f, R fs fs' → R (fs ++ [f]) (fs' ++ [f]))
    (hmessages : K (.keyword (.opening .messages)) → ∀ m m', M m m' →
      (m = none ∧ m' = none ∧ ∀ n, M (some n) (some n)) ∨ ∃ n n', m = some n ∧ m' = some n') :
    (LineParser.whole agentPart).Completes (fun s => K s.kind) (AgentParts.Related M R) := by
  apply completes_of_parallel
  intro L b s s' p p' hb hs hword hK hG
  have hon : On b (fun s => s.kind.isStructural = false) L s s' := ⟨hs, hword⟩
  have hconfig (place : Option SettingsSection) : AgentParts.Related M R
      { p with config := place } { p' with config := place } := { hG with config := rfl }
  have hdefaults (place : Option SettingsSection) : AgentParts.Related M R
      { p with defaults := place } { p' with defaults := place } := { hG with defaults := rfl }
  unfold agentPart
  rw [bind_of_ok _ (rfl : peek s = .ok s.current s),
    bind_of_ok _ (rfl : peek s' = .ok s'.current s'), ← hs.current_eq]
  change K s.current.kind at hK
  generalize s.current.kind = k at hK
  cases k with
  | keyword w =>
    cases w with
    | opening form =>
      cases form with
      | agentConfig =>
        apply parallel_bind (steps_settingsSection hon)
        exact fun x t t' ht => parallel_fillOnce (same_place hG.config hconfig) ht.passed
          (passed_report_beyond ht)
      | agentDefaults =>
        apply parallel_bind (steps_settingsSection hon)
        exact fun x t t' ht => parallel_fillOnce (same_place hG.defaults hdefaults) ht.passed
          (passed_report_beyond ht)
      | flow =>
        apply parallel_bind (steps_flowSection hon)
        exact fun f t t' ht => .ok { hG with flows := hflow _ _ f hG.flows } ht.passed
      | messages =>
        apply parallel_bind (steps_messageSection hon)
        intro m t t' ht
        refine parallel_fillOnce ?_ ht.passed (passed_report_beyond ht)
        rcases hmessages hK _ _ hG.messages with ⟨hm, hm', hM⟩ | ⟨n, n', hm, hm'⟩
        · exact .inl ⟨hm, hm', { hG with messages := hM m }⟩
        · exact .inr ⟨n, n', hm, hm', hG⟩
      | agent => exact .error _ hs
    | _ => exact parallel_noSection hG hs hword
  | _ => exact parallel_noSection hG hs hword

theorem related_eq_iff : p.Related Eq Eq p' ↔ p = p' := by
  constructor
  · intro h
    cases p
    cases p'
    obtain ⟨hdisplay, hbrand, hconfig, hdefaults, hflows, hmessages⟩ := h
    simp_all
  · rintro rfl
    exact ⟨rfl, rfl, rfl, rfl, rfl, rfl⟩

/-- Of the same sections neither or both are there. -/
theorem same_section {m m' : Option MessageSection} (h : m = m') :
    (m = none ∧ m' = none ∧ ∀ n : MessageSection, some n = some n) ∨
      ∃ n n', m = some n ∧ m' = some n' := by
  subst h
  cases m with
  | none => exact .inl ⟨rfl, rfl, fun _ => rfl⟩
  | some n => exact .inr ⟨n, n, rfl, rfl⟩

theorem completes_agentPart_eq : (LineParser.whole agentPart).Completes (fun _ => True) Eq := by
  apply LineParser.Completes.of_iff (fun _ _ => related_eq_iff)
  apply completes_agentPart (K := fun _ => True)
  · rintro fs _ f rfl
    rfl
  · exact fun _ m m' h => same_section h

theorem refuses_agentPart : (LineParser.whole agentPart).Refuses := by
  apply LineParser.refuses_whole
  intro t ht
  refine ⟨⟨.expected "agent attribute or section" .indent t.text, some t.location⟩,
    fun p s hs => ?_⟩
  subst hs
  have hentry : startsEntry s = false := by
    unfold startsEntry
    rw [ParserState.kind, ht.kind_eq]
    rfl
  unfold agentPart
  rw [bind_of_ok _ (rfl : peek s = .ok s.current s), ht.kind_eq]
  dsimp only
  rw [look_bind_apply, hentry, if_neg (by simp)]
  unfold unexpected failHere
  dsimp only
  rw [ht.kind_eq]

theorem steps_agent : Steps b (On b fun s => s.kind.isStructural = false) Beyond agent := by
  apply agrees_advance.thenSteps (Footing.le_refl b)
  intro t
  apply (agrees_takeName _).thenSteps (Footing.le_word b)
  intro name
  apply (agrees_expect rfl _).thenSteps (Footing.le_word b)
  intro _
  apply (steps_block completes_agentPart_eq refuses_agentPart _).bind
  intro parts
  apply (steps_spanFrom_beyond _).bind
  intro location
  exact steps_pure _

end Parser

end AgentScript
