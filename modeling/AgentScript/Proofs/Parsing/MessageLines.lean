import AgentScript.Proofs.Parsing.ValueLines

/-!
# Two parses of the same message

Every message takes its line and the block below it, or fails on the line. The lines of its
block do the same one level below.
-/
namespace AgentScript

open WholeLine

namespace Parser

variable {α β : Type} {b : Footing} {K : ParserState → Prop} {L : SharedLine} {s s' : ParserState}

theorem startsWith_eq (word : String) (h : L.Within b s s') (hk : s.kind.isStructural = false) :
    startsWith word s = startsWith word s' := by
  unfold startsWith
  rw [h.current_eq, h.ahead_one_eq hk]

theorem colon_of_startsWith {word : String} (h : startsWith word s = true) :
    (s.ahead 1).kind = .colon := by
  unfold startsWith at h
  rw [Bool.and_eq_true] at h
  exact beq_iff_eq.mp h.2

theorem not_startsWith {word : String} (hword : ∃ c ∈ word.toList, CharClass.isWhitespace c = false)
    (h : s.current.IsMark .indent) : startsWith word s = false := by
  obtain ⟨c, hc, hspace⟩ := hword
  have htext : s.current.text ≠ word := by
    rintro rfl
    rw [h.blank c hc] at hspace
    exact nomatch hspace
  unfold startsWith
  rw [beq_eq_false_iff_ne.mpr htext]
  rfl

theorem isStructural_of_startsEntry (h : startsEntry s = true) : s.kind.isStructural = false := by
  unfold startsEntry at h
  rw [Bool.and_eq_true] at h
  exact isStructural_of_isWordlike h.1

theorem colon_of_startsEntry (h : startsEntry s = true) : (s.ahead 1).kind = .colon := by
  unfold startsEntry at h
  rw [Bool.and_eq_true] at h
  exact beq_iff_eq.mp h.2

theorem startsEntry_congr (h : s.current = s'.current) (h' : s.ahead 1 = s'.ahead 1) :
    startsEntry s = startsEntry s' := by
  unfold startsEntry ParserState.kind
  rw [h, h']

theorem completes_suggestion : suggestion.Completes K := by
  intro b _
  apply steps_kind_bind
  intro k
  split
  · apply (agrees_advance_at rfl).thenSteps (Footing.le_refl b)
    intro t
    apply (agrees_takeString _).thenSteps (Footing.le_word b)
    intro text
    apply (agrees_suggestionAction _).thenSteps (Footing.le_word b)
    intro action
    apply (agrees_spanFrom _).thenSteps (Footing.le_word b)
    intro location
    exact steps_finish _
  · exact steps_failHere (Footing.le_refl b) _
  · exact steps_unexpected (Footing.le_refl b) _

theorem refuses_suggestion : suggestion.Refuses := refuses_kind_bind (refuses_unexpected _)

theorem steps_suggestionBlock : Steps b (On .word K) Beyond suggestionBlock :=
  steps_itemBlock completes_suggestion refuses_suggestion []

theorem completes_cardLine : cardLine.Completes K Eq := by
  apply LineParser.completes_choose
  · exact fun _ _ _ _ h hk => startsWith_eq _ h hk
  · apply completes_thenFinish
    intro c b hb
    apply steps_advance_colon (fun s hs => hs.1) (fun s hs => colon_of_startsWith hs.2.1)
    apply (agrees_takeString _).thenSteps (Footing.le_word b)
    intro description
    exact (steps_pure _).mono (fun _ _ _ h => h) fun _ _ _ h => .inl h
  · apply LineParser.completes_whole
    intro c b hb
    exact (completes_suggestion b hb).bind fun x => steps_pure _

theorem refuses_cardLine : cardLine.Refuses := by
  apply LineParser.refuses_choose
  · exact fun s hs => not_startsWith ⟨'d', by decide, by decide⟩ hs
  · exact LineParser.refuses_whole_bind refuses_suggestion _

theorem steps_richCard (traffic : Option TrafficType) :
    Steps b (On b K) Beyond (richCard traffic) := by
  apply (agrees_expect rfl _).thenSteps (Footing.le_refl b)
  intro t
  apply agrees_takeOptionalName.thenSteps (Footing.le_word b)
  intro name
  apply (agrees_takeString _).thenSteps (Footing.le_word b)
  intro title
  apply agrees_lineLeft.thenSteps (Footing.le_word b)
  intro n
  apply (agrees_cardOptions n _).thenSteps (Footing.le_word b)
  intro parts
  apply (steps_block completes_cardLine refuses_cardLine parts).bind
  intro parts
  apply (steps_spanFrom_beyond _).bind
  intro location
  exact steps_pure _

theorem steps_textMessage (traffic : Option TrafficType) :
    Steps b (On b fun s => s.kind.isStructural = false) Beyond (textMessage traffic) := by
  apply agrees_advance.thenSteps (Footing.le_refl b)
  intro t
  apply agrees_takeOptionalName.thenSteps (Footing.le_word b)
  intro name
  apply (agrees_takeString _).thenSteps (Footing.le_word b)
  intro text
  apply steps_suggestionBlock.bind
  intro suggestions
  apply (steps_spanFrom_beyond _).bind
  intro location
  exact steps_pure _

theorem completes_carouselLine : carouselLine.Completes K Eq := by
  apply LineParser.completes_whole
  rintro ⟨cards, suggestions⟩ b hb
  apply steps_check_bind
  · exact (steps_richCard none).passed.bind fun card => steps_pure _
  · exact (completes_suggestion b hb).bind fun x => steps_pure _

theorem refuses_carouselLine : carouselLine.Refuses := by
  apply LineParser.refuses_whole
  intro t ht
  obtain ⟨e, he⟩ := refuses_suggestion t ht
  refine ⟨e, ?_⟩
  rintro ⟨cards, suggestions⟩ s hs
  refine (check_bind_apply _ _ _ s).trans ?_
  rw [if_neg (by simp [ParserState.kind, hs, ht.kind_eq])]
  exact bind_of_error _ (he s hs)

theorem steps_carousel (traffic : Option TrafficType) :
    Steps b (On b fun s => s.kind.isStructural = false) Beyond (carousel traffic) := by
  apply agrees_advance.thenSteps (Footing.le_refl b)
  intro t
  apply agrees_takeOptionalName.thenSteps (Footing.le_word b)
  intro name
  apply agrees_lineLeft.thenSteps (Footing.le_word b)
  intro n
  apply (agrees_options _ _ n _).thenSteps (Footing.le_word b)
  intro width
  apply (steps_block completes_carouselLine refuses_carouselLine _).bind
  rintro ⟨cards, suggestions⟩
  apply (steps_spanFrom_beyond _).bind
  intro location
  exact steps_pure _

theorem steps_rbmFile (traffic : Option TrafficType) :
    Steps b (On b fun s => s.kind.isStructural = false) Beyond (rbmFile traffic) := by
  apply agrees_advance.thenSteps (Footing.le_refl b)
  intro t
  apply agrees_takeOptionalName.thenSteps (Footing.le_word b)
  intro name
  apply (agrees_url _).thenSteps (Footing.le_word b)
  intro fileUrl
  apply (agrees_optionalUrl _).thenSteps (Footing.le_word b)
  intro thumbnailUrl
  apply steps_suggestionBlock.bind
  intro suggestions
  apply (steps_spanFrom_beyond _).bind
  intro location
  exact steps_pure _

theorem steps_file (traffic : Option TrafficType) :
    Steps b (On b fun s => s.kind.isStructural = false) Beyond (file traffic) := by
  apply agrees_advance.thenSteps (Footing.le_refl b)
  intro t
  apply agrees_takeOptionalName.thenSteps (Footing.le_word b)
  intro name
  apply (agrees_url _).thenSteps (Footing.le_word b)
  intro target
  apply steps_suggestionBlock.bind
  intro suggestions
  apply (steps_spanFrom_beyond _).bind
  intro location
  exact steps_pure _

theorem completes_attributeEntry : attributeEntry.Completes K :=
  steps_value.completes_keyedLine _ _

theorem refuses_attributeEntry : attributeEntry.Refuses := refuses_keyedLine _ _ _

theorem completes_definitionLine : definitionLine.Completes K Eq := by
  apply LineParser.completes_choose
  · intro L b s s' h hk
    rw [h.kind_eq, h.ahead_one_eq hk]
  · apply LineParser.completes_whole
    rintro ⟨attributes, suggestions⟩ b hb
    exact (completes_suggestion b hb).bind fun x => steps_pure _
  · apply LineParser.completes_choose
    · exact fun _ _ _ _ h hk => startsWith_eq _ h hk
    · apply LineParser.completes_whole
      rintro ⟨attributes, suggestions⟩ b hb
      apply steps_advance_colon (fun s hs => hs.1) (fun s hs => colon_of_startsWith hs.2.1)
      apply (steps_itemBlock completes_suggestion refuses_suggestion suggestions).passed.bind
      intro suggestions
      exact steps_pure _
    · apply LineParser.completes_whole
      rintro ⟨attributes, suggestions⟩ b hb
      exact (completes_attributeEntry b hb).bind fun a => steps_pure _

theorem refuses_definitionLine : definitionLine.Refuses := by
  apply LineParser.refuses_choose
  · intro s hs
    rw [ParserState.kind, hs.kind_eq]
    rfl
  · apply LineParser.refuses_choose
    · exact fun s hs => not_startsWith ⟨'s', by decide, by decide⟩ hs
    · apply LineParser.refuses_whole
      intro t ht
      obtain ⟨e, he⟩ := refuses_attributeEntry t ht
      refine ⟨e, ?_⟩
      rintro ⟨attributes, suggestions⟩ s hs
      exact bind_of_error _ (he s hs)

theorem steps_messageDefinition (traffic : Option TrafficType) :
    Steps b (On b K) Beyond (messageDefinition traffic) := by
  apply steps_peek_bind
  intro t
  apply (agrees_takeName _).thenSteps (Footing.le_refl b)
  intro name
  apply (agrees_expect rfl _).thenSteps (Footing.le_word b)
  intro _
  apply (steps_block completes_definitionLine refuses_definitionLine _).bind
  rintro ⟨attributes, suggestions⟩
  apply (steps_spanFrom_beyond _).bind
  intro location
  exact steps_pure _

theorem steps_shortForm (traffic : Option TrafficType) (form : MessageForm) :
    Steps b (On b fun s => s.kind.isStructural = false) Beyond (shortForm traffic form) := by
  cases form with
  | text => exact steps_textMessage traffic
  | richCard =>
    apply (steps_richCard traffic).bind
    intro card
    exact steps_pure _
  | carousel => exact steps_carousel traffic
  | rbmFile => exact steps_rbmFile traffic
  | file => exact steps_file traffic

/-- A message is passed with the block below it. -/
theorem steps_message : Steps b (On b K) Beyond message := by
  apply (agrees_takeTraffic.restrict fun _ _ => trivial).thenSteps (Footing.le_refl b)
  intro traffic
  apply steps_kind_bind
  intro k
  split
  · apply (steps_shortForm traffic _).restrict
    intro s hs
    rw [hs.1]
    rfl
  · apply (agrees_advance_at rfl).thenSteps (Footing.le_refl b)
    intro _
    exact (steps_messageDefinition traffic).tighten (Footing.le_word b)
  · exact steps_failHere (Footing.le_refl b) _
  · apply steps_look_bind
    · exact fun s hs => isStructural_of_startsEntry hs
    · exact fun s s' h h' => startsEntry_congr h h'
    · exact steps_messageDefinition traffic
    · split_ifs
      · exact steps_failHere (Footing.le_refl b) _
      · exact steps_unexpected (Footing.le_refl b) _

theorem completes_message : message.Completes K := fun _ _ => steps_message.passed

theorem refuses_message : message.Refuses := by
  apply Refuses.after none
  · intro s hk
    unfold takeTraffic
    rw [bind_of_ok _ (rfl : kind s = .ok s.kind s), hk]
    rfl
  · apply refuses_kind_bind
    apply refuses_look_bind (fun s hs => isStructural_of_startsEntry hs)
    exact refuses_unexpected _

end Parser

end AgentScript
