import AgentScript.Proofs.Parsing.LinePlacement

/-!
# Where the nodes of messages are placed

Suggestions stand on lines of their own below their message. The block of a message may mix
them with cards or attributes, so it gathers a row of nodes for each sort.
-/
namespace AgentScript

def CardParts.rows (c : CardParts) : List (List Node) := [c.suggestions.map Suggestion.node]

theorem CardParts.suggestions_of_withOption? {c d : CardParts} {name : String}
    (h : c.withOption? name = some d) : d.suggestions = c.suggestions := by
  unfold withOption? at h
  split at h
  all_goals cases h
  all_goals rfl

namespace Parser

variable {α : Type} {limit : Nat} {K : ParserState → Prop}

theorem places_time (what : String) : Places limit K (fun t => [t.node]) (time what) :=
  places_check_bind places_typeTag (places_unexpected _ _)

/-- A parser whose result has no fields. -/
theorem placesRows_of_forall_eq_nil {made : α → List (List Node)} {p : Parser α}
    (h : ∀ s a t, p s = .ok a t → made a = []) : PlacesRows limit K made p := by
  intro s t a _ _ heq
  rw [h s a t heq]
  exact fun _ hrow => nomatch hrow

theorem placesRows_suggestionAction (form : SuggestionForm) :
    PlacesRows limit K SuggestionAction.fields (suggestionAction form) := by
  cases form with
  | reply | dial | viewLocation =>
    apply placesRows_of_forall_eq_nil
    intro s a t h
    obtain ⟨_, _, -, h⟩ := bind_eq_ok.mp h
    cases h
    rfl
  | shareLocation =>
    apply placesRows_of_forall_eq_nil
    intro s a t h
    cases h
    rfl
  | openUrl =>
    apply placesRows_of_forall_eq_nil
    intro s a t h
    obtain ⟨_, _, -, h⟩ := bind_eq_ok.mp h
    obtain ⟨_, _, -, h⟩ := bind_eq_ok.mp h
    obtain ⟨_, _, -, h⟩ := bind_eq_ok.mp h
    cases h
    rfl
  | saveEvent =>
    intro s t a hs _ h
    obtain ⟨title, s₁, htitle, h⟩ := bind_eq_ok.mp h
    obtain ⟨startTime, s₂, hstart, h⟩ := bind_eq_ok.mp h
    obtain ⟨endTime, s₃, hend, h⟩ := bind_eq_ok.mp h
    obtain ⟨description, s₄, hdescription, h⟩ := bind_eq_ok.mp h
    cases h
    have h₁ := (Building.start hs).leads (leads_of_ok _ htitle)
    have h₂ := h₁.addRow (leads_of_ok _ hstart)
      (places_time (K := fun _ => True) _ h₁.ordered trivial hstart)
    have h₃ := h₂.addRow (leads_of_ok _ hend)
      (places_time (K := fun _ => True) _ h₂.ordered trivial hend)
    have h₄ := h₃.leads (leads_of_ok _ hdescription)
    intro row hrow
    apply h₄.rows
    rcases List.mem_pair.mp hrow with rfl | rfl
    · exact List.mem_cons_of_mem _ (List.mem_cons_self ..)
    · exact List.mem_cons_self ..

theorem places_suggestion : Places limit K (fun s => [s.node]) suggestion := by
  apply places_kind_bind
  intro k
  split
  · apply places_of_advance
    · intro s hs
      rw [hs.1]
      rfl
    · intro t
      apply Builds.skip
      intro text
      apply Builds.fields (placesRows_suggestionAction _)
      intro action
      apply Builds.span action.fields
      · exact fun row hrow => .inl (List.mem_append_left _ hrow)
      · intro l s u x h
        obtain ⟨_, _, -, h⟩ := bind_eq_ok.mp h
        cases h
        rfl
  · exact places_failHere _ _
  · exact places_unexpected _ _

theorem gathers_suggestion :
    (LineParser.item suggestion).Gathers limit (fun xs => [xs.map Suggestion.node]) :=
  LineParser.gathers_item places_suggestion

theorem placesRows_suggestionBlock :
    PlacesRows limit K (fun xs => [xs.map Suggestion.node]) suggestionBlock :=
  (extends_block gathers_suggestion []).placesRows (by simp)

theorem suggestions_of_applyOption {c d : CardParts} {t : Token} {s u : ParserState}
    (h : applyOption .richCard CardParts.withOption? c t s = .ok d u) :
    d.suggestions = c.suggestions := by
  unfold applyOption at h
  cases hoption : c.withOption? (optionName t) with
  | some c' =>
    rw [hoption] at h
    cases h
    exact CardParts.suggestions_of_withOption? hoption
  | none =>
    rw [hoption] at h
    obtain ⟨_, _, -, h⟩ := bind_eq_ok.mp h
    cases h
    rfl

/-- Options leave the suggestions of a card alone. -/
theorem suggestions_of_cardOptions {fuel : Nat} {c d : CardParts} {s u : ParserState}
    (h : cardOptions fuel c s = .ok d u) : d.suggestions = c.suggestions := by
  induction fuel generalizing c s with
  | zero =>
    cases h
    rfl
  | succ fuel ih =>
    unfold cardOptions at h
    obtain ⟨k, s₁, -, h⟩ := bind_eq_ok.mp h
    split at h
    · obtain ⟨t, s₂, -, h⟩ := bind_eq_ok.mp h
      obtain ⟨c', s₃, hc', h⟩ := bind_eq_ok.mp h
      rw [ih h, suggestions_of_applyOption hc']
    · obtain ⟨image, s₂, -, h⟩ := bind_eq_ok.mp h
      rw [ih h]
    · obtain ⟨image, s₂, -, h⟩ := bind_eq_ok.mp h
      rw [ih h]
    · cases h
      rfl

theorem gathers_cardLine : cardLine.Gathers limit CardParts.rows := by
  intro lo c s
  unfold cardLine
  split_ifs with hstarts
  · apply LineParser.Gathers.thenFinish
    apply LineParser.gathers_whole
    intro c
    apply extends_skip
    intro _
    apply extends_skip
    intro _
    apply extends_skip
    intro description
    exact extends_pure rfl
  · apply LineParser.gathers_whole
    intro c
    apply extends_append places_suggestion
    simp [CardParts.rows]

theorem places_richCard (traffic : Option TrafficType) :
    Places limit K (fun c => [c.node]) (richCard traffic) := by
  apply places_of_expect rfl
  intro t
  apply Builds.skip
  intro name
  apply Builds.skip
  intro title
  apply Builds.skip
  intro n
  apply Builds.skipWith (P := fun c => c.suggestions = [])
  · exact fun s c u h => suggestions_of_cardOptions h
  · intro c hc
    apply Builds.fields
      ((extends_block gathers_cardLine c).placesRows (by simp [CardParts.rows, hc]))
    intro parts
    apply Builds.span [parts.suggestions.map Suggestion.node] (by simp [CardParts.rows])
    intro l s u x h
    cases h
    rfl

theorem places_textMessage (traffic : Option TrafficType) :
    Places limit (fun s => s.kind.isStructural = false) (fun m => [m.node])
      (textMessage traffic) := by
  apply places_of_advance (fun _ h => h)
  intro t
  apply Builds.skip
  intro name
  apply Builds.skip
  intro text
  apply Builds.fields placesRows_suggestionBlock
  intro suggestions
  apply Builds.span [suggestions.map Suggestion.node] (by simp)
  intro l s u m h
  cases h
  rfl

theorem gathers_carouselLine :
    carouselLine.Gathers limit (pairRows RichCard.node Suggestion.node) := by
  apply LineParser.gathers_whole
  rintro ⟨cards, suggestions⟩ lo s t parts hs hk hlo hrows heq
  have heq' : (if (s.kind == TokenKind.keyword (.form .richCard)) = true
      then richCard none >>= fun card => pure (cards ++ [card], suggestions)
      else suggestion >>= fun x => pure (cards, suggestions ++ [x]) :
        Parser (List RichCard × List Suggestion)) s = .ok parts t := heq
  split_ifs at heq'
  · exact extends_first (K := fun _ => True) (places_richCard none) cards suggestions hs trivial hlo
      hrows heq'
  · exact extends_second (K := fun _ => True) places_suggestion cards suggestions hs trivial hlo
      hrows heq'

theorem places_carousel (traffic : Option TrafficType) :
    Places limit (fun s => s.kind.isStructural = false) (fun m => [m.node]) (carousel traffic) := by
  apply places_of_advance (fun _ h => h)
  intro t
  apply Builds.skip
  intro name
  apply Builds.skip
  intro n
  apply Builds.skip
  intro width
  apply Builds.fields
    ((extends_block gathers_carouselLine ([], [])).placesRows (by simp [pairRows]))
  rintro ⟨cards, suggestions⟩
  apply Builds.span [cards.map RichCard.node, suggestions.map Suggestion.node] (by simp [pairRows])
  intro l s u m h
  cases h
  rfl

theorem places_rbmFile (traffic : Option TrafficType) :
    Places limit (fun s => s.kind.isStructural = false) (fun m => [m.node]) (rbmFile traffic) := by
  apply places_of_advance (fun _ h => h)
  intro t
  apply Builds.skip
  intro name
  apply Builds.skip
  intro fileUrl
  apply Builds.skip
  intro thumbnailUrl
  apply Builds.fields placesRows_suggestionBlock
  intro suggestions
  apply Builds.span [suggestions.map Suggestion.node] (by simp)
  intro l s u m h
  cases h
  rfl

theorem places_file (traffic : Option TrafficType) :
    Places limit (fun s => s.kind.isStructural = false) (fun m => [m.node]) (file traffic) := by
  apply places_of_advance (fun _ h => h)
  intro t
  apply Builds.skip
  intro name
  apply Builds.skip
  intro target
  apply Builds.fields placesRows_suggestionBlock
  intro suggestions
  apply Builds.span [suggestions.map Suggestion.node] (by simp)
  intro l s u m h
  cases h
  rfl

theorem places_attributeEntry :
    Places limit (fun s => s.halted = false) (fun a => [a.node]) attributeEntry :=
  places_keyedLine _ _ places_value

/-- A block of suggestions below a message extends its suggestions. -/
theorem extends_suggestions (attributes : List Attribute) (suggestions : List Suggestion) :
    Extends limit K (pairRows Keyed.node Suggestion.node) (attributes, suggestions)
      (block (.item suggestion) suggestions >>= fun more => pure (attributes, more)) := by
  intro lo s t parts hs hk hlo hrows heq
  obtain ⟨more, u, hmore, heq⟩ := bind_eq_ok.mp heq
  cases heq
  have hsuggestions : Rows limit lo s [suggestions.map Suggestion.node] :=
    fun row hrow => hrows row (List.mem_cons_of_mem _ hrow)
  have hblock := extends_block gathers_suggestion suggestions hs hk hlo hsuggestions hmore
  intro row hrow
  rcases List.mem_pair.mp hrow with rfl | rfl
  · exact (hrows _ (List.mem_cons_self ..)).leads hs (leads_of_ok _ hmore)
  · exact hblock _ (List.mem_singleton_self _)

theorem gathers_definitionLine :
    definitionLine.Gathers limit (pairRows Keyed.node Suggestion.node) := by
  intro lo parts s hs hhalted hlo hrows
  unfold definitionLine
  split_ifs with hsuggestion hblock
  · refine LineParser.gathers_whole ?_ hs hhalted hlo hrows
    rintro ⟨attributes, suggestions⟩
    exact extends_second places_suggestion attributes suggestions
  · refine LineParser.gathers_whole ?_ hs hhalted hlo hrows
    rintro ⟨attributes, suggestions⟩
    apply extends_skip
    intro _
    apply extends_skip
    intro _
    exact extends_suggestions attributes suggestions
  · refine LineParser.gathers_whole ?_ hs hhalted hlo hrows
    rintro ⟨attributes, suggestions⟩
    exact extends_first places_attributeEntry attributes suggestions

theorem places_messageDefinition (traffic : Option TrafficType) :
    Places limit K (fun m => [m.node]) (messageDefinition traffic) := by
  apply places_of_peek
  intro t
  apply Builds.text (passesText_takeName _)
  intro name
  apply Builds.skip
  intro _
  apply Builds.fields
    ((extends_block gathers_definitionLine ([], [])).placesRows (by simp [pairRows]))
  rintro ⟨attributes, suggestions⟩
  apply Builds.span [attributes.map Keyed.node, suggestions.map Suggestion.node]
    (by simp [pairRows])
  intro l s u m h
  cases h
  rfl

theorem places_shortForm (traffic : Option TrafficType) (form : MessageForm) :
    Places limit (fun s => s.kind.isStructural = false) (fun m => [m.node])
      (shortForm traffic form) := by
  cases form with
  | text => exact places_textMessage traffic
  | richCard => exact (places_richCard traffic).map fun _ => rfl
  | carousel => exact places_carousel traffic
  | rbmFile => exact places_rbmFile traffic
  | file => exact places_file traffic

theorem places_message : Places limit K (fun m => [m.node]) message := by
  apply Places.skip
  intro traffic
  apply places_kind_bind
  intro k
  split
  · apply (places_shortForm traffic _).restrict
    intro s hs
    rw [hs.1]
    rfl
  · exact .skip fun _ => places_messageDefinition traffic
  · exact places_failHere _ _
  · apply Places.skip
    intro c
    split_ifs
    · exact places_messageDefinition traffic
    · exact places_failHere _ _
    · exact places_unexpected _ _

theorem places_messageSection :
    Places limit (fun s => s.kind.isStructural = false) (fun m => [m.node]) messageSection := by
  apply places_of_advance (fun _ h => h)
  intro t
  apply Builds.skip
  intro name
  apply Builds.skip
  intro _
  apply Builds.fields ((extends_block (LineParser.gathers_item places_message) []).placesRows
    (by simp))
  intro messages
  apply Builds.span [messages.map Message.node] (by simp)
  intro l s u m h
  cases h
  rfl

end Parser

end AgentScript
