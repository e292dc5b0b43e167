import AgentScript.Proofs.Parsing.ValuePlacement

/-!
# Where the nodes of lines are placed

A line adds its nodes at the end of what its block has gathered, so the nodes of a block
stand in order whatever lines fail between them. A block that begins with text is never
left without passing that text, unless the parse has been halted.
-/
namespace AgentScript

namespace Parser

variable {α β : Type} {limit : Nat} {K : ParserState → Prop}

/-- Where it succeeds, the parser keeps the rows of what has been gathered in place. -/
def Extends (limit : Nat) (K : ParserState → Prop) (rows : α → List (List Node)) (gathered : α)
    (p : Parser α) : Prop :=
  ∀ ⦃lo : Position⦄ ⦃s t : ParserState⦄ ⦃a : α⦄, s.Ordered limit → K s →
    lo.Before s.current.start → Rows limit lo s (rows gathered) → p s = .ok a t →
    Rows limit lo t (rows a)

/-- A parser for one more node extends a row by it. -/
theorem extends_append {rows : α → List (List Node)} {gathered : α} {q : Parser β} [Proceeds q]
    {node : β → Node} {f : β → α} (hq : Places limit K (fun b => [node b]) q)
    (hrows : ∀ b, ∀ row ∈ rows (f b),
      row ∈ rows gathered ∨ ∃ old ∈ rows gathered, row = old ++ [node b]) :
    Extends limit K rows gathered (q >>= fun b => pure (f b)) := by
  intro lo s t a hs hk hlo hold heq
  obtain ⟨b, u, hb, ha⟩ := bind_eq_ok.mp heq
  cases ha
  have hleads := q.leads_of_ok hb
  intro row hrow
  rcases hrows b row hrow with hmem | ⟨old, hmem, rfl⟩
  · exact (hold row hmem).leads hs hleads
  · exact (hold old hmem).append hs hleads hlo (hq hs hk hb)

end Parser

namespace LineParser

variable {α β : Type} {limit : Nat} {rows : α → List (List Node)}

/-- The line keeps the rows of what has been gathered in place, whether it fails or not. -/
def Gathers (limit : Nat) (rows : α → List (List Node)) (line : LineParser α) : Prop :=
  ∀ ⦃lo : Position⦄ ⦃gathered : α⦄ ⦃s : ParserState⦄, s.Ordered limit → s.halted = false →
    lo.Before s.current.start → Rows limit lo s (rows gathered) →
    Rows limit lo (line gathered s).state (rows (line gathered s).gathered)

theorem gathers_whole {p : α → Parser α} [∀ a, Parser.Proceeds (p a)]
    (h : ∀ gathered,
      Parser.Extends limit (fun s => s.halted = false) rows gathered (p gathered)) :
    Gathers limit rows (whole p) := by
  intro lo gathered s hs hhalted hlo hrows
  unfold whole
  cases heq : p gathered s with
  | ok a t => exact h gathered hs hhalted hlo hrows heq
  | error e t => exact hrows.leads hs (Parser.leads_of_error _ heq)

theorem gathers_item {q : Parser β} [Parser.Proceeds q] {node : β → Node}
    (h : Parser.Places limit (fun s => s.halted = false) (fun b => [node b]) q) :
    Gathers limit (fun bs => [bs.map node]) (item q) := by
  apply gathers_whole
  intro gathered
  apply Parser.extends_append h
  simp

theorem Gathers.thenFinish {line : LineParser α} [line.Proceeds] (h : Gathers limit rows line) :
    Gathers limit rows (thenFinish line) := by
  intro lo gathered s hs hhalted hlo hrows
  have hline := h hs hhalted hlo hrows
  have hstate : (line gathered s).state.Ordered limit :=
    hs.leads (LineParser.Proceeds.leads gathered s)
  unfold LineParser.thenFinish
  dsimp only
  split
  · exact hline
  · split
    · next heq => exact hline.leads hstate (Parser.leads_of_ok _ heq)
    · next heq => exact hline.leads hstate (Parser.leads_of_error _ heq)

end LineParser

namespace ParserState

variable {α : Type} {limit : Nat} {lo : Position} {rows : α → List (List Node)}
  {line : LineParser α} [line.Proceeds] {gathered : α} {s t : ParserState}

theorem rows_lines (h : line.Gathers limit rows) (fuel : Nat) (hs : s.Ordered limit)
    (hlo : lo.Before s.current.start) (hrows : Rows limit lo s (rows gathered)) :
    Rows limit lo (s.lines line fuel gathered).2 (rows (s.lines line fuel gathered).1) := by
  induction fuel generalizing gathered s with
  | zero => exact hrows
  | succ fuel ih =>
    have hleads := s.leads_skipNewlines s.remaining
    have hskip := hs.leads hleads
    have hrows' := hrows.leads hs hleads
    have hlo' := hlo.trans (hs.current_before hleads)
    unfold lines
    dsimp only
    split_ifs with hdedent hend
    · exact hrows'.leads hskip (leads_advance _)
    · exact hrows'
    · have hhalted : (skipNewlines s.remaining s).halted = false := by simp_all
      have hround := leads_lineRound line gathered (skipNewlines s.remaining s)
      have hline := h hskip hhalted hlo' hrows'
      have hstate : (line gathered (skipNewlines s.remaining s)).state.Ordered limit :=
        hskip.leads (LineParser.Proceeds.leads gathered _)
      apply ih (hskip.leads hround) (hlo'.trans (hskip.current_before hround))
      exact hline.leads hstate (leads_lineRound_line line gathered _)

/-- Either nothing has been passed, or the next token has. -/
theorem Leads.rest_eq_or_past (h : s.Leads t) (hs : s.Ordered limit)
    (hword : s.kind.isStructural = false) : t.rest = s.rest ∨ t.Past s.current.start := by
  induction h with
  | refl => exact .inl rfl
  | @advance u hu ih =>
    right
    rcases ih with hrest | hpast
    · have hcurrent := hu.current_eq hrest
      have hpast := (hs.leads hu).past_current (by rwa [kind, hcurrent])
      rw [hcurrent] at hpast
      exact hpast.mono hs.current.1
    · exact (hs.leads hu).past_advance hpast
  | @report u hu p ih =>
    rcases ih with hrest | hpast
    · exact .inl (by simpa using hrest)
    · exact .inr ((hs.leads hu).past_leads (u.leads_report p) hpast)

theorem past_lineRound (hs : s.Ordered limit) (hword : s.kind.isStructural = false) :
    (s.lineRound line gathered).2.Past s.current.start := by
  obtain ⟨after, hline, hround⟩ := lineRound_state line gathered s
  have hafter := (LineParser.Proceeds.leads gathered s).trans hline
  have hkind (hrest : after.rest = s.rest) : after.kind = s.kind := by
    rw [kind, kind, hafter.current_eq hrest]
  rw [hround]
  split_ifs with hstuck
  · have hrest := hafter.rest_eq_of_remaining_eq (by simp_all)
    have hpast := (hs.leads hafter).past_current (by rw [hkind hrest, hword])
    rw [hafter.current_eq hrest] at hpast
    exact hpast.mono hs.current.1
  · refine (hafter.rest_eq_or_past hs hword).resolve_left fun hrest => hstuck ?_
    have hdedent : after.kind ≠ .dedent := by
      intro hk
      rw [← hkind hrest, hk] at hword
      cases hword
    simp [remaining, hrest, hdedent]

theorem past_lines (hs : s.Ordered limit) (hword : s.kind.isStructural = false)
    (hhalted : s.halted = false) (fuel : Nat) :
    (s.lines line (fuel + 1) gathered).2.Past s.current.start := by
  have hne {k : TokenKind} (hk : k.isStructural = true) : s.kind ≠ k :=
    TokenKind.ne_of_isStructural hword hk
  have hend : s.atEnd = false := atEnd_of_ne hs.ending (hne rfl)
  unfold lines
  dsimp only
  rw [skipNewlines_of_ne (hne rfl), if_neg (by simpa using hne rfl),
    if_neg (by simp [hend, hhalted])]
  have hround := hs.leads (leads_lineRound line gathered s)
  exact hround.past_leads (leads_lines line fuel _ _) (past_lineRound hs hword)

end ParserState

namespace Parser

variable {α β : Type} {limit : Nat} {K : ParserState → Prop} {lo : Position} {begun : Bool}
  {rows : List (List Node)} {nodes : β → List Node} {made : α → List (List Node)}

theorem extends_pure {gathered a : α} (h : made a = made gathered) :
    Extends limit K made gathered (pure a) := by
  intro lo s t b _ _ _ hrows heq
  cases heq
  rw [h]
  exact hrows

theorem extends_skip {q : Parser β} [Proceeds q] {gathered : α} {f : β → Parser α}
    (h : ∀ b, Extends limit (fun _ => True) made gathered (f b)) :
    Extends limit K made gathered (q >>= f) := by
  intro lo s u a hs _ hlo hrows heq
  obtain ⟨b, t, hb, ha⟩ := bind_eq_ok.mp heq
  have hleads := q.leads_of_ok hb
  exact h b (hs.leads hleads) trivial (hlo.trans (hs.current_before hleads))
    (hrows.leads hs hleads) ha

theorem extends_peek_bind {gathered : α} {f : Token → Parser α}
    (h : ∀ t, Extends limit (fun s => s.current = t ∧ K s) made gathered (f t)) :
    Extends limit K made gathered (peek >>= f) :=
  fun _ s _ _ hs hk hlo hrows heq => h s.current hs ⟨rfl, hk⟩ hlo hrows heq

theorem extends_blockLines {line : LineParser α} [line.Proceeds] (h : line.Gathers limit made)
    (gathered : α) : Extends limit K made gathered (blockLines line gathered) := by
  intro lo s t a hs _ hlo hrows heq
  rw [blockLines_eq] at heq
  cases heq
  exact s.rows_lines h _ hs hlo hrows

/-- The lines under a line extend the rows of what has been gathered before them. -/
theorem extends_block {line : LineParser α} [line.Proceeds] (h : line.Gathers limit made)
    (gathered : α) : Extends limit K made gathered (block line gathered) := by
  apply extends_skip
  intro _
  apply extends_skip
  intro c
  split_ifs
  · exact extends_blockLines h gathered
  · exact extends_pure rfl

/-- The rows of a block with lines of two sorts. -/
def pairRows (m : α → Node) (n : β → Node) (gathered : List α × List β) : List (List Node) :=
  [gathered.1.map m, gathered.2.map n]

theorem extends_first {m : α → Node} {n : β → Node} {q : Parser α} [Proceeds q]
    (hq : Places limit K (fun a => [m a]) q) (as : List α) (bs : List β) :
    Extends limit K (pairRows m n) (as, bs) (q >>= fun a => pure (as ++ [a], bs)) := by
  apply extends_append hq
  simp [pairRows]

theorem extends_second {m : α → Node} {n : β → Node} {q : Parser β} [Proceeds q]
    (hq : Places limit K (fun b => [n b]) q) (as : List α) (bs : List β) :
    Extends limit K (pairRows m n) (as, bs) (q >>= fun b => pure (as, bs ++ [b])) := by
  apply extends_append hq
  simp [pairRows]

/-- Where it succeeds, the parser makes rows of nodes of tokens it passed. -/
def PlacesRows (limit : Nat) (K : ParserState → Prop) (made : α → List (List Node))
    (p : Parser α) : Prop :=
  ∀ ⦃s t : ParserState⦄ ⦃a : α⦄, s.Ordered limit → K s → p s = .ok a t →
    Rows limit s.current.start t (made a)

theorem Extends.placesRows {q : Parser α} {gathered : α} (hq : Extends limit K made gathered q)
    (hnew : ∀ row ∈ made gathered, row = []) : PlacesRows limit K made q := by
  intro s t a hs hk heq
  apply hq hs hk (.refl _) _ heq
  intro row hrow
  rw [hnew row hrow]
  exact Row.nil _ _ _

/-- A parser that makes several fields. -/
theorem Builds.fields {q : Parser α} [Proceeds q] {f : α → Parser β}
    (hq : PlacesRows limit K made q)
    (h : ∀ a, Builds limit lo begun (made a ++ rows) (fun _ => True) nodes (f a)) :
    Builds limit lo begun rows K nodes (q >>= f) := by
  refine .bind (fun s t a hs hk hleads hqa => ?_) fun _ _ a _ => h a
  exact hs.addRows hleads (hq hs.ordered hk hqa)

/-- A parser that makes several fields and passes text even if they are empty. -/
theorem Builds.textFields {q : Parser α} [Proceeds q] {f : α → Parser β}
    (htext : PassesText K q) (hq : PlacesRows limit K made q)
    (h : ∀ a, Builds limit lo true (made a ++ rows) (fun _ => True) nodes (f a)) :
    Builds limit lo begun rows K nodes (q >>= f) := by
  refine .bind (fun s t a hs hk hleads hqa => ?_) fun _ _ a _ => h a
  have hpast := (htext hs.ordered hk hqa).mono hs.behind
  exact (hs.addRows hleads (hq hs.ordered hk hqa)).hasBegun hpast

theorem halted_advance (s : ParserState) : s.advance.halted = s.halted := by
  simp [ParserState.halted]

theorem passesText_blockLines {line : LineParser α} [line.Proceeds] (gathered : α) :
    PassesText (fun s => s.kind.isStructural = false ∧ s.halted = false)
      (blockLines line gathered) := by
  intro limit s t a hs hk heq
  rw [blockLines_eq] at heq
  cases heq
  exact s.past_lines hs hk.1 hk.2 _

theorem keeps_expect (k : TokenKind) (what : String) :
    Keeps (fun s => s.halted = false) (expect k what) := by
  intro s t a hs heq
  obtain ⟨-, -, rfl⟩ := expect_eq_ok.mp heq
  rw [halted_advance, hs]

theorem keeps_takeName (what : String) : Keeps (fun s => s.halted = false) (takeName what) := by
  intro s t a hs heq
  obtain ⟨-, -, rfl⟩ := takeName_eq_ok.mp heq
  rw [halted_advance, hs]

/-- A list line is its value behind a dash. -/
theorem gathers_listLine {value : Parser Value} [Proceeds value]
    (h : Places limit (fun s => s.halted = false) (fun v => [v.node]) value) :
    (listLine value).Gathers limit (fun vs => [vs.map Value.node]) := by
  apply LineParser.Gathers.thenFinish
  apply LineParser.gathers_item
  intro s u v hs hk heq
  obtain ⟨_, t, hdash, hv⟩ := bind_eq_ok.mp heq
  have hleads := leads_of_ok _ hdash
  exact (h (hs.leads hleads) (keeps_expect _ _ hk hdash) hv).from_before (hs.current_before hleads)

/-- The end of a line makes no node. -/
theorem places_keyedLine (key colon : String) {value : Parser Value} [Proceeds value]
    (h : Places limit (fun s => s.halted = false) (fun v => [v.node]) value) :
    Places limit (fun s => s.halted = false) (fun e => [e.node]) (keyedLine key colon value) := by
  intro s u e hs hk heq
  obtain ⟨e', t, he, heq⟩ := bind_eq_ok.mp heq
  obtain ⟨_, t', hfinish, heq⟩ := bind_eq_ok.mp heq
  cases heq
  have hrow := places_keyed (passesText_takeName key) (keeps_takeName key)
    (keeps_expect .colon colon) h hs hk he
  exact hrow.leads (hs.leads (leads_of_ok _ he)) (leads_of_ok _ hfinish)

theorem gathers_dictionaryLine {value : Parser Value} [Proceeds value]
    (h : Places limit (fun s => s.halted = false) (fun v => [v.node]) value) :
    (dictionaryLine value).Gathers limit (fun es => [es.map Keyed.node]) :=
  LineParser.gathers_item (places_keyedLine _ _ h)

theorem places_blockList {value : Parser Value} [Proceeds value]
    (h : Places limit (fun s => s.halted = false) (fun v => [v.node]) value) :
    Places limit (fun s => s.kind.isStructural = false ∧ s.halted = false) (fun v => [v.node])
      (blockList value) := by
  apply places_of_peek
  intro t
  apply Builds.restrict (K := fun s => s.kind.isStructural = false ∧ s.halted = false) _
    fun _ hs => hs.2
  apply Builds.textFields (passesText_blockLines [])
    ((extends_blockLines (gathers_listLine h) []).placesRows (by simp))
  intro items
  apply Builds.span [items.map Value.node] (by simp)
  intro l s u v heq
  cases heq
  rw [Value.ofItems, Value.node, Value.nodes_eq_map]

theorem places_blockDictionary {value : Parser Value} [Proceeds value]
    (h : Places limit (fun s => s.halted = false) (fun v => [v.node]) value) :
    Places limit (fun s => s.kind.isStructural = false ∧ s.halted = false) (fun v => [v.node])
      (blockDictionary value) := by
  apply places_of_peek
  intro t
  apply Builds.restrict (K := fun s => s.kind.isStructural = false ∧ s.halted = false) _
    fun _ hs => hs.2
  apply Builds.textFields (passesText_blockLines [])
    ((extends_blockLines (gathers_dictionaryLine h) []).placesRows (by simp))
  intro entries
  apply Builds.span [entries.map Keyed.node] (by simp)
  intro l s u v heq
  cases heq
  rw [Value.ofEntries, Value.node, Value.entryNodes_eq_map]

theorem places_blockValue {value : Parser Value} [Proceeds value]
    (h : Places limit (fun s => s.halted = false) (fun v => [v.node]) value) :
    Places limit (fun s => s.kind.isStructural = false ∧ s.halted = false) (fun v => [v.node])
      (check .dash >>= fun c => if c = true then blockList value else blockDictionary value) :=
  places_check_bind ((places_blockList h).restrict fun _ hs => hs.2) (places_blockDictionary h)

/-- A block value begins behind a line end and an indentation, so with text. -/
theorem places_valueWithin (depth : Nat) :
    Places limit (fun s => s.halted = false) (fun v => [v.node]) (valueWithin depth) := by
  induction depth with
  | zero => exact places_unexpected _ _
  | succ depth ih =>
    apply places_kind_bind
    intro k
    split
    · intro s t v hs hk heq
      have heq' : (if ((s.ahead 1).kind == .indent) = true
          then advance >>= fun _ => advance >>= fun _ => check .dash >>= fun c =>
            if c = true then blockList (valueWithin depth) else blockDictionary (valueWithin depth)
          else inlineValue) s = .ok v t := heq
      split_ifs at heq' with hi
      · have hindent : s.advance.kind = .indent := by
          rw [s.kind_advance]
          exact beq_iff_eq.mp hi
        have hnext := hs.advance.advance
        have hword := hs.advance.isStructural_after_indent hindent
        have hhalted : s.advance.advance.halted = false := by
          rw [halted_advance, halted_advance, hk.2]
        have hleads := s.leads_advance.advance
        exact (places_blockValue ih hnext ⟨hword, hhalted⟩ heq').from_before
          (hs.current_before hleads)
      · exact places_inlineValue (K := fun _ => True) hs trivial heq'
    · apply (places_multilineString _).restrict
      intro s hs
      rw [hs.1]
      rfl
    · apply places_codeBlock.restrict
      intro s hs
      rw [hs.1]
      rfl
    · exact places_inlineValue

theorem places_value : Places limit (fun s => s.halted = false) (fun v => [v.node]) value := by
  intro s t v hs hk heq
  exact places_valueWithin (s.remaining + 1) hs hk heq

end Parser

end AgentScript
