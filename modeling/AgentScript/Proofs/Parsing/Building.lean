import AgentScript.Proofs.Parsing.Placement
import AgentScript.Proofs.Parsing.Proceeding

/-!
# Building nodes

A parser for a node notes where it begins, makes the nodes of the fields one after the
other, and closes the range at the last token passed. While it does so, the rows made since
the beginning are known; when the range is closed, the node encloses them.
-/
namespace AgentScript

namespace Parser

variable {α β : Type} {limit : Nat} {K : ParserState → Prop} {lo : Position}

/-- Where it succeeds, the parser makes nodes of tokens it passed. -/
def Places (limit : Nat) (K : ParserState → Prop) (nodes : α → List Node) (p : Parser α) : Prop :=
  ∀ ⦃s t : ParserState⦄ ⦃a : α⦄, s.Ordered limit → K s → p s = .ok a t →
    Row limit s.current.start t (nodes a)

theorem Places.restrict {nodes : α → List Node} {K' : ParserState → Prop} {p : Parser α}
    (h : Places limit K nodes p) (hK : ∀ s, K' s → K s) : Places limit K' nodes p :=
  fun _ _ _ hs hk => h hs (hK _ hk)

/-- A parser that makes no node may stand before one that does. -/
theorem Places.skip {q : Parser α} [Proceeds q] {f : α → Parser β} {nodes : β → List Node}
    (h : ∀ a, Places limit (fun _ => True) nodes (f a)) : Places limit K nodes (q >>= f) := by
  intro s u b hs _ heq
  obtain ⟨a, t, hqa, hf⟩ := bind_eq_ok.mp heq
  have hleads := q.leads_of_ok hqa
  exact (h a (hs.leads hleads) trivial hf).from_before (hs.current_before hleads)

/-- Where it succeeds, the parser has passed a token with text of the language. -/
def PassesText (K : ParserState → Prop) (p : Parser α) : Prop :=
  ∀ ⦃limit : Nat⦄ ⦃s t : ParserState⦄ ⦃a : α⦄, s.Ordered limit → K s → p s = .ok a t →
    t.Past s.current.start

end Parser

/-- A node that begins at `lo` is being made: its rows so far, and whether text of it has been
passed. -/
structure Building (limit : Nat) (lo : Position) (begun : Bool) (rows : List (List Node))
    (s : ParserState) : Prop where
  ordered : s.Ordered limit
  behind : lo.Before s.current.start
  rows : Rows limit lo s rows
  past : begun = true → s.Past lo

namespace Building

variable {limit : Nat} {lo : Position} {begun : Bool} {rows : List (List Node)} {s t : ParserState}

theorem start (h : s.Ordered limit) : Building limit s.current.start false [] s := by
  constructor
  case ordered => exact h
  case behind => exact .refl _
  case rows => exact fun _ hrow => nomatch hrow
  case past => exact fun hb => nomatch hb

theorem leads (h : Building limit lo begun rows s) (ht : s.Leads t) :
    Building limit lo begun rows t :=
  ⟨h.ordered.leads ht, h.behind.trans (h.ordered.current_before ht),
    h.rows.leads h.ordered ht,
    fun hb => h.ordered.past_leads ht (h.past hb)⟩

theorem hasBegun (h : Building limit lo begun rows s) (hpast : s.Past lo) :
    Building limit lo true rows s :=
  { h with past := fun _ => hpast }

theorem begin (h : Building limit lo begun rows s) (ht : s.Leads t)
    (hpast : t.Past s.current.start) : Building limit lo true rows t :=
  (h.leads ht).hasBegun (hpast.mono h.behind)

theorem addRows (h : Building limit lo begun rows s) (ht : s.Leads t) {new : List (List Node)}
    (hnew : Rows limit s.current.start t new) : Building limit lo begun (new ++ rows) t := by
  refine { h.leads ht with rows := fun row hrow => ?_ }
  rcases List.mem_append.mp hrow with hrow | hrow
  · exact (hnew row hrow).from_before h.behind
  · exact (h.leads ht).rows row hrow

theorem addRow (h : Building limit lo begun rows s) (ht : s.Leads t) {row : List Node}
    (hrow : Row limit s.current.start t row) : Building limit lo begun (row :: rows) t :=
  h.addRows ht fun _ hr => List.mem_singleton.mp hr ▸ hrow

end Building

namespace Parser

variable {α β : Type} {limit : Nat} {K : ParserState → Prop} {lo : Position} {begun : Bool}
  {rows : List (List Node)} {nodes : β → List Node}

/-- The parser completes the node that is being made. -/
def Builds (limit : Nat) (lo : Position) (begun : Bool) (rows : List (List Node))
    (K : ParserState → Prop) (nodes : β → List Node) (p : Parser β) : Prop :=
  ∀ ⦃s t : ParserState⦄ ⦃b : β⦄, Building limit lo begun rows s → K s → p s = .ok b t →
    Row limit lo t (nodes b)

theorem Builds.restrict {K' : ParserState → Prop} {p : Parser β}
    (h : Builds limit lo begun rows K nodes p) (hK : ∀ s, K' s → K s) :
    Builds limit lo begun rows K' nodes p := fun _ _ _ hs hk => h hs (hK _ hk)

theorem places_kind_bind {f : TokenKind → Parser β} {nodes : β → List Node}
    (h : ∀ k, Places limit (fun s => s.kind = k ∧ K s) nodes (f k)) :
    Places limit K nodes (kind >>= f) :=
  fun s _ _ hs hk heq => h s.kind hs ⟨rfl, hk⟩ heq

theorem places_check_bind {k : TokenKind} {nodes : β → List Node} {yes no : Parser β}
    (hyes : Places limit (fun s => s.kind = k ∧ K s) nodes yes) (hno : Places limit K nodes no) :
    Places limit K nodes (check k >>= fun c => if c = true then yes else no) := by
  intro s t b hs hk heq
  have heq' : (if (s.kind == k) = true then yes else no) s = .ok b t := heq
  split_ifs at heq' with hc
  · exact hyes hs ⟨by simpa using hc, hk⟩ heq'
  · exact hno hs hk heq'

theorem places_failHere (cause : Token → ParseCause) (nodes : α → List Node) :
    Places limit K nodes (failHere cause) := fun _ _ _ _ _ heq => nomatch heq

theorem places_unexpected (what : String) (nodes : α → List Node) :
    Places limit K nodes (unexpected what) := places_failHere _ nodes

/-- What is done with the result of a parser may keep the nodes. -/
theorem Places.keep {p : Parser α} {f : α → Parser β} {nodes : β → List Node}
    {made : α → List Node} (h : Places limit K made p)
    (hf : ∀ a s b t, f a s = .ok b t → t = s ∧ nodes b = made a) :
    Places limit K nodes (p >>= f) := by
  intro s t b hs hk heq
  obtain ⟨a, u, ha, hb⟩ := bind_eq_ok.mp heq
  obtain ⟨rfl, hnodes⟩ := hf a u b t hb
  rw [hnodes]
  exact h hs hk ha

theorem Places.map {p : Parser α} {g : α → β} {nodes : β → List Node} {made : α → List Node}
    (h : Places limit K made p) (hg : ∀ a, nodes (g a) = made a) :
    Places limit K nodes (p >>= fun a => pure (g a)) := by
  apply h.keep
  intro a s b t hb
  cases hb
  exact ⟨rfl, hg a⟩

theorem places_pure {b : β} {nodes : β → List Node} (h : nodes b = []) :
    Places limit K nodes (pure b) := by
  intro s t c _ _ heq
  cases heq
  rw [h]
  exact Row.nil _ _ _

/-- A node that is a token. -/
theorem places_token {f : Token → Parser β} {nodes : β → List Node}
    (hK : ∀ s, K s → s.kind.isStructural = false)
    (hf : ∀ t s b u, f t s = .ok b u → u = s ∧ nodes b = [⟨some t.location, []⟩]) :
    Places limit K nodes (advance >>= f) := by
  intro s t b hs hk heq
  obtain ⟨rfl, hnodes⟩ := hf _ _ _ _ heq
  rw [hnodes]
  exact Row.token hs (hK s hk)

theorem expect_apply (k : TokenKind) (what : String) (s : ParserState) :
    expect k what s = if s.kind = k then .ok s.current s.advance else unexpected what s := by
  change (if (s.kind == k) = true then advance else unexpected what) s = _
  by_cases hk : s.kind = k
  · rw [if_pos hk, if_pos (by simpa using hk)]
    rfl
  · rw [if_neg hk, if_neg (by simpa using hk)]

theorem expect_eq_ok {k : TokenKind} {what : String} {s t : ParserState} {a : Token} :
    expect k what s = .ok a t ↔ s.kind = k ∧ a = s.current ∧ t = s.advance := by
  rw [expect_apply]
  split_ifs with hk
  · simp [hk, eq_comm]
  · simp [hk, unexpected, failHere]

theorem takeName_apply (what : String) (s : ParserState) :
    takeName what s =
      if s.kind.isWordlike = true then .ok s.current.text s.advance else unexpected what s := by
  change (if s.kind.isWordlike = true then advance >>= fun t => pure t.text
    else unexpected what : Parser String) s = _
  by_cases hk : s.kind.isWordlike = true
  · rw [if_pos hk, if_pos hk]
    rfl
  · rw [if_neg hk, if_neg hk]

theorem takeName_eq_ok {what : String} {s t : ParserState} {a : String} :
    takeName what s = .ok a t ↔ s.kind.isWordlike = true ∧ a = s.current.text ∧ t = s.advance := by
  rw [takeName_apply]
  split_ifs with hk
  · simp [hk, eq_comm]
  · simp [hk, unexpected, failHere]

theorem passesText_expect {k : TokenKind} (hk : k.isStructural = false) (what : String) :
    PassesText K (expect k what) := by
  intro limit s t a hs _ heq
  obtain ⟨hkind, -, rfl⟩ := expect_eq_ok.mp heq
  exact (hs.past_current (by rw [hkind, hk])).mono hs.current.1

theorem passesText_takeName (what : String) : PassesText K (takeName what) := by
  intro limit s t a hs _ heq
  obtain ⟨hword, -, rfl⟩ := takeName_eq_ok.mp heq
  exact (hs.past_current (isStructural_of_isWordlike hword)).mono hs.current.1

theorem PassesText.bind {q : Parser α} {f : α → Parser β} (hq : PassesText K q)
    [∀ a, Proceeds (f a)] [Proceeds q] : PassesText K (q >>= f) := by
  intro limit s u b hs hk heq
  obtain ⟨a, t, hqa, hf⟩ := bind_eq_ok.mp heq
  have ht := hs.leads (q.leads_of_ok hqa)
  exact ht.past_leads (leads_of_ok _ hf) (hq hs hk hqa)

theorem passesText_takeString (what : String) : PassesText K (takeString what) :=
  (passesText_expect rfl _).bind

/-- A parser that makes a node has passed the text of it. -/
theorem Places.passesText {p : Parser α} {node : α → Node}
    (h : ∀ limit, Places limit K (fun a => [node a]) p) : PassesText K p := by
  intro limit s t a hs hk heq
  have hrow := h limit hs hk heq
  obtain ⟨l, hl, hstart, hpast⟩ := hrow.between _ (List.mem_singleton_self _)
  exact hpast.mono (hstart.trans ((hrow.placed _ (List.mem_singleton_self _)).before hl))

/-- A list of nodes is an empty row to which nodes are appended. -/
theorem places_of_builds {p : Parser β} (h : ∀ lo, Builds limit lo false [[]] K nodes p) :
    Places limit K nodes p := by
  intro s t b hs hk heq
  have hrows : Rows limit s.current.start s [[]] := by
    intro row hrow
    rw [List.mem_singleton.mp hrow]
    exact Row.nil _ _ _
  exact h _ { Building.start hs with rows := hrows } hk heq

theorem places_of_peek {f : Token → Parser β}
    (h : ∀ t : Token, Builds limit t.start false [] (fun s => s.current = t ∧ K s) nodes (f t)) :
    Places limit K nodes (peek >>= f) :=
  fun s _ _ hs hk heq => h s.current (.start hs) ⟨rfl, hk⟩ heq

theorem places_of_expect {k : TokenKind} (hk : k.isStructural = false) {what : String}
    {f : Token → Parser β}
    (h : ∀ t : Token, Builds limit t.start true [] (fun _ => True) nodes (f t)) :
    Places limit K nodes (expect k what >>= f) := by
  intro s u b hs _ heq
  obtain ⟨a, t, ha, hf⟩ := bind_eq_ok.mp heq
  obtain ⟨hkind, rfl, rfl⟩ := expect_eq_ok.mp ha
  have hpast : s.advance.Past s.current.start :=
    (hs.past_current (by rw [hkind, hk])).mono hs.current.1
  exact h s.current ((Building.start hs).begin s.leads_advance hpast) trivial hf

theorem places_of_advance {f : Token → Parser β}
    (hK : ∀ s, K s → s.kind.isStructural = false)
    (h : ∀ t : Token, Builds limit t.start true [] (fun _ => True) nodes (f t)) :
    Places limit K nodes (advance >>= f) := by
  intro s t b hs hk heq
  have hpast : s.advance.Past s.current.start :=
    (hs.past_current (hK s hk)).mono hs.current.1
  exact h s.current ((Building.start hs).begin s.leads_advance hpast) trivial heq

/-- The rest of a parser builds on what its first part has made. -/
theorem Builds.bind {q : Parser α} [Proceeds q] {f : α → Parser β} {begun' : Bool}
    {made : α → List (List Node)}
    (hq : ∀ ⦃s t : ParserState⦄ ⦃a : α⦄, Building limit lo begun rows s → K s → s.Leads t →
      q s = .ok a t → Building limit lo begun' (made a) t)
    (h : ∀ ⦃s t : ParserState⦄ ⦃a : α⦄, q s = .ok a t →
      Builds limit lo begun' (made a) (fun _ => True) nodes (f a)) :
    Builds limit lo begun rows K nodes (q >>= f) := by
  intro s u b hs hk heq
  obtain ⟨a, t, hqa, hf⟩ := bind_eq_ok.mp heq
  exact h hqa (hq hs hk (q.leads_of_ok hqa) hqa) trivial hf

/-- What is known of a result that is no node. -/
theorem Builds.skipWith {q : Parser α} [Proceeds q] {f : α → Parser β} {P : α → Prop}
    (hP : ∀ s a t, q s = .ok a t → P a)
    (h : ∀ a, P a → Builds limit lo begun rows (fun _ => True) nodes (f a)) :
    Builds limit lo begun rows K nodes (q >>= f) :=
  .bind (fun _ _ _ hs _ hleads _ => hs.leads hleads) fun s t a hqa => h a (hP s a t hqa)

/-- A parser that makes no node. -/
theorem Builds.skip {q : Parser α} [Proceeds q] {f : α → Parser β}
    (h : ∀ a, Builds limit lo begun rows (fun _ => True) nodes (f a)) :
    Builds limit lo begun rows K nodes (q >>= f) :=
  .skipWith (P := fun _ => True) (fun _ _ _ _ => trivial) fun a _ => h a

theorem Builds.text {q : Parser α} [Proceeds q] {f : α → Parser β} (hq : PassesText K q)
    (h : ∀ a, Builds limit lo true rows (fun _ => True) nodes (f a)) :
    Builds limit lo begun rows K nodes (q >>= f) := by
  refine .bind (fun s t a hs hk hleads hqa => ?_) fun _ _ a _ => h a
  exact hs.begin hleads (hq hs.ordered hk hqa)

/-- A parser that makes a field. -/
theorem Builds.row {q : Parser α} [Proceeds q] {f : α → Parser β} {row : α → List Node}
    (hq : Places limit K row q)
    (h : ∀ a, Builds limit lo begun (row a :: rows) (fun _ => True) nodes (f a)) :
    Builds limit lo begun rows K nodes (q >>= f) := by
  refine .bind (fun s t a hs hk hleads hqa => ?_) fun _ _ a _ => h a
  exact hs.addRow hleads (hq hs.ordered hk hqa)

theorem Builds.textRow {q : Parser α} [Proceeds q] {f : α → Parser β} {row : α → List Node}
    (htext : PassesText K q) (hq : Places limit K row q)
    (h : ∀ a, Builds limit lo true (row a :: rows) (fun _ => True) nodes (f a)) :
    Builds limit lo begun rows K nodes (q >>= f) := by
  refine .bind (fun s t a hs hk hleads hqa => ?_) fun _ _ a _ => h a
  have hpast := (htext hs.ordered hk hqa).mono hs.behind
  exact (hs.addRow hleads (hq hs.ordered hk hqa)).hasBegun hpast

/-- A parser that makes the next nodes of a field. -/
theorem Builds.append {q : Parser α} [Proceeds q] {f : α → Parser β} {row : List Node}
    {more : α → List Node} (hq : Places limit K more q)
    (h : ∀ a, Builds limit lo begun ((row ++ more a) :: rows) (fun _ => True) nodes (f a)) :
    Builds limit lo begun (row :: rows) K nodes (q >>= f) := by
  refine .bind (fun s t a hs hk hleads hqa => ?_) fun _ _ a _ => h a
  have hmore := (hs.rows row (List.mem_cons_self ..)).append hs.ordered hleads hs.behind
    (hq hs.ordered hk hqa)
  refine { hs.leads hleads with rows := fun r hr => ?_ }
  rcases List.mem_cons.mp hr with rfl | hr
  · exact hmore
  · exact (hs.leads hleads).rows r (List.mem_cons_of_mem _ hr)

theorem Builds.pure {b : β} (h : nodes b ∈ rows ∨ nodes b = []) :
    Builds limit lo begun rows K nodes (pure b) := by
  intro s t c hs _ heq
  cases heq
  rcases h with h | h
  · exact hs.rows _ h
  · rw [h]
    exact Row.nil _ _ _

/-- The range is closed at the last token passed. -/
theorem Builds.span {f : Location → Parser β} [∀ l, Proceeds (f l)] (fields : List (List Node))
    (hfields : ∀ row ∈ fields, row ∈ rows ∨ row = [])
    (hf : ∀ l s t b, f l s = .ok b t → nodes b = [⟨some l, fields⟩]) :
    Builds limit lo true rows K nodes (spanFrom lo >>= f) := by
  intro s t b hs _ heq
  have heq' : f (s.spanFrom lo) s = .ok b t := heq
  have hrows : Rows limit lo s fields := by
    intro row hrow
    rcases hfields row hrow with hmem | rfl
    · exact hs.rows row hmem
    · exact Row.nil _ _ _
  rw [hf _ s t b heq']
  exact (Row.span hs.ordered (hs.past rfl) hrows).leads hs.ordered (leads_of_ok _ heq')

end Parser

end AgentScript
