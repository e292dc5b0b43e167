import AgentScript.Proofs.Parsing.Course
import AgentScript.Proofs.Parsing.Nodes

/-!
# Where nodes are placed

The tokens of a parse stand in the order of the text, and the last one passed with text of
the language stands before those to come. So what a parser makes of tokens to come is
placed behind everything made before, and a node whose range ends at the last token passed
encloses all nodes made since its beginning.
-/
namespace AgentScript

/-- Tokens that can follow each other: they do not overlap, and a block begins with text. -/
def Token.Adjoins (a b : Token) : Prop :=
  a.Precedes b ∧ (a.kind = .indent → b.isStructural = false)

namespace ParserState

/-- The tokens to come are in order and inside a text of `limit` characters, and the text
passed stands before them. -/
structure Ordered (limit : Nat) (s : ParserState) : Prop where
  chain : s.tokens.IsChain Token.Adjoins
  inside : ∀ t ∈ s.tokens, t.start.Before t.stop ∧ t.stop.offset ≤ limit
  ending : s.ending.kind = .eof
  passed : ∀ p, s.lastEnd = some p → p.Before s.current.start

/-- Text has been passed up to a position or further. -/
def Past (s : ParserState) (p : Position) : Prop := ∃ q, s.lastEnd = some q ∧ p.Before q

variable {limit : Nat} {s t : ParserState} {p q : Position}

theorem Past.mono (h : s.Past q) (hpq : p.Before q) : s.Past p := by
  obtain ⟨r, hr, hqr⟩ := h
  exact ⟨r, hr, hpq.trans hqr⟩

namespace Ordered

theorem before_of_past (h : s.Ordered limit) (hp : s.Past p) : p.Before s.current.start := by
  obtain ⟨q, hq, hpq⟩ := hp
  exact hpq.trans (h.passed q hq)

theorem current (h : s.Ordered limit) :
    s.current.start.Before s.current.stop ∧ s.current.stop.offset ≤ limit := by
  obtain ⟨l, hl⟩ := s.exists_tokens
  exact h.inside _ (hl ▸ List.mem_cons_self ..)

/-- The text passed lies inside the text. -/
theorem offset_le_of_lastEnd (h : s.Ordered limit) (hp : s.lastEnd = some p) :
    p.offset ≤ limit := by
  have hbefore := (h.passed p hp).trans h.current.1
  exact Nat.le_trans hbefore.2 h.current.2

/-- At the end nothing is passed; before it the next token is, and the one behind adjoins. -/
theorem advance_cases (h : s.Ordered limit) :
    (s.kind = .eof ∧ s.advance = s) ∨ ∃ y l, s.tokens = s.current :: y :: l ∧
      s.advance.tokens = y :: l ∧
      s.current.Adjoins y ∧
      s.advance.lastEnd = if s.current.isStructural then s.lastEnd else some s.current.stop := by
  cases hr : s.rest with
  | nil =>
    have hkind : s.kind = s.ending.kind := kind_of_tokens (l := []) (by simp [tokens, hr])
    exact .inl ⟨hkind.trans h.ending, by simp [ParserState.advance, hr]⟩
  | cons x rest =>
    right
    have htokens : s.tokens = x :: (rest ++ [s.ending]) := by simp [tokens, hr]
    have hcurrent := current_of_tokens htokens
    have hlast : s.advance.lastEnd = if x.isStructural then s.lastEnd else some x.stop := by
      unfold advance
      rw [hr]
    have hnext : s.advance.tokens = rest ++ [s.ending] := by simp [tokens, hr]
    have hchain := h.chain
    rw [htokens] at hchain
    obtain ⟨y, l, hl⟩ : ∃ y l, rest ++ [s.ending] = y :: l := by
      cases rest with
      | nil => exact ⟨_, _, rfl⟩
      | cons y rest => exact ⟨_, _, rfl⟩
    rw [hl] at htokens hnext hchain
    exact ⟨y, l, by rw [hcurrent, htokens], hnext, by rw [hcurrent]; exact hchain.rel, by
      rw [hcurrent, hlast]⟩

theorem advance (h : s.Ordered limit) : s.advance.Ordered limit := by
  rcases h.advance_cases with ⟨heof, heq⟩ | ⟨y, l, htokens, hnext, hadjoins, hlast⟩
  · rwa [heq]
  · have hchain := h.chain
    have hinside := h.inside
    rw [htokens] at hchain hinside
    constructor
    case chain =>
      rw [hnext]
      exact hchain.tail
    case inside =>
      rw [hnext]
      exact fun u hu => hinside u (List.mem_cons_of_mem _ hu)
    case ending => simpa using h.ending
    case passed =>
      intro p hp
      rw [current_of_tokens hnext]
      rw [hlast] at hp
      split_ifs at hp
      · exact ((h.passed p hp).trans h.current.1).trans hadjoins.1
      · cases hp
        exact hadjoins.1

theorem report (h : s.Ordered limit) (p : ParseProblem) : (s.report p).Ordered limit := by
  unfold ParserState.report
  split_ifs
  · exact h
  · exact ⟨h.chain, h.inside, h.ending, h.passed⟩

/-- A parse stays in order. -/
theorem leads (h : s.Ordered limit) (ht : s.Leads t) : t.Ordered limit := by
  induction ht with
  | refl => exact h
  | advance _ ih => exact ih.advance
  | report _ p ih => exact ih.report p

theorem current_before_advance (h : s.Ordered limit) :
    s.current.start.Before s.advance.current.start := by
  rcases h.advance_cases with ⟨heof, heq⟩ | ⟨y, l, htokens, hnext, hadjoins, hlast⟩
  · rw [heq]
    exact .refl _
  · rw [current_of_tokens hnext]
    exact h.current.1.trans hadjoins.1

/-- A parse goes forward. -/
theorem current_before (h : s.Ordered limit) (ht : s.Leads t) :
    s.current.start.Before t.current.start := by
  induction ht with
  | refl => exact .refl _
  | advance hs ih => exact ih.trans (h.leads hs).current_before_advance
  | @report u hs p ih =>
    have heq : (u.report p).current = u.current := by
      unfold ParserState.report
      split_ifs <;> rfl
    rw [heq]
    exact ih

theorem past_advance (h : s.Ordered limit) (hp : s.Past p) : s.advance.Past p := by
  obtain ⟨q, hq, hpq⟩ := hp
  rcases h.advance_cases with ⟨heof, heq⟩ | ⟨y, l, htokens, hnext, hadjoins, hlast⟩
  · rw [heq]
    exact ⟨q, hq, hpq⟩
  · by_cases hs : s.current.isStructural
    · rw [if_pos hs] at hlast
      exact ⟨q, hlast.trans hq, hpq⟩
    · rw [if_neg hs] at hlast
      exact ⟨_, hlast, hpq.trans ((h.passed q hq).trans h.current.1)⟩

/-- What has been passed stays passed. -/
theorem past_leads (h : s.Ordered limit) (ht : s.Leads t) (hp : s.Past p) : t.Past p := by
  induction ht with
  | refl => exact hp
  | advance hs ih => exact (h.leads hs).past_advance ih
  | @report u hs p' ih =>
    have heq : (u.report p').lastEnd = u.lastEnd := by
      unfold ParserState.report
      split_ifs <;> rfl
    obtain ⟨q, hq, hpq⟩ := ih
    exact ⟨q, heq.trans hq, hpq⟩

/-- Passing a token with text of the language. -/
theorem past_current (h : s.Ordered limit) (hs : s.kind.isStructural = false) :
    s.advance.Past s.current.stop := by
  have hkind : s.current.isStructural = false := hs
  rcases h.advance_cases with ⟨heof, heq⟩ | ⟨y, l, htokens, hnext, hadjoins, hlast⟩
  · rw [heof] at hs
    exact nomatch hs
  · rw [if_neg (by simp [hkind])] at hlast
    exact ⟨_, hlast, .refl _⟩

/-- A block begins with text. -/
theorem isStructural_after_indent (h : s.Ordered limit) (hs : s.kind = .indent) :
    s.advance.kind.isStructural = false := by
  rcases h.advance_cases with ⟨heof, heq⟩ | ⟨y, l, htokens, hnext, hadjoins, hlast⟩
  · rw [hs] at heof
    exact nomatch heof
  · rw [kind_of_tokens hnext]
    exact hadjoins.2 hs

end Ordered

end ParserState

theorem Location.encloses_of_before {start stop : Position} {l : Location}
    (hstart : start.Before l.start) (hl : l.start.Before l.stop) (hstop : l.stop.Before stop) :
    Location.encloses ⟨start, stop⟩ l = true := by
  have hleft : Location.contains ⟨start, stop⟩ l.start = true :=
    contains_iff.mpr ⟨hstart.2, Nat.le_trans hl.2 hstop.2⟩
  have hright : Location.contains ⟨start, stop⟩ l.stop = true :=
    contains_iff.mpr ⟨Nat.le_trans hstart.2 hl.2, hstop.2⟩
  rw [Location.encloses, hleft, hright]
  rfl

/-- A location and one behind it are covered from the start of the first to the end of the
second. -/
theorem Location.cover_of_before {a b : Location} (hstart : a.start.Before b.start)
    (hstop : a.stop.Before b.stop) : a.cover b = ⟨a.start, b.stop⟩ := by
  rw [cover, Position.min_def, Position.max_def, if_pos hstart.1, if_pos hstop.1]

theorem Node.Placed.before {limit : Nat} {n : Node} {l : Location} (h : n.Placed limit)
    (hl : n.location = some l) : l.start.Before l.stop := by
  cases h with
  | mk ordered =>
    cases hl
    exact ordered

/-- A row of nodes made between a position and the last token passed. -/
structure Row (limit : Nat) (lo : Position) (s : ParserState) (row : List Node) : Prop where
  placed : ∀ n ∈ row, n.Placed limit
  between : ∀ n ∈ row, ∃ l, n.location = some l ∧ lo.Before l.start ∧ s.Past l.stop
  inOrder : row.Pairwise Node.Precedes

/-- Several rows, the fields of a node to be made. -/
def Rows (limit : Nat) (lo : Position) (s : ParserState) (rows : List (List Node)) : Prop :=
  ∀ row ∈ rows, Row limit lo s row

namespace Row

variable {limit : Nat} {lo lo' : Position} {s t : ParserState} {row later : List Node}

theorem nil (limit : Nat) (lo : Position) (s : ParserState) : Row limit lo s [] :=
  ⟨by simp, by simp, .nil⟩

theorem leads (h : Row limit lo s row) (hs : s.Ordered limit) (ht : s.Leads t) :
    Row limit lo t row := by
  refine { h with between := fun n hn => ?_ }
  obtain ⟨l, hl, hlo, hpast⟩ := h.between n hn
  exact ⟨l, hl, hlo, hs.past_leads ht hpast⟩

theorem from_before (h : Row limit lo s row) (hlo : lo'.Before lo) : Row limit lo' s row := by
  refine { h with between := fun n hn => ?_ }
  obtain ⟨l, hl, hbefore, hpast⟩ := h.between n hn
  exact ⟨l, hl, hlo.trans hbefore, hpast⟩

/-- What is made of tokens to come goes behind what has been made. -/
theorem append (h : Row limit lo s row) (hs : s.Ordered limit) (ht : s.Leads t)
    (hlo : lo.Before s.current.start) (h' : Row limit s.current.start t later) :
    Row limit lo t (row ++ later) := by
  have hrow := h.leads hs ht
  have hlater := h'.from_before hlo
  constructor
  case placed =>
    intro n hn
    rcases List.mem_append.mp hn with hn | hn
    · exact h.placed n hn
    · exact h'.placed n hn
  case between =>
    intro n hn
    rcases List.mem_append.mp hn with hn | hn
    · exact hrow.between n hn
    · exact hlater.between n hn
  case inOrder =>
    refine List.pairwise_append.mpr ⟨h.inOrder, h'.inOrder, fun m hm n hn => ?_⟩
    obtain ⟨k, hk, -, hpast⟩ := h.between m hm
    obtain ⟨l, hl, hstart, -⟩ := h'.between n hn
    exact ⟨k, l, hk, hl, (hs.before_of_past hpast).trans hstart⟩

theorem single {n : Node} (hplaced : n.Placed limit)
    (hbetween : ∃ l, n.location = some l ∧ lo.Before l.start ∧ s.Past l.stop) :
    Row limit lo s [n] :=
  ⟨by simpa using hplaced, by simpa using hbetween, List.pairwise_singleton _ _⟩

/-- The node of a range that ends at the last token passed encloses what was made since the
beginning of the range. -/
theorem span {start : Position} {fields : List (List Node)} (hs : s.Ordered limit)
    (hpast : s.Past start) (hfields : Rows limit start s fields) :
    Row limit start s [⟨some (s.spanFrom start), fields⟩] := by
  obtain ⟨stop, hstop, hbefore⟩ := hpast
  have hspan : s.spanFrom start = ⟨start, stop⟩ := by
    unfold ParserState.spanFrom
    rw [hstop]
    exact if_pos hbefore.1
  rw [hspan]
  apply single
  · constructor
    case ordered => exact hbefore
    case inside => exact hs.offset_le_of_lastEnd hstop
    case below => exact fun row hrow n hn => (hfields row hrow).placed n hn
    case enclosed =>
      intro row hrow n hn
      obtain ⟨l, hl, hstart, q, hq, hpast⟩ := (hfields row hrow).between n hn
      obtain rfl : stop = q := Option.some.inj (hstop.symm.trans hq)
      have hordered := ((hfields row hrow).placed n hn).before hl
      exact ⟨l, hl, Location.encloses_of_before hstart hordered hpast⟩
    case inOrder => exact fun row hrow => (hfields row hrow).inOrder
  · exact ⟨_, rfl, .refl _, stop, hstop, .refl _⟩

/-- The node of a single token. -/
theorem token (hs : s.Ordered limit) (hword : s.kind.isStructural = false) :
    Row limit s.current.start s.advance [⟨some s.current.location, []⟩] := by
  apply single
  · exact .mk hs.current.1 hs.current.2 (by simp) (by simp) (by simp)
  · exact ⟨_, rfl, .refl _, hs.past_current hword⟩

end Row

theorem Rows.leads {limit : Nat} {lo : Position} {s t : ParserState} {rows : List (List Node)}
    (h : Rows limit lo s rows) (hs : s.Ordered limit) (ht : s.Leads t) : Rows limit lo t rows :=
  fun row hrow => (h row hrow).leads hs ht

end AgentScript
