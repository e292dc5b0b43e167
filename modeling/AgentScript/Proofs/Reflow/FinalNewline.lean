import AgentScript.Document
import AgentScript.Proofs.Parsing.BodyRuns
import AgentScript.Proofs.Parsing.TypeTags
import AgentScript.Proofs.Reflow.Beginnings
import AgentScript.Proofs.Reflow.Files
import AgentScript.Proofs.Reflow.LastLine

/-!
# A missing line feed at the end

A text whose last line is not ended and the text with a line feed behind it have the same words and
blocks. The last line ends over the line feed or over nothing, and the ends of blocks and of the
file stand behind the line feed or before it. A parse sees this in one case only: where a bracket
is open, the line feed is passed, and the line is found to end behind it.
-/
namespace AgentScript

open TokenKind

variable {text : List Char}

namespace Stance

theorem meets_of_endsLine {Moved : Position → Position → Prop} {st : Stance} {p p' : Position}
    (hst : st.endsLine = false) (h : Moved p p') : st.Meets Moved p p' := by
  cases st with
  | inside => exact h
  | captured => trivial
  | opened | between => exact nomatch hst

/-- Behind a word of a line the line goes on. -/
theorem endsLine_after_of_endsInLine {t : Transcript} (h : t.endsInLine = true) :
    (after t.kinds).endsLine = false := by
  rw [Transcript.endsInLine_eq] at h
  rcases List.eq_nil_or_concat t.kinds with hnil | ⟨before, last, hkinds⟩
  · simp [hnil] at h
  · have hinLine : last.isStructural = false := by simpa [hkinds] using h
    rw [hkinds, List.concat_eq_append, after_concat, behind_of_inLine hinLine]
    exact endsLine_pass _ _

/-- Behind a block the text that it captures is passed. -/
theorem after_block {ps : List Piece} (h : Piece.HoldBlock ps) (before : List TokenKind) :
    after (before ++ Piece.kinds ps) = captured := by
  obtain ⟨marker, content, contents, hcontent, hkinds, hcontents⟩ := h
  have hinLine : marker.isStructural = false ∧ content.isStructural = false := by
    rcases captures?_eq_some.mp hcontent with ⟨⟨c, rfl⟩, rfl⟩ | ⟨rfl, rfl⟩ <;> exact ⟨rfl, rfl⟩
  have hpass (contents : List TokenKind) (h : ∀ k ∈ contents, k = content) :
      contents.foldl behind captured = captured := by
    induction contents with
    | nil => rfl
    | cons k contents ih =>
      obtain ⟨rfl, hcontents⟩ := List.forall_mem_cons.mp h
      rw [List.foldl_cons, behind_of_inLine hinLine.2, pass_captured]
      exact ih hcontents
  have hmarker : (after before).behind marker = captured := by
    rw [behind_of_inLine hinLine.1, pass, if_pos (.inr (by rw [hcontent]; rfl))]
  rw [hkinds, after, List.foldl_append, List.foldl_cons]
  exact hmarker ▸ hpass contents hcontents

end Stance

namespace Token

/-- The ends of levels and of the text. -/
def closers (levels : Nat) (p : Position) : List Token :=
  (List.replicate levels TokenKind.dedent ++ [TokenKind.eof]).map (Token.mark · p)

theorem closing_closers (levels : Nat) (p : Position) : Closing levels (closers levels p) := by
  induction levels with
  | zero => exact .ended rfl
  | succ levels ih => exact .dedent rfl ih

theorem exists_closers (levels : Nat) (p : Position) :
    ∃ t l, closers levels p = t :: l ∧ t.start = p := by
  cases levels with
  | zero => exact ⟨_, _, rfl, rfl⟩
  | succ levels => exact ⟨_, _, rfl, rfl⟩

namespace Reflowed

variable {Moved : Position → Position → Prop} {st : Stance} {t t' : Token}

/-- Between lines the ends of blocks may stand anywhere. -/
theorem closers (levels : Nat) (p p' : Position) :
    Reflowed Moved .between levels (closers levels p) (closers levels p') := by
  have hcloses := closing_closers levels p
  have hcloses' := closing_closers levels p'
  obtain ⟨t, l, htokens, -⟩ := exists_closers levels p
  obtain ⟨t', l', htokens', -⟩ := exists_closers levels p'
  rw [htokens] at hcloses ⊢
  rw [htokens'] at hcloses' ⊢
  exact .closing rfl trivial hcloses hcloses'

/-- The line ends in both texts. -/
theorem lastLine (ht : t.IsMark .newline) (ht' : t'.IsMark .newline)
    (h : st.Meets Moved t.start t'.start) (levels : Nat) (p p' : Position) :
    Reflowed Moved st levels (t :: Token.closers levels p) (t' :: Token.closers levels p') :=
  .newline ht ht' h (.closers levels p p')

/-- Behind the lines there is one more line end in the second text. -/
theorem emptyLine (hst : st.endsLine = true) (ht : t.kind = .newline) (levels : Nat)
    (p' : Position) :
    Reflowed Moved st levels (Token.closers levels t.start) (t :: Token.closers levels p') := by
  have hcloses := closing_closers levels t.start
  obtain ⟨x, l, htokens, hstart⟩ := exists_closers levels t.start
  rw [htokens] at hcloses ⊢
  refine .closing hst ?_ hcloses (.newline ht (closing_closers levels p'))
  cases st with
  | opened => exact hstart
  | between => trivial
  | inside | captured => exact nomatch hst

end Reflowed

end Token

namespace Reading

variable {r s : Reading}

/-- What is known of a reading at any time. -/
structure Underway (text : List Char) (r : Reading) : Prop where
  follows : r.transcript.Follows text
  laid : r.Laid
  brackets : r.CountsBrackets
  openLine : r.OpenLine text
  marked : r.transcript.Marked
  unnamed : ∀ t ∈ r.transcript.tokens.toList, t.kind.captures? ≠ none → t.Unnamed

theorem underway_start (text : List Char) : (start text).Underway text where
  follows := Transcript.follows_start text
  laid := laid_start text
  brackets := countsBrackets_start text
  openLine := fun hopen => absurd rfl hopen
  marked := by simp [start, Transcript.start, Transcript.Marked]
  unnamed := by simp [start, Transcript.start]

/-- A marker begins with a sign. -/
theorem unnamed_marker {k : TokenKind} {n : Nat} (h : BeginsWithMarker r.rest k n)
    (kind : TokenKind) :
    (r.markerToken kind n).Unnamed := by
  obtain ⟨x, rest, hrest, -, hx⟩ := h.exists_cons
  intro c hc
  rw [markerToken, String.toList_ofList, hrest] at hc
  cases n with
  | zero => cases hc
  | succ n =>
    obtain rfl : x = c := by simpa using hc
    rcases hx with rfl | rfl | rfl <;> rfl

theorem Underway.round (h : r.Underway text) (hrest : r.rest ≠ []) : r.round.Underway text where
  follows := follows_round h.follows
  laid := laid_round hrest h.laid
  brackets := h.brackets.round hrest
  openLine := h.openLine.round h.follows hrest
  marked := marked_round hrest h.marked
  unnamed := by
    intro t ht hcaptures
    rw [tokens_round] at ht
    rcases List.mem_append.mp ht with ht | ht
    · exact h.unnamed t ht hcaptures
    obtain ⟨content, hcontent⟩ := Option.ne_none_iff_exists'.mp hcaptures
    have hkind := List.mem_map_of_mem (f := Token.kind) ht
    rw [Piece.kinds_tokens] at hkind
    obtain ⟨hinside, n, hmarker⟩ := Round.beginsWithMarker_of_mem hkind hcontent
    obtain ⟨more, htokens, hmore⟩ := tokens_markerRound hinside hmarker hcontent
    rw [htokens] at ht
    rcases List.mem_cons.mp ht with heq | ht
    · exact heq ▸ unnamed_marker hmarker _
    · exact absurd (hmore t ht) hcaptures

end Reading

/-- Where a place of the text is found if a line feed follows the text: behind the line feed if the
text ends there, within brackets. -/
def Position.pastFeed (text : List Char) (kinds : List TokenKind) (p : Position) : Position :=
  if openBrackets kinds ≠ [] ∧ p = positionAt text text.length then
    positionAt (text ++ ['\n']) (text.length + 1)
  else p

/-- Where a place of the text is found if a line feed follows the text. -/
def Transcript.FoundPast (text : List Char) (t : Transcript) (p p' : Position) : Prop :=
  p' = p.pastFeed text t.kinds

namespace Reading

variable {r s : Reading}

/-- The layout tokens at the end say nothing of brackets. -/
theorem foundPast_finish (r : Reading) (text : List Char) :
    r.finish.FoundPast text = r.transcript.FoundPast text := by
  have hopen : openBrackets r.finish.kinds = openBrackets r.transcript.kinds :=
    congrArg (List.foldl BracketMark.pass []) r.marks_finish
  unfold Transcript.FoundPast Position.pastFeed
  rw [hopen]

theorem Underway.openBrackets_ne_nil (h : r.Underway text) :
    openBrackets r.transcript.kinds ≠ [] ↔ r.layout.brackets ≠ [] := by
  rw [← h.brackets.stack, Layout.openBrackets, ne_eq, List.map_eq_nil_iff]

/-- Outside brackets all places stay. -/
theorem Underway.foundPast_self (h : r.Underway text) (hclosed : r.layout.brackets = [])
    (p : Position) : r.transcript.FoundPast text p p := by
  refine (if_neg fun hopen => ?_).symm
  exact h.openBrackets_ne_nil.mp hopen.1 hclosed

/-- No token that has been read begins where the text ends within brackets. -/
theorem Underway.foundPast_start (h : r.Underway text) {t : Token}
    (ht : t ∈ r.transcript.tokens.toList) : r.transcript.FoundPast text t.start t.start := by
  refine (if_neg ?_).symm
  rintro ⟨hopen, hend⟩
  have hbegins := (h.openLine (h.openBrackets_ne_nil.mp hopen)).2 t ht
  rw [Token.BeginsIn, hend, offset_positionAt (Nat.le_refl _)] at hbegins
  exact Nat.lt_irrefl _ hbegins

/-- The tokens of a text before those that may differ. -/
theorem Underway.reflowed (h : r.Underway text) {before l l' : List Token} {d : Nat}
    (hbefore : before ⊆ r.transcript.tokens.toList) (hnested : Nested (before.map (·.kind)) d)
    (htail : Token.Reflowed (r.transcript.FoundPast text)
      (Stance.after (before.map (·.kind))) d l l') :
    Token.Reflowed (r.transcript.FoundPast text) .opened 0 (before ++ l) (before ++ l') :=
  .append hnested (fun t ht => h.marked t (hbefore ht)) (fun t ht => h.unnamed t (hbefore ht))
    (fun _ ht => h.foundPast_start (hbefore ht)) (List.forall₂_same.mpr fun _ _ => .inl rfl) htail

/-- The tokens of a text that ends within a line. -/
theorem tokens_finish_inLine (h : r.transcript.endsInLine = true) :
    r.finish.tokens.toList = r.transcript.tokens.toList ++
      Token.mark .newline r.transcript.cursor.position ::
        Token.closers r.layout.levels.length r.transcript.cursor.position := by
  rw [tokens_finish, endMarks, if_pos h]
  rfl

/-- The tokens of a text that ends behind a line. -/
theorem tokens_finish_behind (h : r.transcript.endsInLine = false) :
    r.finish.tokens.toList = r.transcript.tokens.toList ++
      Token.closers r.layout.levels.length r.transcript.cursor.position := by
  rw [tokens_finish, endMarks, if_neg (by simp [h])]
  rfl

end Reading

/-- The transcript behind the line feed. -/
def Transcript.pastFeed (t : Transcript) : Transcript := (t.withMore ['\n']).extend (.skip 1)

namespace Reading

variable {r s : Reading} {l : Layout} {u : Transcript}

/-- The readings have used up the text, and the text and the line feed. -/
inductive PassesFeed : Reading → Reading → Prop
  /-- The line feed is passed, between lines or within brackets. -/
  | passed {l : Layout} {u : Transcript} (usedUp : u.cursor.rest = [])
      (layout : l.beginsLine = true ∨ l.brackets ≠ []) : PassesFeed ⟨l, u⟩ ⟨l, u.pastFeed⟩
  /-- The line feed ends the line. -/
  | lineEnd {l : Layout} {u : Transcript} (usedUp : u.cursor.rest = []) (closed : l.brackets = []) :
      PassesFeed ⟨l, u⟩ ⟨l.leaveLine, (u.withMore ['\n']).extend (.token .newline 1)⟩
  /-- The line feed ends a captured line. -/
  | captured {l : Layout} {u : Transcript} (usedUp : u.cursor.rest = [])
      (block : Stance.after u.kinds = .captured) :
      PassesFeed ⟨l.leaveLine, u.mark .newline⟩ ⟨l.leaveLine, u.pastFeed.mark .newline⟩

theorem PassesFeed.rest_eq_nil (h : PassesFeed r s) : r.rest = [] ∧ s.rest = [] := by
  have hfeed {u : Transcript} (hu : u.cursor.rest = []) :
      ((u.cursor.withMore ['\n']).advance 1).rest = [] := by
    rw [Cursor.advance_rest, Cursor.withMore, hu]
    rfl
  cases h with
  | passed usedUp => exact ⟨usedUp, hfeed usedUp⟩
  | lineEnd usedUp => exact ⟨usedUp, hfeed usedUp⟩
  | captured usedUp => exact ⟨usedUp, hfeed usedUp⟩

/-- Readings that have passed the text find the same, but for where the last line ends. -/
structure FeedAlike (text : List Char) (t t' : Transcript) : Prop where
  tokens : Token.Reflowed (t.FoundPast text) .opened 0 t.tokens.toList t'.tokens.toList ∨
    Token.Closing 0 t.tokens.toList ∧ Token.Closing 0 t'.tokens.toList
  faults : t'.faults.toList = t.faults.toList

theorem Underway.position_eq (h : r.Underway text) (hrest : r.rest = []) :
    r.transcript.cursor.position = positionAt text text.length := by
  have hoffset := h.follows.along.offset_add_length
  rw [show r.transcript.cursor.rest = [] from hrest] at hoffset
  have hposition := h.follows.along.position_eq
  rwa [show r.transcript.cursor.position.offset = text.length from hoffset] at hposition

theorem Underway.position_pastFeed (h : r.Underway text) (hrest : r.rest = []) :
    r.transcript.pastFeed.cursor.position = positionAt (text ++ ['\n']) (text.length + 1) := by
  obtain ⟨passed, htext, htracker⟩ := h.follows.along
  have hcursor : r.transcript.cursor.rest = [] := hrest
  rw [hcursor, List.append_nil] at htext
  change ((r.transcript.cursor.withMore ['\n']).advance 1).tracker.position = _
  have htake : (passed ++ ['\n']).take (passed.length + 1) = passed ++ ['\n'] :=
    List.take_of_length_le (by simp)
  rw [Cursor.advance_tracker, Cursor.withMore, hcursor, positionAt, htext, htake,
    Tracker.read_append, htracker]
  rfl

/-- Within brackets the end of the last line is found behind the line feed. -/
theorem Underway.foundPast_end (h : r.Underway text) (hrest : r.rest = [])
    (hopen : r.layout.brackets ≠ []) :
    r.transcript.FoundPast text r.transcript.cursor.position
      r.transcript.pastFeed.cursor.position := by
  rw [h.position_pastFeed hrest, Transcript.FoundPast, Position.pastFeed,
    if_pos ⟨h.openBrackets_ne_nil.mpr hopen, h.position_eq hrest⟩]

/-- Where lines have ended, the ends of blocks stand before the line feed or behind it. -/
theorem feedAlike_between (h : (Reading.mk l u).Underway text) (hbegins : l.beginsLine = true) :
    FeedAlike text (Reading.mk l u).finish (Reading.mk l u.pastFeed).finish := by
  refine ⟨?_, by rw [faults_finish, faults_finish]; rfl⟩
  rw [foundPast_finish]
  have hlast : ∀ last ∈ u.kinds.getLast?, last = newline :=
    (h.laid.atStart (Bool.and_eq_true_iff.mp hbegins).1).2
  have hnested : Nested u.kinds l.levels.length := h.laid.nested
  rcases List.eq_nil_or_concat u.kinds with hnil | ⟨before, last, hkinds⟩
  · right
    have hnone : u.tokens.toList = [] := List.map_eq_nil_iff.mp hnil
    have hends : u.endsInLine = false := by rw [Transcript.endsInLine_eq, hnil]; rfl
    have hlevels : l.levels.length = 0 := by simpa [hnil] using hnested.count_eq.symm
    rw [tokens_finish_behind hends, tokens_finish_behind (r := ⟨l, u.pastFeed⟩) hends]
    change Token.Closing 0 (u.tokens.toList ++ _) ∧ Token.Closing 0 (u.tokens.toList ++ _)
    rw [hnone, hlevels]
    exact ⟨.ended rfl, .ended rfl⟩
  · left
    obtain rfl : last = newline := hlast last (by simp [hkinds])
    have hends : u.endsInLine = false := by simp [Transcript.endsInLine_eq, hkinds, isStructural]
    have hbetween : Stance.after u.kinds = .between := by
      rw [hkinds, List.concat_eq_append, Stance.after_concat]
      rfl
    rw [tokens_finish_behind hends, tokens_finish_behind (r := ⟨l, u.pastFeed⟩) hends]
    exact h.reflowed (List.Subset.refl _) hnested (hbetween ▸ .closers _ _ _)

/-- Within brackets the last line ends before the line feed or behind it. -/
theorem feedAlike_brackets (h : (Reading.mk l u).Underway text) (hrest : u.cursor.rest = [])
    (hopen : l.brackets ≠ []) :
    FeedAlike text (Reading.mk l u).finish (Reading.mk l u.pastFeed).finish := by
  refine ⟨.inl ?_, by rw [faults_finish, faults_finish]; rfl⟩
  have hends : u.endsInLine = true := (h.openLine hopen).1
  rw [foundPast_finish, tokens_finish_inLine hends,
    tokens_finish_inLine (r := ⟨l, u.pastFeed⟩) hends]
  refine h.reflowed (List.Subset.refl _) h.laid.nested (.lastLine (isMark_mark _ _)
    (isMark_mark _ _) ?_ _ _ _)
  exact Stance.meets_of_endsLine (Stance.endsLine_after_of_endsInLine hends)
    (h.foundPast_end hrest hopen)

/-- The token over the line feed ends the line. -/
theorem Underway.extend_newline (hrest : u.cursor.rest = []) :
    ∃ fed : Token, fed.IsMark .newline ∧ fed.start = u.cursor.position ∧
      ((u.withMore ['\n']).extend (.token .newline 1)).tokens.toList = u.tokens.toList ++ [fed] ∧
      ((u.withMore ['\n']).extend (.token .newline 1)).endsInLine = false := by
  refine ⟨⟨.newline, "\n", u.cursor.position, u.pastFeed.cursor.position⟩, ⟨rfl, ?_⟩, rfl,
    ?_, ?_⟩
  · have hspace : CharClass.isWhitespace '\n' = true := by decide
    simpa using hspace
  · simp [Transcript.extend, Transcript.withMore, Transcript.pastFeed, Cursor.withMore, hrest,
      Cursor.position]
  · simp [Transcript.endsInLine, Transcript.extend, isStructural, Token.isStructural]

/-- Where the line feed ends the last line, that begins where the text ends. -/
theorem feedAlike_lineEnd (h : (Reading.mk l u).Underway text) (hrest : u.cursor.rest = [])
    (hclosed : l.brackets = []) :
    FeedAlike text (Reading.mk l u).finish
      (Reading.mk l.leaveLine ((u.withMore ['\n']).extend (.token .newline 1))).finish := by
  refine ⟨.inl ?_, by rw [faults_finish, faults_finish]; rfl⟩
  obtain ⟨fed, hmark, hstart, htokens, hends'⟩ := Underway.extend_newline hrest
  have htokens' := tokens_finish_behind
    (r := ⟨l.leaveLine, (u.withMore ['\n']).extend (.token .newline 1)⟩) hends'
  rw [htokens, List.append_assoc] at htokens'
  rw [foundPast_finish, htokens']
  cases hends : u.endsInLine with
  | true =>
    rw [tokens_finish_inLine hends]
    refine h.reflowed (List.Subset.refl _) h.laid.nested (.lastLine (isMark_mark _ _) hmark
      ?_ _ _ _)
    exact hstart ▸ Stance.meets_refl _ (h.foundPast_self hclosed _)
  | false =>
    have hbehind : (Stance.after u.kinds).endsLine = true := by
      refine Stance.endsLine_after fun last hlast => ?_
      rw [Transcript.endsInLine_eq, Option.mem_def.mp hlast] at hends
      simpa using hends
    rw [tokens_finish_behind hends]
    exact h.reflowed (List.Subset.refl _) h.laid.nested
      (hstart ▸ .emptyLine hbehind hmark.kind_eq _ _)

/-- Where the line feed ends captured text, a line ends before it or behind it. -/
theorem feedAlike_captured (h : (Reading.mk l.leaveLine (u.mark .newline)).Underway text)
    (hblock : Stance.after u.kinds = .captured) :
    FeedAlike text (Reading.mk l.leaveLine (u.mark .newline)).finish
      (Reading.mk l.leaveLine (u.pastFeed.mark .newline)).finish := by
  refine ⟨.inl ?_, by rw [faults_finish, faults_finish]; rfl⟩
  have hmark (u : Transcript) : (u.mark .newline).tokens.toList = u.tokens.toList ++
      [Token.mark .newline u.cursor.position] ∧ (u.mark .newline).endsInLine = false := by
    simp [Transcript.mark, Transcript.endsInLine, Token.mark, Token.isStructural, isStructural]
  have hnested : Nested (u.kinds ++ [newline]) l.levels.length := by
    have hnested := h.laid.nested
    rwa [Transcript.kinds, (hmark u).1, List.map_append] at hnested
  obtain ⟨before, hbefore, -, hlevels⟩ := hnested.exists_of_concat
  obtain rfl : before = l.levels.length := by simpa using hlevels
  have htokens := tokens_finish_behind (r := ⟨l.leaveLine, u.mark .newline⟩) (hmark u).2
  have htokens' := tokens_finish_behind (r := ⟨l.leaveLine, u.pastFeed.mark .newline⟩)
    (hmark u.pastFeed).2
  rw [(hmark _).1, List.append_assoc] at htokens htokens'
  rw [foundPast_finish, htokens, htokens']
  refine h.reflowed ?_ hbefore (.lastLine (isMark_mark _ _) (isMark_mark _ _) ?_ _ _ _)
  · rw [(hmark u).1]
    exact List.subset_append_left _ _
  · change (Stance.after u.kinds).Meets _ _ _
    rw [hblock]
    trivial

/-- Readings that have passed the line feed come to alike transcripts. -/
theorem PassesFeed.finish (h : PassesFeed r s) (hr : r.Underway text) :
    FeedAlike text r.finish s.finish := by
  cases h with
  | passed usedUp layout =>
    rcases layout with hbegins | hopen
    · exact feedAlike_between hr hbegins
    · exact feedAlike_brackets hr usedUp hopen
  | lineEnd usedUp closed => exact feedAlike_lineEnd hr usedUp closed
  | captured usedUp block => exact feedAlike_captured hr block

/-- The second reading goes along the text with the line feed behind it. -/
inductive Fed (r s : Reading) : Prop
  | ahead (unended : Unended r.rest) (same : s = r.withMore ['\n'])
  | behind (passes : PassesFeed r s)

/-- Where nothing is left but the line feed, one more round passes it. -/
theorem passesFeed_round (hrest : r.rest = []) : PassesFeed r (r.withMore ['\n']).round := by
  obtain ⟨l, u⟩ := r
  have hcursor : (u.cursor.withMore ['\n']).rest = ['\n'] := by
    rw [Cursor.withMore, show u.cursor.rest = [] from hrest]
    rfl
  have hround : (Reading.mk l (u.withMore ['\n'])).round =
      ⟨(Round.next l (u.cursor.withMore ['\n'])).layout,
        (u.withMore ['\n']).extendAll (Round.next l (u.cursor.withMore ['\n'])).pieces⟩ := rfl
  rw [Reading.withMore, hround]
  cases hbegins : l.beginsLine with
  | true =>
    rw [Round.next_beginsLine hbegins (by simp [hcursor]), hcursor]
    exact .passed hrest (.inl hbegins)
  | false =>
    rw [Round.next_within hbegins hcursor, Round.within_break rfl]
    unfold Round.endLine
    split_ifs with hclosed
    · exact .lineEnd hrest (List.isEmpty_iff.mp hclosed)
    · exact .passed hrest (.inr (by simpa using hclosed))

/-- Captured text that goes up to the line feed ends the line, unless a bracket is open. -/
theorem passesFeed_endLine (hrest : u.cursor.rest = [])
    (hblock : Stance.after u.kinds = .captured) :
    PassesFeed ⟨(Round.endLine l 0).layout, u.extendAll (Round.endLine l 0).pieces⟩
      ⟨(Round.endLine l 0).layout, u.pastFeed.extendAll (Round.endLine l 0).pieces⟩ := by
  unfold Round.endLine
  split_ifs with hclosed
  · exact .captured hrest hblock
  · exact .passed hrest (.inr (by simpa using hclosed))

/-- A round on both texts leaves the same text, or passes the line feed with the last line. -/
theorem fed_round (h : Unended r.rest) (hrest : r.rest ≠ []) :
    Fed r.round (r.withMore ['\n']).round := by
  have hnext := Round.next_fed h hrest r.layout
  have hround : r.round = ⟨(Round.next r.layout r.transcript.cursor).layout,
      r.transcript.extendAll (Round.next r.layout r.transcript.cursor).pieces⟩ := rfl
  have hround' : (r.withMore ['\n']).round =
      ⟨(Round.next r.layout (r.transcript.cursor.withMore ['\n'])).layout,
        (r.transcript.withMore ['\n']).extendAll
          (Round.next r.layout (r.transcript.cursor.withMore ['\n'])).pieces⟩ := rfl
  have hend {ps : List Piece} (usedUp : Piece.total ps = r.rest.length) :
      (r.transcript.extendAll ps).cursor.rest = [] := by
    rw [Transcript.extendAll_cursor, Cursor.advance_rest, usedUp]
    exact List.drop_length
  rw [hround, hround']
  generalize Round.next r.layout r.transcript.cursor = a at hnext ⊢
  generalize Round.next r.layout (r.transcript.cursor.withMore ['\n']) = b at hnext ⊢
  cases hnext with
  | same fits =>
    refine .ahead ?_ ?_
    · dsimp only [Reading.rest]
      rw [Transcript.extendAll_cursor, Cursor.advance_rest]
      exact h.drop _
    · rw [Transcript.extendAll_withMore fits]
      rfl
  | @blank begins n usedUp =>
    have hskip : Piece.total [.skip n] = r.rest.length := usedUp
    have hmore := Transcript.extendAll_withMore hskip.le ['\n']
    change Fed ⟨r.layout, r.transcript.extendAll [.skip n]⟩
      ⟨r.layout, ((r.transcript.withMore ['\n']).extendAll [.skip n]).extend (.skip 1)⟩
    rw [hmore]
    exact .behind (.passed (hend hskip) (.inl begins))
  | @captured inside ps usedUp block =>
    have hblock : Stance.after (r.transcript.extendAll ps).kinds = .captured := by
      rw [Transcript.kinds_extendAll]
      exact Stance.after_block block _
    have hmore := Transcript.extendAll_withMore usedUp.le ['\n']
    simp only [Round.thenEndLine, Transcript.extendAll_append, hmore]
    exact .behind (passesFeed_endLine (hend usedUp) hblock)

/-- The line feed makes no difference but for where the last line ends. -/
theorem transcribe_fed (h : Unended text) :
    FeedAlike text (transcribe text) (transcribe (text ++ ['\n'])) := by
  refine complete_induction (R := fun r s => r.Underway text ∧ Fed r s) (Q := FeedAlike text) ?step
    ?done ⟨underway_start text, .ahead h rfl⟩
  case step =>
    rintro r s ⟨hr, hs⟩ hrest
    cases hs with
    | behind passes => exact absurd passes.rest_eq_nil.1 hrest
    | ahead unended same =>
      subst same
      have hrest' : (r.withMore ['\n']).rest ≠ [] := by simp [rest_withMore]
      refine ⟨1, 1, ?_, ?_⟩
      · rw [rounds_one hrest, rounds_one hrest']
        exact ⟨hr.round hrest, fed_round unended hrest⟩
      · rw [rounds_one hrest]
        exact roundsLeft_round_lt hrest
  case done =>
    rintro r s ⟨hr, hs⟩ hrest
    obtain ⟨s', hpasses, hcomplete⟩ : ∃ s', PassesFeed r s' ∧ s'.complete = s.complete := by
      cases hs with
      | behind passes => exact ⟨s, passes, rfl⟩
      | ahead unended same =>
        subst same
        have hrest' : (r.withMore ['\n']).rest ≠ [] := by simp [rest_withMore]
        exact ⟨_, passesFeed_round hrest, complete_round hrest'⟩
    rw [← hcomplete, complete_of_rest_eq_nil hrest, complete_of_rest_eq_nil hpasses.rest_eq_nil.2]
    exact hpasses.finish hr

end Reading

namespace Document

/-- A line feed behind a last line that is not ended changes neither the lexical errors nor the
tree, locations included. The parse errors keep their messages and places; only where a bracket is
open at the end, an error that is found there is found behind the line feed. -/
theorem ofSource_finalNewline (source : String) (h : Unended source.toList)
    (options : ParseOptions) :
    let document := ofSource source options
    let document' := ofSource (source ++ "\n") options
    document'.lexicalErrors = document.lexicalErrors ∧ document'.tree = document.tree ∧
      List.Forall₂ (ParseError.Alike fun p p' =>
          p' = p.pastFeed source.toList (document.tokens.map (·.kind)))
        document.parseErrors document'.parseErrors := by
  obtain ⟨htokens, hfaults⟩ := Reading.transcribe_fed h
  have hsource : (source ++ "\n").toList = source.toList ++ ['\n'] := String.toList_append
  rw [← hsource] at htokens hfaults
  obtain ⟨body, stop, hbody, -⟩ := Reading.nested_transcribe source.toList
  obtain ⟨body', stop', hbody', -⟩ := Reading.nested_transcribe (source ++ "\n").toList
  have hmark (p : Position) : (Token.mark .eof p).kind = .eof := rfl
  have hread := ParsedFile.ofTokens_reflowed (hmark stop) (hmark stop')
    (hbody ▸ hbody' ▸ htokens) options
  rw [← hbody, ← hbody'] at hread
  unfold ofSource TokenizedText.ofLabelledSource
  dsimp only
  exact ⟨congrArg (List.map (LexicalFault.toError options.file)) hfaults, hread.1.symm, hread.2⟩

/-- Captured text that goes up to the end is in the tree either way. -/
theorem ofSource_finalNewline_captured :
    let source := "agent A:\n  agentConfig:\n    k: |\n      text"
    Unended source.toList ∧ (ofSource source .standard).tree.isSome = true ∧
      (ofSource (source ++ "\n") .standard).tree = (ofSource source .standard).tree ∧
      (ofSource (source ++ "\n") .standard).parseErrors = [] := by
  intro source
  have hended : Unended source.toList := .of_getLast? (c := 't') (by decide +kernel) rfl
  obtain ⟨-, htree, herrors⟩ := ofSource_finalNewline source hended .standard
  have hnone : (ofSource source .standard).parseErrors = [] := by decide +kernel
  rw [hnone, List.forall₂_nil_left_iff] at herrors
  exact ⟨hended, by decide +kernel, htree, herrors⟩

/-- A value that is missing where the text ends within brackets is missed behind the line feed. -/
theorem parseErrors_finalNewline_openBracket :
    let source := "agent A:\n  agentConfig:\n    a: (("
    Unended source.toList ∧
      (ofSource (source ++ "\n") .standard).parseErrors.map (·.message) =
        (ofSource source .standard).parseErrors.map (·.message) ∧
      (ofSource source .standard).parseErrors.map (·.location.map (·.start)) =
        [some ⟨3, 10, 33⟩] ∧
      (ofSource (source ++ "\n") .standard).parseErrors.map (·.location.map (·.start)) =
        [some ⟨4, 1, 34⟩] :=
  ⟨.of_getLast? (c := '(') (by decide +kernel) rfl, by decide +kernel, by decide +kernel,
    by decide +kernel⟩

end Document

end AgentScript
