import AgentScript.Proofs.Reading.Composites

/-!
# Levels around a line

The open levels of a text grow strictly from the level zero of the whole text. The indentation of
a line leaves the levels that the line exceeds and one more: the least of the others, or a new one
of the line's own width where there is no other. The tokens and errors tell what has changed.
-/
namespace AgentScript

open CharClass Lexeme

/-- All open levels, from the level zero of the whole text to the innermost. -/
def Layout.stack (l : Layout) : List Nat := 0 :: l.levels.reverse

/-- The levels around a line: those it exceeds and the least of the others, or its own width. -/
def levelsAround (stack : List Nat) (width : Nat) : List Nat :=
  stack.filter (· < width) ++ [(stack.filter (width ≤ ·)).min?.getD width]

theorem levelsAround_append {below above : List Nat} {width : Nat}
    (hbelow : ∀ level ∈ below, level < width) (habove : ∀ level ∈ above, width ≤ level) :
    levelsAround (below ++ above) width = below ++ [above.min?.getD width] := by
  have hexceeded : (below ++ above).filter (· < width) = below := by
    rw [List.filter_append, List.filter_eq_self.mpr (by simpa using hbelow),
      List.filter_eq_nil_iff.mpr (by simpa using habove), List.append_nil]
  have hothers : (below ++ above).filter (width ≤ ·) = above := by
    rw [List.filter_append, List.filter_eq_nil_iff.mpr (by simpa using hbelow),
      List.filter_eq_self.mpr (by simpa using habove), List.nil_append]
  rw [levelsAround, hexceeded, hothers]

/-- Above the levels that a line exceeds, the next one is around the line as well. -/
theorem levelsAround_append_cons {below above : List Nat} {level width : Nat}
    (hbelow : ∀ b ∈ below, b < width) (hlevel : width ≤ level) (habove : ∀ a ∈ above, level < a) :
    levelsAround (below ++ level :: above) width = below ++ [level] := by
  have hmin : (level :: above).min? = some level := by
    rw [List.min?_eq_some_iff]
    simpa using fun a ha => (habove a ha).le
  rw [levelsAround_append hbelow, hmin, Option.getD_some]
  simpa [hlevel] using fun a ha => hlevel.trans (habove a ha).le

namespace Reindent

/-- Levels listed from the innermost, with the level zero at their end. -/
def Descend (levels : List Nat) : Prop := (levels ++ [0]).Pairwise (· > ·)

/-- What a line can do to descending levels. -/
inductive Lands (levels : List Nat) (width : Nat) : Reindent → Prop
  /-- It exceeds all levels. -/
  | opens (below : ∀ level ∈ levels ++ [0], level < width) :
      Lands levels width ⟨width :: levels, true, 0, true⟩
  /-- It meets a level. -/
  | meets {above below : List Nat} (split : levels ++ [0] = above ++ width :: below)
      (exceeding : ∀ level ∈ above, width < level) (exceeded : ∀ level ∈ below, level < width) :
      Lands levels width ⟨levels.drop above.length, false, above.length, true⟩
  /-- It falls short of a level without meeting the next. -/
  | misses {above below : List Nat} {level : Nat} (split : levels ++ [0] = above ++ level :: below)
      (exceeding : ∀ a ∈ above, level < a) (short : width < level)
      (exceeded : ∀ b ∈ below, b < width) :
      Lands levels width ⟨levels.drop above.length, false, above.length, false⟩

variable {levels : List Nat} {width : Nat}

theorem descend_nil : Descend [] := List.pairwise_singleton _ _

theorem Descend.drop (h : Descend levels) {n : Nat} (hn : n ≤ levels.length) :
    Descend (levels.drop n) := by
  unfold Descend
  rw [← List.drop_append_of_le_length hn]
  exact List.Pairwise.drop h

/-- The levels that exceed a width come first, and one that does not comes next. -/
theorem exists_split (levels : List Nat) (width : Nat) :
    ∃ landing below, levels ++ [0] =
        levels.takeWhile (width < ·) ++ landing :: below ∧ landing ≤ width ∧
      (levels.drop (levels.takeWhile (width < ·)).length).headD 0 = landing := by
  induction levels with
  | nil => exact ⟨0, [], rfl, Nat.zero_le _, rfl⟩
  | cons level levels ih =>
    by_cases h : width < level
    · obtain ⟨landing, below, hsplit, hle, hhead⟩ := ih
      refine ⟨landing, below, ?_, hle, ?_⟩
      · simp [h, hsplit]
      · simpa [h] using hhead
    · exact ⟨level, levels ++ [0], by simp [h], by omega, by simp [h]⟩

/-- The innermost level is the first of all levels and the level zero. -/
theorem headD_eq {level : Nat} {more : List Nat} (h : levels ++ [0] = level :: more) :
    levels.headD 0 = level := by
  cases levels <;> exact (List.cons.inj h).1

/-- A line that does not exceed the innermost level closes the levels that exceed it, but for the
last one if it meets none. -/
theorem ofWidth_closes {above : List Nat} {landing : Nat} (h : ¬ levels.headD 0 < width)
    (habove : levels.takeWhile (width < ·) = above)
    (hhead : (levels.drop above.length).headD 0 = landing) :
    ofWidth levels width =
      ⟨levels.drop (if landing = width then above.length else above.length - 1), false,
        if landing = width then above.length else above.length - 1, landing == width⟩ := by
  subst habove hhead
  rw [ofWidth, if_neg h]

theorem lands_ofWidth (h : Descend levels) (width : Nat) :
    Lands levels width (ofWidth levels width) := by
  obtain ⟨landing, below, hsplit, hle, hhead⟩ := exists_split levels width
  have hexceeding : ∀ level ∈ levels.takeWhile (width < ·), width < level :=
    fun level hlevel => by simpa using List.mem_takeWhile_imp hlevel
  generalize habove : levels.takeWhile (width < ·) = above at hsplit hhead hexceeding
  rw [Descend, hsplit, List.pairwise_append, List.pairwise_cons] at h
  obtain ⟨haboves, ⟨hbelow, -⟩, -⟩ := h
  have hnot (hreached : above ≠ [] ∨ landing = width) : ¬ levels.headD 0 < width := by
    cases above with
    | nil => exact (headD_eq hsplit).symm ▸ (hreached.resolve_left (· rfl)).not_lt
    | cons level above =>
      exact (headD_eq hsplit).symm ▸ (hexceeding level List.mem_cons_self).asymm
  by_cases hmeets : landing = width
  · -- The landing level is the width itself.
    subst hmeets
    rw [ofWidth_closes (hnot (.inr rfl)) habove hhead, if_pos rfl, beq_self_eq_true]
    exact .meets hsplit hexceeding hbelow
  have hlt : landing < width := lt_of_le_of_ne hle hmeets
  have hbelow : ∀ level ∈ landing :: below, level < width :=
    List.forall_mem_cons.mpr ⟨hlt, fun level hlevel => (hbelow level hlevel).trans hlt⟩
  rcases List.eq_nil_or_concat' above with rfl | ⟨above, level, rfl⟩
  · rw [ofWidth_opens ((headD_eq hsplit).trans_lt hlt)]
    exact .opens (hsplit ▸ hbelow)
  · -- The line stays in the last level that exceeds it.
    have hshort : width < level := hexceeding level (by simp)
    rw [ofWidth_closes (hnot (.inl (by simp))) habove hhead, if_neg hmeets, List.length_append,
      List.length_singleton, Nat.add_sub_cancel, beq_eq_false_iff_ne.mpr hmeets]
    rw [List.append_assoc, List.singleton_append] at hsplit
    exact .misses hsplit (by simpa using (List.pairwise_append.mp haboves).2.2) hshort hbelow

/-- What is left of the levels, with the level zero, when those before a split are closed. -/
theorem drop_append_zero {levels above rest : List Nat} (h : levels ++ [0] = above ++ rest)
    (hrest : rest ≠ []) :
    above.length ≤ levels.length ∧ levels.drop above.length ++ [0] = rest := by
  have hlength := congrArg List.length h
  have hpos := List.length_pos_iff.mpr hrest
  simp only [List.length_append, List.length_singleton] at hlength
  have hle : above.length ≤ levels.length := by omega
  refine ⟨hle, ?_⟩
  rw [← List.drop_append_of_le_length hle, h, List.drop_left]

namespace Lands

variable {r : Reindent}

theorem descend (h : Lands levels width r) (hlevels : Descend levels) : Descend r.levels := by
  cases h with
  | opens below => exact List.pairwise_cons.mpr ⟨below, hlevels⟩
  | meets split => exact hlevels.drop (drop_append_zero split (List.cons_ne_nil _ _)).1
  | misses split => exact hlevels.drop (drop_append_zero split (List.cons_ne_nil _ _)).1

/-- The levels behind the line are those around it. -/
theorem levels_eq (h : Lands levels width r) :
    (r.levels ++ [0]).reverse = levelsAround (levels ++ [0]).reverse width := by
  cases h with
  | opens below =>
    have haround : levelsAround ((levels ++ [0]).reverse ++ []) width =
        (levels ++ [0]).reverse ++ [width] :=
      levelsAround_append (fun level hlevel => below level (List.mem_reverse.mp hlevel)) nofun
    rw [List.append_nil] at haround
    rw [haround, List.cons_append, List.reverse_cons]
  | @meets above below split exceeding exceeded =>
    rw [(drop_append_zero split (List.cons_ne_nil _ _)).2, split]
    simp only [List.reverse_append, List.reverse_cons, List.append_assoc, List.singleton_append]
    exact (levelsAround_append_cons (by simpa using exceeded) (Nat.le_refl _)
      (by simpa using exceeding)).symm
  | @misses above below level split exceeding short exceeded =>
    rw [(drop_append_zero split (List.cons_ne_nil _ _)).2, split]
    simp only [List.reverse_append, List.reverse_cons, List.append_assoc, List.singleton_append]
    exact (levelsAround_append_cons (by simpa using exceeded) short.le
      (by simpa using exceeding)).symm

/-- A level is opened where the line exceeds all levels. -/
theorem opens_iff (h : Lands levels width r) :
    r.opens = true ↔ ∀ level ∈ levels ++ [0], level < width := by
  cases h with
  | opens below => exact iff_of_true rfl below
  | meets split =>
    refine iff_of_false Bool.false_ne_true fun hall => ?_
    exact lt_irrefl width (hall width (split ▸ by simp))
  | misses split _ short =>
    refine iff_of_false Bool.false_ne_true fun hall => ?_
    exact short.asymm (hall _ (split ▸ by simp))

/-- A line that opens no level closes as many as the levels become fewer. -/
theorem length_add_closes (h : Lands levels width r) (hopens : r.opens = false) :
    r.levels.length + r.closes = levels.length := by
  cases h with
  | opens => exact nomatch hopens
  | meets split =>
    have hle := (drop_append_zero split (List.cons_ne_nil _ _)).1
    rw [List.length_drop]
    exact Nat.sub_add_cancel hle
  | misses split =>
    have hle := (drop_append_zero split (List.cons_ne_nil _ _)).1
    rw [List.length_drop]
    exact Nat.sub_add_cancel hle

/-- A line is inconsistent where some level exceeds it and none is met. -/
theorem consistent_eq_false_iff (h : Lands levels width r) :
    r.consistent = false ↔
      (∃ level ∈ levels ++ [0], width < level) ∧ width ∉ levels ++ [0] := by
  cases h with
  | opens below =>
    refine iff_of_false nofun ?_
    rintro ⟨⟨level, hmem, hlt⟩, -⟩
    exact hlt.asymm (below level hmem)
  | meets split =>
    refine iff_of_false nofun ?_
    rintro ⟨-, hnot⟩
    exact hnot (split ▸ by simp)
  | @misses above below level split exceeding short exceeded =>
    refine iff_of_true rfl ⟨⟨level, split ▸ by simp, short⟩, fun hmem => ?_⟩
    rw [split, List.mem_append, List.mem_cons] at hmem
    rcases hmem with hmem | rfl | hmem
    · exact short.asymm (exceeding width hmem)
    · exact lt_irrefl _ short
    · exact lt_irrefl _ (exceeded width hmem)

end Lands

end Reindent

theorem Layout.stack_eq (l : Layout) : l.stack = (l.levels ++ [0]).reverse := by
  simp [stack]

namespace Reading

open Reindent (Descend Lands)

variable {r : Reading}

theorem descend_round (hrest : r.rest ≠ []) (h : Descend r.layout.levels) :
    Descend r.round.layout.levels := by
  have hform := Round.next_form r.layout hrest
  have hlayout : r.round.layout = (Round.next r.layout r.transcript.cursor).layout := rfl
  rw [hlayout]
  generalize Round.next r.layout r.transcript.cursor = next at hform ⊢
  cases hform with
  | blank => exact h
  | indented => exact (Reindent.lands_ofWidth h _).descend h
  | within => exact h
  | ended => exact h

theorem descend_rounds (text : List Char) (n : Nat) :
    Descend (rounds n (start text)).layout.levels :=
  rounds_induction (P := fun r => Descend r.layout.levels)
    (fun _ hrest h => descend_round hrest h) n Reindent.descend_nil

/-- The reading before another text. -/
def before (text : List Char) (r : Reading) : Reading :=
  { r with transcript := { r.transcript with cursor := { r.transcript.cursor with rest := text } } }

/-- What a line of a width does to the levels of a reading, and which tokens and errors tell of
it. -/
structure Reindents (r r' : Reading) (width : Nat) (file : Option String) : Prop where
  stack : r'.layout.stack = levelsAround r.layout.stack width
  opens : (∀ level ∈ r.layout.stack, level < width) →
    r'.transcript.kinds = r.transcript.kinds ++ [.indent]
  closes : ¬ (∀ level ∈ r.layout.stack, level < width) →
    ∃ closed, r'.layout.stack.length + closed = r.layout.stack.length ∧
      r'.transcript.kinds = r.transcript.kinds ++ List.replicate closed .dedent
  inconsistent : (∃ level ∈ r.layout.stack, width < level) ∧ width ∉ r.layout.stack →
    r'.transcript.errors file = r.transcript.errors file ++
      [⟨"unindent does not match any outer indentation level", r.transcript.cursor.position, width,
        file⟩]
  consistent : ¬ ((∃ level ∈ r.layout.stack, width < level) ∧ width ∉ r.layout.stack) →
    r'.transcript.errors file = r.transcript.errors file

/-- The faults that tell of an indentation. -/
theorem faults_indentation (r : Reindent) (width : Nat) (c : Cursor) :
    c.faults (Round.indentation r width) =
      if r.opens || r.consistent then [] else [⟨.inconsistentUnindent, c.position, width⟩] := by
  have hdedents (n : Nat) (c : Cursor) :
      c.faults (List.replicate n (.token .dedent 0)) = [] := by
    induction n generalizing c with
    | zero => rfl
    | succ n ih => exact ih _
  unfold Round.indentation
  cases r.opens <;> cases r.consistent <;> simp [Cursor.faults, hdedents]

/-- The round on a line with text, where a line begins. -/
theorem round_line (hbegins : r.layout.beginsLine = true) (hline : restIsBlank r.rest = false) :
    r.round = ⟨r.layout.enterLine (blankLength r.rest), r.transcript.extendAll (Round.indentation
      (Reindent.ofWidth r.layout.levels (blankLength r.rest)) (blankLength r.rest))⟩ := by
  have hrest : r.rest ≠ [] := by
    intro hnil
    rw [hnil] at hline
    exact nomatch hline
  have hnext : Round.next r.layout r.transcript.cursor = Round.beginLine r.layout r.rest :=
    Round.next_beginsLine hbegins hrest
  rw [round_of_next hnext, Round.beginLine, if_neg (by simp [hline])]

/-- The kinds that tell of an indentation. -/
theorem kinds_indentation (r : Reindent) (width : Nat) :
    Piece.kinds (Round.indentation r width) =
      if r.opens then [.indent] else List.replicate r.closes .dedent := by
  obtain ⟨levels, opens, closes, consistent⟩ := r
  cases opens with
  | true => rfl
  | false => exact kinds_indentation_closes levels closes consistent width

/-- The line is read by what its width does to the levels. -/
theorem Reindents.of_lands {r' : Reading} {reindent : Reindent} {width : Nat}
    {file : Option String} (h : Lands r.layout.levels width reindent)
    (hlevels : r'.layout.levels = reindent.levels)
    (hkinds : r'.transcript.kinds = r.transcript.kinds ++
      if reindent.opens then [.indent] else List.replicate reindent.closes .dedent)
    (herrors : r'.transcript.errors file = r.transcript.errors file ++
      if reindent.opens || reindent.consistent then [] else
        [⟨LexicalCause.inconsistentUnindent.message, r.transcript.cursor.position, width, file⟩]) :
    r.Reindents r' width file := by
  have hmem (level : Nat) : level ∈ r.layout.stack ↔ level ∈ r.layout.levels ++ [0] := by
    rw [Layout.stack_eq, List.mem_reverse]
  have hopens : (∀ level ∈ r.layout.stack, level < width) ↔ reindent.opens = true := by
    simp only [hmem, h.opens_iff]
  have hconsistent : ((∃ level ∈ r.layout.stack, width < level) ∧ width ∉ r.layout.stack) ↔
      reindent.consistent = false := by
    simp only [hmem, h.consistent_eq_false_iff]
  constructor
  case stack => rw [Layout.stack_eq, Layout.stack_eq, hlevels, h.levels_eq]
  case opens =>
    intro hall
    rw [hkinds, if_pos (hopens.mp hall)]
  case closes =>
    intro hall
    have hnot : reindent.opens = false := by simpa using hopens.not.mp hall
    refine ⟨reindent.closes, ?_, by rw [hkinds, if_neg (by simp [hnot])]⟩
    have hlength := h.length_add_closes hnot
    simp only [Layout.stack, List.length_cons, List.length_reverse, hlevels]
    omega
  case inconsistent =>
    intro hmissed
    have hnot : reindent.opens = false := by
      by_contra hne
      obtain ⟨level, hlevel, hlt⟩ := hmissed.1
      exact hlt.asymm (hopens.mpr (by simpa using hne) level hlevel)
    rw [herrors, hnot, hconsistent.mp hmissed]
    rfl
  case consistent =>
    intro hmet
    have htrue : reindent.consistent = true := by simpa using hconsistent.not.mp hmet
    rw [herrors, htrue, Bool.or_true, if_pos rfl, List.append_nil]

theorem reindents_line (hlevels : Descend r.layout.levels) (hbegins : r.layout.beginsLine = true)
    {line : List Char} (hline : restIsBlank line = false) (file : Option String) :
    r.Reindents (r.before line).round (blankLength line) file := by
  refine .of_lands (Reindent.lands_ofWidth hlevels (blankLength line)) ?_ ?_ ?_
  · rw [round_line (r := r.before line) hbegins hline]
    rfl
  · rw [round_line (r := r.before line) hbegins hline, Transcript.kinds_extendAll,
      kinds_indentation]
    rfl
  · rw [round_line (r := r.before line) hbegins hline, Transcript.errors,
      Transcript.faults_extendAll, faults_indentation, List.map_append]
    exact congrArg _ (apply_ite (List.map (LexicalFault.toError file)) _ _ _)

/-- The open levels of every text grow strictly from zero, however far it has been read. Where a
line begins, its indentation leaves the levels around it, and the tokens and errors tell so. -/
theorem line_reindents (source : String) (file : Option String) (n : Nat) :
    let r := rounds n (start source.toList)
    (r.layout.stack.Pairwise (· < ·) ∧ r.layout.stack.head? = some 0) ∧
      ∀ line, r.layout.beginsLine = true → restIsBlank line = false →
        r.Reindents (r.before line).round (blankLength line) file := by
  intro r
  have hlevels := descend_rounds source.toList n
  refine ⟨⟨?_, rfl⟩, fun line hbegins hline => reindents_line hlevels hbegins hline file⟩
  rw [Layout.stack_eq, List.pairwise_reverse]
  exact hlevels

/-- A line between two levels, six blanks wide in a block of eight within one of four. -/
theorem line_reindents_missedLevel :
    let r := rounds 40 (start "a\n    b\n        c\n".toList)
    r.layout.beginsLine = true ∧ r.layout.stack = [0, 4, 8] ∧
      restIsBlank "      d".toList = false ∧
      r.Reindents (r.before "      d".toList).round (blankLength "      d".toList) none :=
  have hbegins : (rounds 40 (start "a\n    b\n        c\n".toList)).layout.beginsLine = true := by
    decide +kernel
  have hline : restIsBlank "      d".toList = false := by decide
  ⟨hbegins, by decide +kernel, hline,
    (line_reindents "a\n    b\n        c\n" none 40).2 _ hbegins hline⟩

end Reading

end AgentScript
