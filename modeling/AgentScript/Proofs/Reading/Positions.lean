import Mathlib.Algebra.GroupWithZero.Nat
import AgentScript.Proofs.Reading.Spans

/-!
# The order of positions

With every character a tracker goes on to a later position, also between a carriage return and its
line feed, where neither the line nor the column changes. So the positions of one text are ordered
as their offsets are, and the location that covers two others is the least around both. The line is
told by the line breaks begun before a position, and a pair is one of them.
-/
namespace AgentScript

/-- Whether a line break begins behind the first `n` characters of a text. A line feed behind a
carriage return belongs to a line break that has begun. -/
def beginsBreak (text : List Char) (n : Nat) : Bool :=
  text[n]? == some '\r' || text[n]? == some '\n' && (text.take n).getLast? != some '\r'

/-- The number of line breaks that begin among the first `n` characters of a text. -/
def breaksBegun (text : List Char) (n : Nat) : Nat := (List.range n).countP (beginsBreak text)

namespace Tracker

/-- Reads portions of a text one behind the other, from a place on. -/
def advanceAll (t : Tracker) (text : List Char) (start : Nat) : List Nat → Tracker
  | [] => t
  | n :: lengths => (t.advance text start n).advanceAll text (start + n) lengths

variable {text : List Char}

/-- Portions one behind the other are one portion. -/
theorem advanceAll_eq (t : Tracker) (text : List Char) (start : Nat) (lengths : List Nat) :
    t.advanceAll text start lengths = t.advance text start lengths.sum := by
  induction lengths generalizing t start with
  | nil => simp [advanceAll, advance]
  | cons n lengths ih =>
    rw [advanceAll, ih, advance, advance, advance, ← read_append, List.sum_cons, List.take_add,
      List.drop_drop]

theorem position_advanceAll (text : List Char) (lengths : List Nat) :
    (initial.advanceAll text 0 lengths).position = positionAt text lengths.sum := by
  rw [advanceAll_eq]
  rfl

theorem position_lt_read (t : Tracker) (h : text ≠ []) : t.position < (t.read text).position := by
  induction text generalizing t with
  | nil => exact absurd rfl h
  | cons c rest ih =>
    have hstep := t.position_lt_step c
    by_cases hrest : rest = []
    · rw [hrest]
      exact hstep
    · exact Position.lt_trans hstep (ih (t.step c) hrest)

theorem afterReturn_step (t : Tracker) (c : Char) : (t.step c).afterReturn = (c == '\r') := by
  unfold step
  dsimp only
  split_ifs <;> simp_all

theorem afterReturn_read (text : List Char) :
    (initial.read text).afterReturn = (text.getLast? == some '\r') := by
  induction text using List.reverseRecOn with
  | nil => rfl
  | append_singleton text c _ => simp [read_append, afterReturn_step]

theorem line_step (t : Tracker) (c : Char) : (t.step c).position.line = t.position.line +
    (c == '\r' || c == '\n' && !t.afterReturn).toNat := by
  unfold step
  dsimp only
  split_ifs <;> simp_all

end Tracker

variable {text : List Char} {n m : Nat}

theorem breaksBegun_succ (text : List Char) (n : Nat) :
    breaksBegun text (n + 1) = breaksBegun text n + (beginsBreak text n).toNat := by
  rw [breaksBegun, List.range_succ, List.countP_append, List.countP_singleton]
  cases beginsBreak text n <;> rfl

theorem breaksBegun_le (text : List Char) (n : Nat) : breaksBegun text n ≤ n :=
  List.countP_le_length.trans_eq List.length_range

/-- The line is one more than the number of line breaks begun. -/
theorem line_positionAt (h : n ≤ text.length) :
    (positionAt text n).line = 1 + breaksBegun text n := by
  induction n with
  | zero => rfl
  | succ n ih =>
    have hn : n < text.length := h
    rw [breaksBegun_succ, ← Nat.add_assoc, ← ih hn.le]
    unfold positionAt beginsBreak
    rw [List.take_succ_eq_append_getElem hn, Tracker.read_append, Tracker.read_cons,
      Tracker.read_nil, Tracker.line_step, Tracker.afterReturn_read, List.getElem?_eq_getElem hn]
    rfl

/-- Farther along the text positions are later. -/
theorem positionAt_lt (h : n < m) (hm : m ≤ text.length) :
    positionAt text n < positionAt text m := by
  obtain ⟨k, rfl⟩ := Nat.exists_eq_add_of_lt h
  have hne : (text.drop n).take (k + 1) ≠ [] := by
    rw [← List.length_pos_iff, List.length_take, List.length_drop]
    omega
  unfold positionAt
  rw [Nat.add_assoc, List.take_add, Tracker.read_append]
  exact Tracker.position_lt_read _ hne

namespace Position

/-- A point that a tracker reaches on the text, in portions of any lengths. -/
def IsOn (text : List Char) (p : Position) : Prop :=
  ∃ lengths : List Nat, lengths.sum ≤ text.length ∧
    (Tracker.initial.advanceAll text 0 lengths).position = p

variable {p q : Position}

theorem IsOn.exists_eq (h : p.IsOn text) :
    p.offset ≤ text.length ∧ p = positionAt text p.offset := by
  obtain ⟨lengths, hinside, rfl⟩ := h
  rw [Tracker.position_advanceAll, offset_positionAt hinside]
  exact ⟨hinside, rfl⟩

/-- The order of points is that of their offsets. -/
theorem IsOn.lt_iff (hp : p.IsOn text) (hq : q.IsOn text) : p < q ↔ p.offset < q.offset := by
  obtain ⟨hpinside, hpeq⟩ := hp.exists_eq
  obtain ⟨hqinside, hqeq⟩ := hq.exists_eq
  constructor
  · intro hlt
    by_contra hle
    rcases Nat.lt_or_eq_of_le (Nat.not_lt.mp hle) with hless | heq
    · have hback := positionAt_lt hless hpinside
      rw [← hpeq, ← hqeq] at hback
      exact Position.lt_irrefl p (Position.lt_trans hlt hback)
    · rw [hpeq, hqeq, heq] at hlt
      exact Position.lt_irrefl _ hlt
  · intro hlt
    rw [hpeq, hqeq]
    exact positionAt_lt hlt hqinside

theorem IsOn.le_iff (hp : p.IsOn text) (hq : q.IsOn text) : p ≤ q ↔ p.offset ≤ q.offset := by
  rw [le_iff_not_lt, hq.lt_iff hp, Nat.not_lt]

theorem IsOn.offset_min (hp : p.IsOn text) (hq : q.IsOn text) :
    (min p q).offset = min p.offset q.offset := by
  rw [Position.min_def, Nat.min_def]
  split_ifs with h h' h'
  · rfl
  · exact absurd ((hp.le_iff hq).mp h) h'
  · exact absurd ((hp.le_iff hq).mpr h') h
  · rfl

theorem IsOn.offset_max (hp : p.IsOn text) (hq : q.IsOn text) :
    (max p q).offset = max p.offset q.offset := by
  rw [Position.max_def, Nat.max_def]
  split_ifs with h h' h'
  · rfl
  · exact absurd ((hp.le_iff hq).mp h) h'
  · exact absurd ((hp.le_iff hq).mpr h') h
  · rfl

/-- What the position behind the first `n` characters of a text tells; its numbers have 32 bits. -/
structure Counts (text : List Char) (n : Nat) (p : Position) : Prop where
  offset : p.offset = n
  line : p.line = 1 + breaksBegun text n
  line_lt : p.line < limit32
  column_lt : p.column < limit32

theorem counts_positionAt (hsize : text.length < limit32 - 1) (h : n ≤ text.length) :
    (positionAt text n).Counts text n := by
  have hoffset := offset_positionAt h
  have hline := line_positionAt h
  have hbreaks := breaksBegun_le text n
  have hcolumn := column_positionAt_le text n
  exact ⟨hoffset, hline, by omega, by omega⟩

end Position

namespace Location

/-- The ends of the location are points of the text. -/
structure IsOn (text : List Char) (a : Location) : Prop where
  start : a.start.IsOn text
  stop : a.stop.IsOn text

/-- A location that contains every position of two others, and lies inside each location that both
of them lie inside. -/
structure IsLeastAround (a b around : Location) : Prop where
  contains : ∀ p, a.contains p = true ∨ b.contains p = true → around.contains p = true
  least : ∀ c : Location, c.encloses a = true → c.encloses b = true → c.encloses around = true

theorem encloses_iff {outer inner : Location} : outer.encloses inner = true ↔
    outer.contains inner.start = true ∧ outer.contains inner.stop = true := by
  rw [encloses, Bool.and_eq_true]

theorem IsOn.isLeastAround_cover {a b : Location} (ha : a.IsOn text) (hb : b.IsOn text) :
    IsLeastAround a b (a.cover b) := by
  have hstart := ha.start.offset_min hb.start
  have hstop := ha.stop.offset_max hb.stop
  constructor
  case contains =>
    intro p hp
    simp only [contains_iff, cover, hstart, hstop] at hp ⊢
    omega
  case least =>
    intro c hac hbc
    simp only [encloses_iff, contains_iff, cover, hstart, hstop] at hac hbc ⊢
    omega

end Location

/-- On a text of fewer than `2 ^ 32 - 1` characters, a tracker that reads farther, in portions of
any lengths, is at a later position. Its line is one more than the number of line breaks begun, and
its numbers have 32 bits. So the location that covers two locations of the text is the least around
both. -/
theorem positions_ordered (text : List Char) (hsize : text.length < limit32 - 1) :
    (∀ lengths farther : List Nat, lengths.sum < farther.sum → farther.sum ≤ text.length →
      let p := (Tracker.initial.advanceAll text 0 lengths).position
      let q := (Tracker.initial.advanceAll text 0 farther).position
      p < q ∧ p.Counts text lengths.sum ∧ q.Counts text farther.sum) ∧
    ∀ a b : Location, a.IsOn text → b.IsOn text → a.IsLeastAround b (a.cover b) := by
  refine ⟨fun lengths farther hlt hinside => ?_, fun a b ha hb => ha.isLeastAround_cover hb⟩
  intro p q
  have hp : p = positionAt text lengths.sum := Tracker.position_advanceAll text lengths
  have hq : q = positionAt text farther.sum := Tracker.position_advanceAll text farther
  rw [hp, hq]
  exact ⟨positionAt_lt hlt hinside, Position.counts_positionAt hsize (hlt.le.trans hinside),
    Position.counts_positionAt hsize hinside⟩

/-- Between the characters of a pair and behind it, in other portions. -/
theorem positions_ordered_pair :
    let text := "a\r\nb".toList
    let p := (Tracker.initial.advanceAll text 0 [2]).position
    let q := (Tracker.initial.advanceAll text 0 [1, 0, 2]).position
    text.length < limit32 - 1 ∧ p = ⟨2, 1, 2⟩ ∧ q = ⟨2, 1, 3⟩ ∧
      p < q ∧ p.Counts text 2 ∧ q.Counts text 3 ∧
      Location.IsLeastAround ⟨.origin, p⟩ ⟨q, q⟩ (Location.cover ⟨.origin, p⟩ ⟨q, q⟩) := by
  intro text p q
  have hsize : text.length < limit32 - 1 := by decide
  obtain ⟨hordered, hcovers⟩ := positions_ordered text hsize
  obtain ⟨hlt, hp, hq⟩ := hordered [2] [1, 0, 2] (by decide) (by decide)
  have horigin : Position.IsOn text .origin := ⟨[], by decide, rfl⟩
  have hpOn : p.IsOn text := ⟨[2], by decide, rfl⟩
  have hqOn : q.IsOn text := ⟨[1, 0, 2], by decide, rfl⟩
  exact ⟨hsize, by decide, by decide, hlt, hp, hq, hcovers _ _ ⟨horigin, hpOn⟩ ⟨hqOn, hqOn⟩⟩

end AgentScript
