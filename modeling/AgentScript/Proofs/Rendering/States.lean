import AgentScript.Proofs.Parsing.Bounds
import AgentScript.Proofs.Rendering.Trees

/-!
# Parses of rendered tokens

Rendered tokens are told apart by the same kinds, so a parse of them passes the same tokens and
skips the same lines, with its positions moved. It makes no difference either what stands behind
the first end of input, as long as that is never passed: no token is passed, and none looked at
behind another one, unless that one is known not to be the end.
-/
namespace AgentScript

open Rendered (render render_same)

namespace Rendering

variable (r : Rendering) (p q : Position)

/-- A moved position is still on the same side, or at the same place. -/
theorem point_eq_of_le (h : r.point p ≤ r.point q) (hlt : ¬ p ≤ q) : r.point p = r.point q := by
  have hle := r.monotone ((Position.le_total p q).resolve_left hlt)
  rw [Position.le_iff_not_lt, Position.lt_iff] at h hle
  cases hp : r.point p
  cases hq : r.point q
  simp only [hp, hq, Position.mk.injEq] at *
  omega

theorem render_min : render r (min p q) = min (render r p) (render r q) := by
  change r.point (min p q) = min (r.point p) (r.point q)
  rw [Position.min_def, Position.min_def]
  split_ifs with h h' h'
  · rfl
  · exact absurd (r.monotone h) h'
  · exact (r.point_eq_of_le p q h' h).symm
  · rfl

theorem render_max : render r (max p q) = max (render r p) (render r q) := by
  change r.point (max p q) = max (r.point p) (r.point q)
  rw [Position.max_def, Position.max_def]
  split_ifs with h h' h'
  · rfl
  · exact absurd (r.monotone h) h'
  · exact r.point_eq_of_le p q h' h
  · rfl

theorem render_cover (a b : Location) :
    render r (a.cover b) = (render r a).cover (render r b) := by
  change (⟨render r (min a.start b.start), render r (max a.stop b.stop)⟩ : Location) = _
  rw [render_min, render_max]
  rfl

end Rendering

namespace ParserState

variable {r : Rendering} {beyond : List Token} {s t : ParserState} {n : Nat}

/-- The last token is the only end of input to come. -/
structure Closed (s : ParserState) : Prop where
  ending : s.ending.kind = .eof
  rest : ∀ t ∈ s.rest, t.kind ≠ .eof

theorem Closed.leads (h : s.Closed) (hleads : s.Leads t) : t.Closed where
  ending := by rw [hleads.ending_eq, h.ending]
  rest x hx := h.rest x (hleads.rest_isSuffix.subset hx)

theorem Closed.advance (h : s.Closed) : s.advance.Closed := h.leads s.leads_advance

theorem Closed.kind_eq_eof (h : s.Closed) (hnone : s.remaining = 0) : s.kind = .eof := by
  rw [kind, current, ahead, List.eq_nil_of_length_eq_zero hnone]
  exact h.ending

theorem Closed.remaining_pos (h : s.Closed) (hk : s.kind ≠ .eof) : 0 < s.remaining :=
  Nat.pos_of_ne_zero fun hnone => hk (h.kind_eq_eof hnone)

theorem Closed.kind_ne_eof (h : s.Closed) (hsome : 0 < s.remaining) : s.kind ≠ .eof := by
  unfold kind current ahead
  cases hr : s.rest with
  | nil => simp [remaining, hr] at hsome
  | cons t rest => exact h.rest t (by simp [hr])

theorem Closed.atEnd (h : s.Closed) : s.atEnd = (s.kind == .eof) := by
  cases hnone : s.remaining with
  | zero => rw [atEnd_of_remaining_eq_zero hnone, h.kind_eq_eof hnone, beq_self_eq_true]
  | succ n =>
    have hrest : s.rest.isEmpty = false := by
      exact List.isEmpty_eq_false_iff.mpr (List.ne_nil_of_length_eq_add_one hnone)
    rw [ParserState.atEnd, hrest, Bool.false_or]

/-- The state in a parse of the rendered tokens, with more of them behind the end of input. -/
def rendered (r : Rendering) (beyond : List Token) (s : ParserState) : ParserState where
  previous := s.previous
  lastEnd := render r s.lastEnd
  rest := render r s.rest ++ (render r s.ending :: beyond).dropLast
  ending := (render r s.ending :: beyond).getLast (List.cons_ne_nil _ _)
  problems := s.problems.map (render r)
  cap := s.cap

theorem previous_rendered (r : Rendering) (beyond : List Token) (s : ParserState) :
    (s.rendered r beyond).previous = s.previous := rfl

theorem tokens_rendered (r : Rendering) (beyond : List Token) (s : ParserState) :
    (s.rendered r beyond).tokens = render r s.tokens ++ beyond := by
  unfold tokens rendered
  rw [List.append_assoc, List.dropLast_concat_getLast, render_append, List.append_assoc]
  rfl

theorem ahead_of_getElem? {x : Token} (h : s.tokens[n]? = some x) : s.ahead n = x := by
  unfold tokens at h
  rw [ahead, List.getD_eq_getElem?_getD]
  rcases Nat.lt_or_ge n s.rest.length with hn | hn
  · rw [List.getElem?_append_left hn] at h
    rw [h]
    rfl
  · rw [List.getElem?_append_right hn] at h
    rw [List.getElem?_eq_none hn]
    exact List.mem_singleton.mp (List.mem_of_getElem? h) ▸ rfl

theorem getElem?_tokens (h : n ≤ s.remaining) : s.tokens[n]? = some (s.ahead n) := by
  have hlt : n < s.tokens.length := by
    rw [tokens, List.length_append]
    exact Nat.lt_succ_of_le h
  have hget := List.getElem?_eq_getElem hlt
  rw [hget, ahead_of_getElem? hget]

/-- Up to the end of input the same tokens come. -/
theorem ahead_rendered (h : n ≤ s.remaining) :
    (s.rendered r beyond).ahead n = render r (s.ahead n) := by
  apply ahead_of_getElem?
  rw [tokens_rendered, List.getElem?_append_left]
  · exact (List.getElem?_map ..).trans (congrArg _ (getElem?_tokens h))
  · rw [length_render, tokens, List.length_append]
    exact Nat.lt_succ_of_le h

@[simp] theorem current_rendered : (s.rendered r beyond).current = render r s.current :=
  ahead_rendered (Nat.zero_le _)

@[simp] theorem kind_rendered : (s.rendered r beyond).kind = s.kind := by
  rw [kind, current_rendered]
  rfl

/-- Behind a token that is not the end another one comes. -/
theorem Closed.ahead_one (h : s.Closed) (hk : s.kind ≠ .eof) :
    (s.rendered r beyond).ahead 1 = render r (s.ahead 1) := ahead_rendered (h.remaining_pos hk)

theorem Closed.kind_ahead_one (h : s.Closed) (hk : s.kind ≠ .eof) :
    ((s.rendered r beyond).ahead 1).kind = (s.ahead 1).kind := by
  rw [h.ahead_one hk]
  rfl

theorem Closed.kind_ahead_two (h : s.Closed) (hk : s.kind ≠ .eof)
    (hnext : (s.ahead 1).kind ≠ .eof) :
    ((s.rendered r beyond).ahead 2).kind = (s.ahead 2).kind := by
  have hone := h.remaining_pos hk
  have htwo := h.advance.remaining_pos (by rwa [kind_advance])
  rw [advance_remaining] at htwo
  rw [ahead_rendered (show 2 ≤ s.remaining by omega)]
  rfl

@[simp] theorem remaining_rendered :
    (s.rendered r beyond).remaining = s.remaining + beyond.length := by
  rw [remaining, rendered, List.length_append, length_render, List.length_dropLast,
    List.length_cons]
  rfl

theorem advance_rendered (h : 0 < s.remaining) :
    (s.rendered r beyond).advance = s.advance.rendered r beyond := by
  obtain ⟨previous, lastEnd, rest, ending, problems, cap⟩ := s
  cases rest with
  | nil => exact absurd h (Nat.lt_irrefl 0)
  | cons x rest =>
    have hend : render r (if x.isStructural then lastEnd else some x.stop) =
        if x.isStructural then render r lastEnd else some (render r x).stop := by
      split_ifs <;> rfl
    exact congrArg (ParserState.mk _ · _ _ _ _) hend.symm

theorem Closed.advance_rendered (h : s.Closed) (hk : s.kind ≠ .eof) :
    (s.rendered r beyond).advance = s.advance.rendered r beyond :=
  ParserState.advance_rendered (h.remaining_pos hk)

theorem Closed.atEnd_rendered (h : s.Closed) : (s.rendered r beyond).atEnd = s.atEnd := by
  unfold ParserState.atEnd
  rw [kind_rendered]
  cases hnone : s.remaining with
  | zero => simp [h.kind_eq_eof hnone]
  | succ n =>
    have hrest : s.rest ≠ [] := List.ne_nil_of_length_eq_add_one hnone
    have hrest' : (s.rendered r beyond).rest ≠ [] := by
      apply List.ne_nil_of_length_pos
      change 0 < (s.rendered r beyond).remaining
      rw [remaining_rendered]
      omega
    rw [List.isEmpty_eq_false_iff.mpr hrest, List.isEmpty_eq_false_iff.mpr hrest']

/-- The end of input ends the line, so nothing behind it counts. -/
theorem Closed.lineLeft_rendered (h : s.Closed) : (s.rendered r beyond).lineLeft = s.lineLeft := by
  have hstops :
      ((render r s.ending :: beyond).dropLast.takeWhile fun t => !t.isStructural) = [] := by
    have hending : (render r s.ending).isStructural = true := by
      change s.ending.kind.isStructural = true
      rw [h.ending]
      rfl
    cases beyond with
    | nil => rfl
    | cons x beyond => rw [List.dropLast_cons_cons, List.takeWhile_cons_of_neg (by simp [hending])]
  unfold lineLeft rendered
  dsimp only
  generalize s.rest = rest
  induction rest with
  | nil => exact congrArg List.length hstops
  | cons x rest ih =>
    change ((render r x :: (render r rest ++ _)).takeWhile _).length = _
    have hsame : (render r x).isStructural = x.isStructural := rfl
    rw [List.takeWhile_cons, List.takeWhile_cons, hsame]
    split_ifs
    · exact congrArg Nat.succ ih
    · rfl

@[simp] theorem halted_rendered : (s.rendered r beyond).halted = s.halted := by
  unfold halted rendered
  rw [Array.size_map]

theorem report_rendered (p : ParseProblem) :
    (s.rendered r beyond).report (render r p) = (s.report p).rendered r beyond := by
  unfold report
  rw [halted_rendered]
  split_ifs
  · rfl
  · unfold rendered
    rw [Array.map_push]

theorem spanFrom_rendered (p : Position) :
    (s.rendered r beyond).spanFrom (render r p) = render r (s.spanFrom p) := by
  have hlast : (s.rendered r beyond).lastEnd = s.lastEnd.map r.point := rfl
  unfold spanFrom
  rw [hlast]
  cases s.lastEnd with
  | none => rfl
  | some stop =>
    change (if r.point p ≤ r.point stop then _ else _) = render r (if p ≤ stop then _ else _)
    split_ifs with h h' h'
    · rfl
    · exact congrArg (Location.mk _) (r.point_eq_of_le p stop h h').symm
    · exact absurd (r.monotone h') h
    · rfl

-- Skipping is bounded by the tokens to come. The bound is never reached, so the tokens that stand
-- behind the end make no difference to it.
theorem skipLevels_of_atEnd (h : s.atEnd = true) (fuel depth : Nat) :
    skipLevels fuel depth s = s := by
  cases fuel with
  | zero => rfl
  | succ fuel =>
    cases depth with
    | zero => rfl
    | succ depth => rw [skipLevels, if_pos h]

theorem Closed.skipLevels_rendered (h : s.Closed) {fuel fuel' : Nat} (hfuel : s.remaining ≤ fuel)
    (hfuel' : s.remaining ≤ fuel') (depth : Nat) :
    skipLevels fuel' depth (s.rendered r beyond) = (skipLevels fuel depth s).rendered r beyond := by
  induction fuel generalizing fuel' depth s with
  | zero =>
    have hend : s.atEnd = true := atEnd_of_remaining_eq_zero (Nat.le_zero.mp hfuel)
    rw [skipLevels_of_atEnd hend, skipLevels_of_atEnd (h.atEnd_rendered.trans hend)]
  | succ fuel ih =>
    cases hend : s.atEnd with
    | true => rw [skipLevels_of_atEnd hend, skipLevels_of_atEnd (h.atEnd_rendered.trans hend)]
    | false =>
      have hlt := advance_remaining_lt hend
      obtain ⟨fuel', rfl⟩ := Nat.exists_eq_succ_of_ne_zero (show fuel' ≠ 0 by omega)
      cases depth with
      | zero => rfl
      | succ depth =>
        have hnext (depth : Nat) : skipLevels fuel' depth (s.advance.rendered r beyond) =
            (skipLevels fuel depth s.advance).rendered r beyond :=
          ih h.advance (by omega) (by omega) depth
        unfold skipLevels
        have hne : s.kind ≠ .eof := h.kind_ne_eof (by omega)
        rw [h.atEnd_rendered, kind_rendered, h.advance_rendered hne, hnext, hnext, hnext, hend]
        simp only [Bool.false_eq_true, if_false]
        split <;> rfl

theorem Closed.skipBlock_rendered (h : s.Closed) :
    (s.rendered r beyond).skipBlock = s.skipBlock.rendered r beyond := by
  unfold skipBlock
  rw [kind_rendered]
  split_ifs with hk
  · have hne : s.kind ≠ .eof := by simp [eq_of_beq hk]
    have hlt := s.advance_remaining
    rw [h.advance_rendered hne, remaining_rendered]
    exact h.advance.skipLevels_rendered (by omega) (by omega) 1
  · rfl

theorem Closed.skipLine_rendered (h : s.Closed) {fuel fuel' : Nat} (hfuel : s.remaining < fuel)
    (hfuel' : s.remaining < fuel') (moved : Bool) :
    skipLine moved fuel' (s.rendered r beyond) = (skipLine moved fuel s).rendered r beyond := by
  induction fuel generalizing fuel' moved s with
  | zero => exact absurd hfuel (Nat.not_lt_zero _)
  | succ fuel ih =>
    obtain ⟨fuel', rfl⟩ := Nat.exists_eq_succ_of_ne_zero (Nat.ne_zero_of_lt hfuel')
    unfold skipLine
    rw [kind_rendered]
    by_cases hend : s.kind = .eof
    · rw [hend]
    have hpos := h.remaining_pos hend
    have hlt := s.advance_remaining
    rw [h.advance_rendered hend, h.skipBlock_rendered, h.advance.skipBlock_rendered,
      ih h.advance (by omega) (by omega)]
    split
    · rfl
    · rfl
    · rfl
    · rfl
    · exact (apply_ite _ _ _ _).symm

theorem Closed.synchronize_rendered (h : s.Closed) :
    (s.rendered r beyond).synchronize = s.synchronize.rendered r beyond := by
  unfold synchronize
  rw [remaining_rendered]
  exact h.skipLine_rendered (by omega) (by omega) false

theorem Closed.recover_rendered (h : s.Closed) (p : ParseProblem) :
    (s.rendered r beyond).recover (render r p) = (s.recover p).rendered r beyond := by
  unfold recover
  rw [report_rendered]
  exact (h.leads (s.leads_report p)).synchronize_rendered

theorem Closed.skipNewlines_rendered (h : s.Closed) {fuel fuel' : Nat} (hfuel : s.remaining ≤ fuel)
    (hfuel' : s.remaining ≤ fuel') :
    skipNewlines fuel' (s.rendered r beyond) = (skipNewlines fuel s).rendered r beyond := by
  induction fuel generalizing fuel' s with
  | zero =>
    have hk : s.kind ≠ .newline := by simp [h.kind_eq_eof (Nat.le_zero.mp hfuel)]
    exact skipNewlines_of_ne (by rwa [kind_rendered]) _
  | succ fuel ih =>
    by_cases hk : s.kind = .newline
    · have hne : s.kind ≠ .eof := by simp [hk]
      have hpos := h.remaining_pos hne
      have hlt := s.advance_remaining
      obtain ⟨fuel', rfl⟩ := Nat.exists_eq_succ_of_ne_zero (show fuel' ≠ 0 by omega)
      rw [skipNewlines, skipNewlines, kind_rendered, if_pos (by simp [hk]), if_pos (by simp [hk]),
        h.advance_rendered hne]
      exact ih h.advance (by omega) (by omega)
    · rw [skipNewlines_of_ne hk, skipNewlines_of_ne (by rwa [kind_rendered])]

/-- No line end is left where all of them are skipped. -/
theorem Closed.kind_skipNewlines_ne (h : s.Closed) {fuel : Nat} (hfuel : s.remaining ≤ fuel) :
    (skipNewlines fuel s).kind ≠ .newline := by
  induction fuel generalizing s with
  | zero => simp [skipNewlines, h.kind_eq_eof (Nat.le_zero.mp hfuel)]
  | succ fuel ih =>
    rw [skipNewlines]
    split_ifs with hk
    · have hlt := s.advance_remaining
      exact ih h.advance (by omega)
    · simpa using hk

end ParserState

end AgentScript
