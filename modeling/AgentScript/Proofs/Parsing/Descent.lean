import AgentScript.Proofs.Parsing.BalancedRounds
import AgentScript.Proofs.Parsing.InlineAgreement

/-!
# Loops that descend

The loops of a parse run under bounds. Here their bodies are written out without bounds. Each of
the loops over lines passes a token before it goes on, so it is the one function that its body
determines by recursion on the number of tokens to come, and its bound is never reached.
-/
namespace AgentScript

open ParserState

section

variable {X ρ : Type} {size : X → Nat} {P : X → Prop} {body : (X → ρ) → X → ρ}
  {loop : Nat → X → ρ}

open Classical in
/-- The values of the function are those of the body that calls it, and in the domain the body
only calls it where the size is less: whatever stands in its place elsewhere, the value is the
same. -/
def RecursOn (size : X → Nat) (P : X → Prop) (body : (X → ρ) → X → ρ) (f : X → ρ) : Prop :=
  ∀ (other : X → ρ) (x : X), P x →
    f x = body (fun y => if P y ∧ size y < size x then f y else other y) x

theorem loop_congr (bound : X → Nat) (hsucc : ∀ n, loop (n + 1) = body (loop n))
    (hzero : ∀ x, P x → bound x = 0 → loop 1 x = loop 0 x)
    (hbody : ∀ x, P x → ∀ g h : X → ρ,
      (∀ y, P y → bound y < bound x → size y < size x → g y = h y) → body g x = body h x)
    {n m : Nat} {x : X} (hx : P x) (hn : bound x ≤ n) (hm : bound x ≤ m) : loop n x = loop m x := by
  have hstop {n : Nat} {x : X} (hx : P x) (h : bound x = 0) : loop (n + 1) x = loop 0 x := by
    rw [← hzero x hx h, hsucc, hsucc]
    exact hbody x hx _ _ fun y _ hy => absurd hy (by omega)
  induction n generalizing m x with
  | zero =>
    cases m with
    | zero => rfl
    | succ m => exact (hstop hx (Nat.le_zero.mp hn)).symm
  | succ n ih =>
    cases m with
    | zero => exact hstop hx (Nat.le_zero.mp hm)
    | succ m =>
      rw [hsucc, hsucc]
      exact hbody x hx _ _ fun y hy hlt _ => ih hy (by omega) (by omega)

/-- A loop under a bound that is never reached recurs on the size. -/
theorem recursOn_loop (bound : X → Nat) (hsucc : ∀ n, loop (n + 1) = body (loop n))
    (hzero : ∀ x, P x → bound x = 0 → loop 1 x = loop 0 x)
    (hbody : ∀ x, P x → ∀ g h : X → ρ,
      (∀ y, P y → bound y < bound x → size y < size x → g y = h y) → body g x = body h x) :
    RecursOn size P body fun x => loop (bound x) x := by
  intro other x hx
  have hnext : loop (bound x) x = loop (bound x + 1) x :=
    loop_congr bound hsucc hzero hbody hx (Nat.le_refl _) (Nat.le_succ _)
  dsimp only
  rw [hnext, hsucc]
  refine hbody x hx _ _ fun y hy hbound hsize => ?_
  rw [if_pos ⟨hy, hsize⟩]
  exact loop_congr bound hsucc hzero hbody hy (Nat.le_of_lt hbound) (Nat.le_refl _)

end

namespace FileParts

def itemsBody (next : FileParts × ParserState → FileParts × ParserState)
    (x : FileParts × ParserState) : FileParts × ParserState :=
  if x.2.atEnd || x.2.halted then x else next (x.1.nextItem x.2)

end FileParts

namespace ParserState

def linesBody {α : Type} (line : LineParser α) (next : α × ParserState → α × ParserState)
    (x : α × ParserState) : α × ParserState :=
  let s := x.2.skipNewlines x.2.remaining
  if s.kind == .dedent then (x.1, s.advance)
  else if s.atEnd || s.halted then (x.1, s)
  else next (s.lineRound line x.1)

def newlinesBody (next : ParserState → ParserState) (s : ParserState) : ParserState :=
  if s.kind == .newline then next s.advance else s

/-- The first component tells whether a token has been passed. -/
def lineBody (next : Bool × ParserState → ParserState) (x : Bool × ParserState) : ParserState :=
  match x.2.kind with
  | .eof => x.2
  | .dedent => x.2
  | .indent => x.2.skipBlock
  | .newline => x.2.advance.skipBlock
  | k => if k.isSectionKeyword && x.2.atLineStart && x.1 then x.2 else next (true, x.2.advance)

/-- The first component is the number of blocks to be left. -/
def levelsBody (next : Nat × ParserState → ParserState) : Nat × ParserState → ParserState
  | (0, s) => s
  | (depth + 1, s) =>
    if s.atEnd then s
    else
      match s.kind with
      | .indent => next (depth + 2, s.advance)
      | .dedent => next (depth, s.advance)
      | _ => next (depth + 1, s.advance)

end ParserState

namespace ParserState

variable {X ρ : Type} {start s t u : ParserState} {bound : ParserState → Nat}

/-- The second state stands behind the first with tokens passed, and a bound is less there. -/
structure Descends (bound : ParserState → Nat) (s t : ParserState) : Prop where
  leads : s.Leads t
  remaining_lt : t.remaining < s.remaining
  bound_lt : bound t < bound s

theorem Descends.of_lt (h : s.Leads t) (hlt : t.remaining < s.remaining) :
    s.Descends remaining t := ⟨h, hlt, hlt⟩

theorem Descends.succ (h : s.Descends bound t) : s.Descends (fun s => bound s + 1) t :=
  ⟨h.leads, h.remaining_lt, Nat.succ_lt_succ h.bound_lt⟩

/-- Before the end of the text passing a token leaves fewer. -/
theorem remaining_advance_lt (he : s.ending.kind = .eof) (hk : s.kind ≠ .eof) :
    s.advance.remaining < s.remaining :=
  advance_remaining_lt (atEnd_of_ne he hk)

theorem descends_advance (he : s.ending.kind = .eof) (hk : s.kind ≠ .eof) :
    s.Descends remaining s.advance :=
  .of_lt s.leads_advance (remaining_advance_lt he hk)

theorem descends_word (he : s.ending.kind = .eof) (hk : s.kind.isStructural = false) :
    s.Descends lineLeft s.advance := by
  refine ⟨s.leads_advance, remaining_advance_lt he ?_, ?_⟩
  · rintro heof
    rw [heof] at hk
    cases hk
  · rw [lineLeft_advance he hk]
    exact Nat.lt_succ_self _

theorem Descends.trans_line (h : s.Descends lineLeft t) (hu : t.Leads u)
    (hle : u.lineLeft ≤ t.lineLeft) : s.Descends lineLeft u :=
  ⟨h.leads.trans hu, Nat.lt_of_le_of_lt hu.remaining_le h.remaining_lt,
    Nat.lt_of_le_of_lt hle h.bound_lt⟩

/-- Within a parse a function recurs on the number of tokens to come. -/
abbrev Recurs (start : ParserState) (state : X → ParserState) (body : (X → ρ) → X → ρ)
    (f : X → ρ) : Prop :=
  RecursOn (fun x => (state x).remaining) (fun x => start.Leads (state x)) body f

/-- A loop whose body descends before it goes on. -/
theorem recurs_loop (hstart : start.ending.kind = .eof) (state : X → ParserState)
    (loop : Nat → X → ρ) {body : (X → ρ) → X → ρ} (bound : ParserState → Nat)
    (hsucc : ∀ n, loop (n + 1) = body (loop n))
    (hzero : ∀ x, (state x).ending.kind = .eof → bound (state x) = 0 → loop 1 x = loop 0 x)
    (hbody : ∀ x, (state x).ending.kind = .eof → ∀ g h : X → ρ,
      (∀ y, (state x).Descends bound (state y) → g y = h y) → body g x = body h x) :
    start.Recurs state body fun x => loop (bound (state x)) x := by
  apply recursOn_loop (fun x => bound (state x)) hsucc
  · exact fun x hx => hzero x (hx.ending_eq ▸ hstart)
  · intro x hx g h hgh
    refine hbody x (hx.ending_eq ▸ hstart) g h fun y hy => ?_
    exact hgh y (hx.trans hy.leads) hy.bound_lt hy.remaining_lt

theorem kind_of_remaining_eq_zero (he : s.ending.kind = .eof) (h : s.remaining = 0) :
    s.kind = .eof := by
  have hrest : s.rest = [] := List.length_eq_zero_iff.mp h
  simpa [kind, current, ahead, hrest] using he

theorem recurs_items (hstart : start.ending.kind = .eof) :
    start.Recurs Prod.snd FileParts.itemsBody fun x => x.1.readItems x.2.remaining x.2 := by
  refine recurs_loop hstart Prod.snd (fun n x => FileParts.readItems n x.1 x.2) remaining ?_ ?_ ?_
  · exact fun n => funext fun x => FileParts.readItems_succ n x.1 x.2
  · intro x he hx
    rw [FileParts.readItems_succ, if_pos (by simp [atEnd_of_remaining_eq_zero hx])]
    rfl
  · intro x he g h hgh
    unfold FileParts.itemsBody
    split_ifs with hstop
    · rfl
    · simp only [Bool.or_eq_true, not_or, Bool.not_eq_true] at hstop
      exact hgh _ (.of_lt (FileParts.leads_nextItem _ _) (FileParts.remaining_nextItem_lt hstop.1))

theorem recurs_lines {α : Type} (line : LineParser α) [line.Proceeds]
    (hstart : start.ending.kind = .eof) :
    start.Recurs Prod.snd (linesBody line) fun x => x.2.lines line (x.2.remaining + 1) x.1 := by
  refine recurs_loop hstart Prod.snd (fun n x => x.2.lines line n x.1) (fun s => s.remaining + 1)
    ?_ ?_ ?_
  · exact fun n => rfl
  · exact fun x he hx => absurd hx (Nat.succ_ne_zero _)
  · intro x he g h hgh
    have hskip := x.2.leads_skipNewlines x.2.remaining
    unfold linesBody
    dsimp only
    split_ifs with hdedent hstop
    · rfl
    · rfl
    · simp only [Bool.or_eq_true, not_or, Bool.not_eq_true] at hstop
      have hround := leads_lineRound line x.1 (x.2.skipNewlines x.2.remaining)
      have hlt : ((x.2.skipNewlines x.2.remaining).lineRound line x.1).2.remaining <
          x.2.remaining :=
        Nat.lt_of_lt_of_le (remaining_lineRound_lt (by simpa using hdedent) hstop.1)
          hskip.remaining_le
      exact hgh _ (Descends.of_lt (hskip.trans hround) hlt).succ

theorem recurs_newlines (hstart : start.ending.kind = .eof) :
    start.Recurs (fun s => s) newlinesBody fun s => s.skipNewlines s.remaining := by
  refine recurs_loop hstart (fun s => s) skipNewlines remaining ?_ ?_ ?_
  · exact fun n => rfl
  · intro s he hs
    exact skipNewlines_of_ne (by simp [kind_of_remaining_eq_zero he hs]) 1
  · intro s he g h hgh
    unfold newlinesBody
    split_ifs with hk
    · exact hgh _ (descends_advance he (by simp [beq_iff_eq.mp hk]))
    · rfl

theorem recurs_line (hstart : start.ending.kind = .eof) :
    start.Recurs Prod.snd lineBody fun x => skipLine x.1 (x.2.remaining + 1) x.2 := by
  refine recurs_loop hstart Prod.snd (fun n x => skipLine x.1 n x.2) (fun s => s.remaining + 1)
    ?_ ?_ ?_
  · exact fun n => rfl
  · exact fun x he hx => absurd hx (Nat.succ_ne_zero _)
  · intro x he g h hgh
    unfold lineBody
    split
    case h_5 heof hdedent hindent hnewline =>
      split_ifs
      · rfl
      · exact hgh _ (descends_advance he heof).succ
    all_goals rfl

theorem recurs_levels (hstart : start.ending.kind = .eof) :
    start.Recurs Prod.snd levelsBody fun x => skipLevels (x.2.remaining + 1) x.1 x.2 := by
  refine recurs_loop hstart Prod.snd (fun n x => skipLevels n x.1 x.2) (fun s => s.remaining + 1)
    ?_ ?_ ?_
  · rintro n
    funext ⟨depth, s⟩
    cases depth <;> rfl
  · exact fun x he hx => absurd hx (Nat.succ_ne_zero _)
  · rintro ⟨depth, s⟩ he g h hgh
    cases depth with
    | zero => rfl
    | succ depth =>
      have hnext (hend : s.atEnd = false) (n : Nat) : g (n, s.advance) = h (n, s.advance) :=
        hgh _ (Descends.of_lt s.leads_advance (advance_remaining_lt hend)).succ
      unfold levelsBody
      dsimp only
      split_ifs with hend
      · rfl
      · split <;> exact hnext (Bool.eq_false_iff.mpr hend) _

end ParserState

end AgentScript
