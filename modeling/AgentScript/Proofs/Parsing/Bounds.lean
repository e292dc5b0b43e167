import AgentScript.Proofs.Parsing.Proceeding

/-!
# Bounds that are never reached

The loop over the lines of a block and the nesting of values run under bounds. Every round
of a loop and every level of nesting takes a token, so any two bounds above the number of
tokens to come give the same answer.
-/
namespace AgentScript

open ParserState

/-- Where parsing goes on behind a line. -/
def LineResult.resumed {α : Type} (r : LineResult α) : ParserState :=
  match r.problem with
  | none => r.state
  | some p => r.state.recover p

theorem leads_resumed {α : Type} (r : LineResult α) : r.state.Leads r.resumed := by
  unfold LineResult.resumed
  split
  · exact .refl
  · exact leads_recover _ _

/-- A round goes on where parsing resumes behind the line. -/
theorem ParserState.leads_lineRound_resumed {α : Type} (line : LineParser α) (g : α)
    (s : ParserState) : (line g s).resumed.Leads (s.lineRound line g).2 := by
  have hforced (t : ParserState) (c : Bool) : t.Leads (if c then t.advance else t) := by
    split_ifs
    · exact leads_advance t
    · exact .refl
  exact hforced (line g s).resumed _

/-- Where tokens have been passed, a round ends where parsing goes on behind the line. -/
theorem ParserState.lineRound_of_lt {α : Type} {line : LineParser α} {g : α} {s : ParserState}
    (h : (line g s).resumed.remaining < s.remaining) :
    s.lineRound line g = ((line g s).gathered, (line g s).resumed) := by
  have hround : s.lineRound line g = ((line g s).gathered,
      if (line g s).resumed.remaining == s.remaining && (line g s).resumed.kind != .dedent
        then (line g s).resumed.advance
      else (line g s).resumed) := rfl
  rw [hround, if_neg (by simp [Nat.ne_of_lt h])]

namespace ParserState

variable {α : Type} {line line' : LineParser α} [line.Proceeds] {gathered : α} {s : ParserState}

/-- Unless a block ends here, a round takes a token at least. -/
theorem remaining_lineRound_lt (hdedent : s.kind ≠ .dedent) (hend : s.atEnd = false) :
    (s.lineRound line gathered).2.remaining < s.remaining := by
  obtain ⟨after, hline, hround⟩ := lineRound_state line gathered s
  have hafter := (LineParser.Proceeds.leads gathered s).trans hline
  have hle := hafter.remaining_le
  rw [hround]
  by_cases hstuck : after.remaining = s.remaining
  · have hrest := hafter.rest_eq_of_remaining_eq hstuck
    have hkind : after.kind ≠ .dedent := by
      rwa [kind, hafter.current_eq hrest]
    have hafterEnd : after.atEnd = false := by
      rw [atEnd, hrest, kind, hafter.current_eq hrest]
      exact hend
    rw [if_pos (by simp [hstuck, hkind])]
    exact Nat.lt_of_lt_of_le (advance_remaining_lt hafterEnd) hle
  · rw [if_neg (by simp [hstuck])]
    omega

omit [line.Proceeds] in
theorem lineRound_congr (h : line gathered s = line' gathered s) :
    s.lineRound line gathered = s.lineRound line' gathered := by
  unfold lineRound
  rw [h]

/-- Lines that do the same wherever the block can lead gather the same. -/
theorem lines_congr {fuel fuel' : Nat}
    (h : ∀ g t, s.Leads t → line g t = line' g t) (hfuel : s.remaining < fuel)
    (hfuel' : s.remaining < fuel') :
    s.lines line fuel gathered = s.lines line' fuel' gathered := by
  induction fuel generalizing fuel' gathered s with
  | zero => exact absurd hfuel (Nat.not_lt_zero _)
  | succ fuel ih =>
    obtain ⟨fuel', rfl⟩ := Nat.exists_eq_succ_of_ne_zero (Nat.ne_zero_of_lt hfuel')
    have hskip := s.leads_skipNewlines s.remaining
    have hle := hskip.remaining_le
    unfold lines
    dsimp only
    split_ifs with hdedent hend
    · rfl
    · rfl
    · have hround : ((skipNewlines s.remaining s).lineRound line gathered).2.remaining <
          (skipNewlines s.remaining s).remaining :=
        remaining_lineRound_lt (by simpa using hdedent)
          (Bool.eq_false_iff.mpr fun he => hend (by simp [he]))
      have hleads := hskip.trans (leads_lineRound line gathered _)
      rw [← lineRound_congr (h gathered _ hskip)]
      exact ih (fun g t ht => h g t (hleads.trans ht)) (by omega) (by omega)

/-- All lines of a block that has begun, through its end. -/
def runLines (line : LineParser α) (gathered : α) (s : ParserState) : α × ParserState :=
  s.lines line (s.remaining + 1) gathered

theorem lines_eq_runLines {fuel : Nat} (h : s.remaining < fuel) :
    s.lines line fuel gathered = s.runLines line gathered :=
  lines_congr (fun _ _ _ => rfl) h (Nat.lt_succ_self _)

theorem runLines_newline (hk : s.kind = .newline) (hend : s.atEnd = false) :
    s.runLines line gathered = s.advance.runLines line gathered := by
  have hlt := advance_remaining_lt hend
  have hremaining := s.advance_remaining
  obtain ⟨n, hn⟩ := Nat.exists_eq_succ_of_ne_zero (Nat.ne_zero_of_lt hlt)
  have hskip : skipNewlines s.remaining s = skipNewlines s.advance.remaining s.advance := by
    rw [hremaining, hn, skipNewlines, if_pos (by simpa using hk)]
    rfl
  have hbound : s.advance.remaining < s.remaining + 1 := by omega
  rw [← lines_eq_runLines hbound, runLines, lines, lines, hskip]

omit [line.Proceeds] in
theorem runLines_dedent (hk : s.kind = .dedent) :
    s.runLines line gathered = (gathered, s.advance) := by
  have hskip := skipNewlines_of_ne (s := s) (by simp [hk]) s.remaining
  rw [runLines, lines]
  dsimp only
  rw [hskip, if_pos (by simpa using hk)]

theorem runLines_round (hnewline : s.kind ≠ .newline) (hdedent : s.kind ≠ .dedent)
    (hend : s.atEnd = false) (hhalted : s.halted = false) :
    s.runLines line gathered =
      (s.lineRound line gathered).2.runLines line (s.lineRound line gathered).1 := by
  have hskip := skipNewlines_of_ne hnewline s.remaining
  rw [← lines_eq_runLines (remaining_lineRound_lt hdedent hend), runLines, lines]
  dsimp only
  rw [hskip, if_neg (by simpa using hdedent), if_neg (by simp [hend, hhalted])]

/-- Where tokens have been passed, the next line is read from where parsing goes on. -/
theorem runLines_of_lt (hnewline : s.kind ≠ .newline) (hdedent : s.kind ≠ .dedent)
    (hend : s.atEnd = false) (hhalted : s.halted = false)
    (hlt : (line gathered s).resumed.remaining < s.remaining) :
    s.runLines line gathered =
      (line gathered s).resumed.runLines line (line gathered s).gathered := by
  rw [runLines_round hnewline hdedent hend hhalted, lineRound_of_lt hlt]

end ParserState

namespace Parser

variable {α β : Type} {s : ParserState}

/-- Parsers that do the same wherever the first one can lead. -/
theorem bind_congr_of_leads {q : Parser α} [Proceeds q] {f f' : α → Parser β}
    (h : ∀ a t, s.Leads t → f a t = f' a t) : (q >>= f) s = (q >>= f') s := by
  cases heq : q s with
  | ok a t => rw [bind_of_ok f heq, bind_of_ok f' heq, h a t (q.leads_of_ok heq)]
  | error e t => rw [bind_of_error f heq, bind_of_error f' heq]

theorem bind_congr_left {q q' : Parser α} {t : ParserState} (h : q s = q' t) (f : α → Parser β) :
    (q >>= f) s = (q' >>= f) t := by
  change EStateM.bind q f s = EStateM.bind q' f t
  rw [EStateM.bind, EStateM.bind, h]

theorem whole_congr {p p' : α → Parser α} {gathered : α} (h : p gathered s = p' gathered s) :
    LineParser.whole p gathered s = LineParser.whole p' gathered s := by
  unfold LineParser.whole
  rw [h]

theorem item_congr {p p' : Parser α} (h : p s = p' s) (gathered : List α) :
    LineParser.item p gathered s = LineParser.item p' gathered s :=
  whole_congr (bind_congr_left h fun a => pure (gathered ++ [a]))

variable {v v' : Parser Value}

/-- Values that do the same wherever a parse can get from here. -/
def SameFrom (s : ParserState) (v v' : Parser Value) : Prop := ∀ t, s.Leads t → v t = v' t

theorem SameFrom.leads {t : ParserState} (h : SameFrom s v v') (ht : s.Leads t) : SameFrom t v v' :=
  fun u hu => h u (ht.trans hu)

theorem SameFrom.listLine (h : SameFrom s v v') (g : List Value) :
    Parser.listLine v g s = Parser.listLine v' g s := by
  have hvalue : (expect .dash "'-' list item" >>= fun _ => v) s =
      (expect .dash "'-' list item" >>= fun _ => v') s :=
    bind_congr_of_leads fun _ t ht => h t ht
  unfold Parser.listLine LineParser.thenFinish
  rw [item_congr hvalue]

theorem SameFrom.keyed (h : SameFrom s v v') (key : Parser String) [Proceeds key]
    (colon : String) : Parser.keyed key colon v s = Parser.keyed key colon v' s := by
  apply bind_congr_of_leads
  intro start t ht
  apply bind_congr_of_leads
  intro k u hu
  apply bind_congr_of_leads
  intro _ w hw
  exact bind_congr_left (h w ((ht.trans hu).trans hw)) _

theorem SameFrom.dictionaryLine (h : SameFrom s v v') (g : List (Keyed Value)) :
    Parser.dictionaryLine v g s = Parser.dictionaryLine v' g s := by
  have hkeyed := h.keyed (takeName "dictionary key") "':' after dictionary key"
  exact item_congr (bind_congr_left hkeyed fun e => finishLine >>= fun _ => pure e) g

theorem SameFrom.blockList [Proceeds v] (h : SameFrom s v v') :
    Parser.blockList v s = Parser.blockList v' s := by
  have hlines : blockLines (Parser.listLine v) [] s = blockLines (Parser.listLine v') [] s := by
    rw [blockLines_eq, blockLines_eq, ParserState.lines_congr
      (fun g _ ht => (h.leads ht).listLine g) (Nat.lt_succ_self _) (Nat.lt_succ_self _)]
  exact bind_congr_left hlines fun items =>
    spanFrom s.current.start >>= fun location => pure (Value.ofItems none items location)

theorem SameFrom.blockDictionary [Proceeds v] (h : SameFrom s v v') :
    Parser.blockDictionary v s = Parser.blockDictionary v' s := by
  have hlines :
      blockLines (Parser.dictionaryLine v) [] s = blockLines (Parser.dictionaryLine v') [] s := by
    rw [blockLines_eq, blockLines_eq, ParserState.lines_congr
      (fun g _ ht => (h.leads ht).dictionaryLine g) (Nat.lt_succ_self _) (Nat.lt_succ_self _)]
  exact bind_congr_left hlines fun entries =>
    spanFrom s.current.start >>= fun location => pure (Value.ofEntries none entries location)

/-- A value on the line of its key or dash, without a block. -/
def lineValue : Parser Value := do
  match ← kind with
  | .multiline chomping => multilineString chomping
  | .embeddedBlockMarker => codeBlock
  | _ => inlineValue

/-- A list or dictionary in a block that has begun. -/
def blockValue (value : Parser Value) : Parser Value := do
  if ← check .dash then blockList value else blockDictionary value

theorem SameFrom.blockValue [Proceeds v] (h : SameFrom s v v') :
    Parser.blockValue v s = Parser.blockValue v' s := by
  change (if (s.kind == .dash) = true then Parser.blockList v else Parser.blockDictionary v) s =
    (if (s.kind == .dash) = true then Parser.blockList v' else Parser.blockDictionary v') s
  split_ifs
  · exact h.blockList
  · exact h.blockDictionary

/-- A value whose block holds nested values. -/
def valueBody (nested : Parser Value) : Parser Value := do
  match ← kind with
  | .newline =>
    if ← checkAhead 1 .indent then
      let _ ← advance
      let _ ← advance
      if ← check .dash then blockList nested else blockDictionary nested
    else inlineValue
  | .multiline chomping => multilineString chomping
  | .embeddedBlockMarker => codeBlock
  | _ => inlineValue

theorem valueBody_of_block (nested : Parser Value) (hk : s.kind = .newline)
    (hnext : (s.ahead 1).kind = .indent) :
    valueBody nested s = blockValue nested s.advance.advance := by
  have hahead : checkAhead 1 .indent s = .ok true s := by
    unfold checkAhead
    rw [hnext]
    rfl
  rw [valueBody, bind_of_ok _ (rfl : kind s = .ok s.kind s), hk]
  dsimp only
  rw [bind_of_ok _ hahead]
  rfl

theorem valueBody_of_line (nested : Parser Value)
    (h : s.kind = .newline → (s.ahead 1).kind ≠ .indent) : valueBody nested s = lineValue s := by
  rw [valueBody, lineValue, bind_of_ok _ (rfl : kind s = .ok s.kind s),
    bind_of_ok _ (rfl : kind s = .ok s.kind s)]
  generalize s.kind = k at h
  cases k with
  | newline =>
    have hahead : checkAhead 1 .indent s = .ok false s := by
      unfold checkAhead
      rw [beq_eq_false_iff_ne.mpr (h rfl)]
    dsimp only
    rw [bind_of_ok _ hahead]
    rfl
  | _ => rfl

theorem valueWithin_of_block {depth : Nat} (hk : s.kind = .newline)
    (hnext : (s.ahead 1).kind = .indent) :
    valueWithin (depth + 1) s = blockValue (valueWithin depth) s.advance.advance :=
  valueBody_of_block _ hk hnext

theorem valueWithin_of_line {depth : Nat} (h : s.kind = .newline → (s.ahead 1).kind ≠ .indent) :
    valueWithin (depth + 1) s = lineValue s :=
  valueBody_of_line _ h

/-- Before a line end with a block behind it tokens are to come. -/
theorem remaining_advance_lt_of_block (hk : s.kind = .newline)
    (hnext : (s.ahead 1).kind = .indent) :
    s.advance.advance.remaining < s.remaining := by
  have hend : s.atEnd = false := by
    refine Bool.eq_false_iff.mpr fun he => ?_
    have hrest : s.rest = [] := by simpa [ParserState.atEnd, hk] using he
    have hsame : s.ahead 1 = s.current := by simp [ParserState.current, ParserState.ahead, hrest]
    rw [hsame, ← ParserState.kind, hk] at hnext
    cases hnext
  have hfirst := ParserState.advance_remaining_lt hend
  have hsecond := s.advance.advance_remaining
  omega

/-- The depth of a value is bounded by the tokens to come. -/
theorem valueWithin_congr {depth depth' : Nat} (h : s.remaining < depth)
    (h' : s.remaining < depth') :
    valueWithin depth s = valueWithin depth' s := by
  induction depth generalizing depth' s with
  | zero => exact absurd h (Nat.not_lt_zero _)
  | succ depth ih =>
    obtain ⟨depth', rfl⟩ := Nat.exists_eq_succ_of_ne_zero (Nat.ne_zero_of_lt h')
    by_cases hblock : s.kind = .newline ∧ (s.ahead 1).kind = .indent
    · have hlt := remaining_advance_lt_of_block hblock.1 hblock.2
      have hsame : SameFrom s.advance.advance (valueWithin depth) (valueWithin depth') := by
        intro t ht
        have hle := ht.remaining_le
        exact ih (by omega) (by omega)
      rw [valueWithin_of_block hblock.1 hblock.2, valueWithin_of_block hblock.1 hblock.2]
      exact hsame.blockValue
    · have hline (hk : s.kind = .newline) : (s.ahead 1).kind ≠ .indent :=
        fun hnext => hblock ⟨hk, hnext⟩
      rw [valueWithin_of_line hline, valueWithin_of_line hline]

theorem value_eq {depth : Nat} (h : s.remaining < depth) : value s = valueWithin depth s :=
  valueWithin_congr (Nat.lt_succ_self _) h

end Parser

end AgentScript
