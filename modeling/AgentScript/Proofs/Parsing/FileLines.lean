import AgentScript.Proofs.Parsing.BodyRuns
import AgentScript.Proofs.Parsing.SectionLines

/-!
# Lines of files

The items of a file are read in a loop of its own, which recovers from each of them as a
block recovers from its lines. So an item is a line, and two parses of the same lines of a
file go through them alike.
-/
namespace AgentScript

open ParserState WholeLine

namespace FileParts

variable {f f' : FileParts} {s s' : ParserState}

/-- An item of a file as a line. -/
def itemLine : LineParser FileParts := fun f s =>
  match s.kind with
  | .keyword .importWord =>
    let f := { f with recognized := true }
    match Parser.importLine s with
    | .ok i s => ⟨{ f with imports := f.imports ++ [i] }, none, s⟩
    | .error p s => ⟨f, some p, s⟩
  | .keyword (.opening .agent) =>
    let f := { f with recognized := true }
    let location := s.current.location
    match Parser.agent s with
    | .ok a s =>
      match f.agent with
      | none => ⟨{ f with agent := some a }, none, s⟩
      | some _ => ⟨f, none, s.report ⟨.secondAgent, some location⟩⟩
    | .error p s => ⟨f, some p, s⟩
  | .indent => ⟨f, some ⟨.unexpectedIndentation, some s.current.location⟩, s⟩
  | k => ⟨f, some ⟨.expected "'import' or 'agent'" k s.current.text, some s.current.location⟩, s⟩

theorem reportIndentation_eq (hk : s.kind = .indent) :
    reportIndentation s = s.recover ⟨.unexpectedIndentation, some s.current.location⟩ := by
  have hkind : (s.report ⟨.unexpectedIndentation, some s.current.location⟩).kind = .indent := by
    obtain ⟨l, hl⟩ := s.exists_tokens
    rw [kind, current_of_tokens ((tokens_report s _).trans hl), ← kind, hk]
  rw [reportIndentation, recover, synchronize, skipLine, hkind]

/-- An item is read as a line from which parsing resumes. -/
theorem readItem_eq (hk : s.kind ≠ .newline) :
    f.readItem s = ((itemLine f s).gathered, (itemLine f s).resumed) := by
  unfold readItem itemLine reportStray
  generalize hkind : s.kind = k at hk ⊢
  cases k with
  | newline => exact absurd rfl hk
  | indent => exact congrArg _ (reportIndentation_eq hkind)
  | keyword w =>
    cases w with
    | importWord =>
      unfold readImport
      cases Parser.importLine s with
      | ok i t => rfl
      | error p t => rfl
    | opening form =>
      cases form with
      | agent =>
        unfold readAgent
        cases Parser.agent s with
        | ok a t =>
          dsimp only
          cases f.agent with
          | none => rfl
          | some x => rfl
        | error p t => rfl
      | _ => rfl
    | _ => rfl
  | _ => rfl

instance proceeds_itemLine : itemLine.Proceeds := by
  constructor
  intro f s
  unfold itemLine
  split
  · dsimp only
    split
    · next heq => exact Parser.leads_of_ok _ heq
    · next heq => exact Parser.leads_of_error _ heq
  · dsimp only
    split
    · next heq =>
      have hleads := Parser.leads_of_ok _ heq
      split
      · exact hleads
      · exact hleads.report _
    · next heq => exact Parser.leads_of_error _ heq
  · exact .refl
  · exact .refl

theorem itemLine_import (f : FileParts) (hk : s.kind = .keyword .importWord) :
    itemLine f s = match Parser.importLine s with
      | .ok i t => ⟨⟨f.imports ++ [i], f.agent, true⟩, none, t⟩
      | .error p t => ⟨{ f with recognized := true }, some p, t⟩ := by
  rw [itemLine, hk]

theorem itemLine_agent (f : FileParts) (hk : s.kind = .keyword (.opening .agent)) :
    itemLine f s = match Parser.agent s with
      | .ok a t => match f.agent with
        | none => ⟨⟨f.imports, some a, true⟩, none, t⟩
        | some _ =>
          ⟨{ f with recognized := true }, none, t.report ⟨.secondAgent, some s.current.location⟩⟩
      | .error p t => ⟨{ f with recognized := true }, some p, t⟩ := by
  rw [itemLine, hk]

/-- What is wrong with an item that is neither an import nor an agent. -/
def strayProblem (s : ParserState) : ParseProblem :=
  ⟨if s.kind = .indent then .unexpectedIndentation
    else .expected "'import' or 'agent'" s.kind s.current.text, some s.current.location⟩

theorem itemLine_stray (f : FileParts) (himport : s.kind ≠ .keyword .importWord)
    (hagent : s.kind ≠ .keyword (.opening .agent)) :
    itemLine f s = ⟨f, some (strayProblem s), s⟩ := by
  unfold itemLine strayProblem
  split
  · next hk => exact absurd hk himport
  · next hk => exact absurd hk hagent
  · next hk => rw [if_pos hk]
  · next hk => rw [if_neg hk]

theorem leads_itemLine_import (f : FileParts) (hk : s.kind = .keyword .importWord) :
    (Parser.importLine.after s).Leads (itemLine f s).state := by
  rw [itemLine_import f hk, Parser.after]
  cases Parser.importLine s <;> exact .refl

theorem leads_itemLine_agent (f : FileParts) (hk : s.kind = .keyword (.opening .agent)) :
    (Parser.agent.after s).Leads (itemLine f s).state := by
  rw [itemLine_agent f hk, Parser.after]
  cases Parser.agent s with
  | error p t => exact .refl
  | ok a t =>
    cases f.agent with
    | none => exact .refl
    | some _ => exact leads_report _ _

/-- The item at the state and where the next one is read. -/
def nextItem (f : FileParts) (s : ParserState) : FileParts × ParserState :=
  ((f.readItem s).1,
    if (f.readItem s).2.remaining == s.remaining then (f.readItem s).2.advance
    else (f.readItem s).2)

theorem readItems_succ (fuel : Nat) (f : FileParts) (s : ParserState) :
    readItems (fuel + 1) f s =
      if s.atEnd || s.halted then (f, s) else readItems fuel (f.nextItem s).1 (f.nextItem s).2 :=
  rfl

theorem leads_readItem (f : FileParts) (s : ParserState) : s.Leads (f.readItem s).2 := by
  by_cases hk : s.kind = .newline
  · unfold readItem
    rw [hk]
    exact s.leads_advance
  · rw [readItem_eq hk]
    exact (proceeds_itemLine.leads f s).trans (leads_resumed _)

theorem leads_nextItem (f : FileParts) (s : ParserState) : s.Leads (f.nextItem s).2 := by
  have hleads := leads_readItem f s
  unfold nextItem
  split_ifs
  · exact hleads.advance
  · exact hleads

theorem leads_readItems (fuel : Nat) (f : FileParts) (s : ParserState) :
    s.Leads (readItems fuel f s).2 := by
  induction fuel generalizing f s with
  | zero => exact .refl
  | succ fuel ih =>
    rw [readItems_succ]
    split_ifs
    · exact .refl
    · exact (leads_nextItem f s).trans (ih _ _)

theorem remaining_nextItem_lt (hend : s.atEnd = false) :
    (f.nextItem s).2.remaining < s.remaining := by
  have hleads := leads_readItem f s
  have hle := hleads.remaining_le
  unfold nextItem
  by_cases hstuck : (f.readItem s).2.remaining = s.remaining
  · rw [if_pos (by simpa using hstuck), ← hstuck]
    apply advance_remaining_lt
    have hrest := hleads.rest_eq_of_remaining_eq hstuck
    rw [atEnd, hrest, kind, hleads.current_eq hrest]
    exact hend
  · rw [if_neg (by simpa using hstuck)]
    exact Nat.lt_of_le_of_ne hle hstuck

/-- Every item takes a token, so the bound is never reached. -/
theorem readItems_congr {fuel fuel' : Nat} (h : s.remaining ≤ fuel) (h' : s.remaining ≤ fuel') :
    readItems fuel f s = readItems fuel' f s := by
  have hzero {n : Nat} {f : FileParts} {s : ParserState} (h : s.remaining = 0) :
      readItems n f s = (f, s) := by
    have hend : s.atEnd = true := atEnd_of_remaining_eq_zero h
    cases n with
    | zero => rfl
    | succ n => rw [readItems_succ, if_pos (by simp [hend])]
  induction fuel generalizing fuel' f s with
  | zero => rw [hzero (Nat.le_zero.mp h), hzero (Nat.le_zero.mp h)]
  | succ fuel ih =>
    cases fuel' with
    | zero => rw [hzero (Nat.le_zero.mp h'), hzero (Nat.le_zero.mp h')]
    | succ fuel' =>
      rw [readItems_succ, readItems_succ]
      split_ifs with hstop
      · rfl
      · have hlt : (f.nextItem s).2.remaining < s.remaining :=
          remaining_nextItem_lt (Bool.eq_false_iff.mpr fun hend => hstop (by simp [hend]))
        exact ih (by omega) (by omega)

/-- All items from the state on. -/
def runItems (f : FileParts) (s : ParserState) : FileParts × ParserState :=
  readItems s.remaining f s

theorem runItems_of_atEnd (h : s.atEnd = true) : f.runItems s = (f, s) := by
  unfold runItems
  cases s.remaining with
  | zero => rfl
  | succ n => rw [readItems_succ, if_pos (by simp [h])]

theorem runItems_next (hend : s.atEnd = false) (hhalted : s.halted = false) :
    f.runItems s = (f.nextItem s).1.runItems (f.nextItem s).2 := by
  have hlt : (f.nextItem s).2.remaining < s.remaining := remaining_nextItem_lt hend
  obtain ⟨n, hn⟩ := Nat.exists_eq_succ_of_ne_zero (Nat.ne_zero_of_lt hlt)
  rw [runItems, hn, readItems_succ, if_neg (by simp [hend, hhalted])]
  exact readItems_congr (by omega) (Nat.le_refl _)

theorem runItems_of_readItem {after : ParserState} (hend : s.atEnd = false)
    (hhalted : s.halted = false) (h : f.readItem s = (f', after))
    (hlt : after.remaining < s.remaining) : f.runItems s = f'.runItems after := by
  have hnext : f.nextItem s = (f', after) := by
    unfold nextItem
    rw [h]
    dsimp only
    rw [if_neg (by simpa using Nat.ne_of_lt hlt)]
  rw [runItems_next hend hhalted, hnext]

theorem lineLoop_runItems : LineLoop itemLine runItems := by
  constructor
  case newline =>
    intro f s hk hend hhalted
    apply runItems_of_readItem hend hhalted
    · unfold readItem
      rw [hk]
    · exact advance_remaining_lt hend
  case done =>
    intro f s more after hs h hlt
    apply runItems_of_readItem hs.notEnd hs.notHalted _ hlt
    rw [readItem_eq hs.notNewline, h]
    rfl
  case failed =>
    intro f s more p after hs h hlt
    apply runItems_of_readItem hs.notEnd hs.notHalted _ hlt
    rw [readItem_eq hs.notNewline, h]
    rfl

theorem recognized_readItem (h : f.agent ≠ none → f.recognized = true) (s : ParserState)
    (hagent : (f.readItem s).1.agent ≠ none) : (f.readItem s).1.recognized = true := by
  unfold readItem at hagent ⊢
  split at hagent
  · exact h hagent
  · unfold readImport
    dsimp only
    split <;> rfl
  · unfold readAgent
    dsimp only
    split
    · split <;> rfl
    · rfl
  · exact h hagent
  · exact h hagent

/-- Where an agent has been read, it has been recognized. -/
theorem recognized_readItems (h : f.agent ≠ none → f.recognized = true) (fuel : Nat)
    (s : ParserState) (hagent : (readItems fuel f s).1.agent ≠ none) :
    (readItems fuel f s).1.recognized = true := by
  induction fuel generalizing f s with
  | zero => exact h hagent
  | succ fuel ih =>
    rw [readItems_succ] at hagent ⊢
    split_ifs at hagent ⊢
    · exact h hagent
    · exact ih (recognized_readItem h s) _ hagent

end FileParts

/-- Behind the items of a file at most one more problem is reported. -/
theorem ParsedFile.leads_read_items (s : ParserState) :
    (FileParts.empty.readItems s.remaining s).2.Leads (ParsedFile.read s).2 := by
  unfold ParsedFile.read
  dsimp only
  split_ifs
  · exact leads_report _ _
  · exact .refl
  · exact leads_report _ _

theorem ParsedFile.leads_read (s : ParserState) : s.Leads (ParsedFile.read s).2 :=
  (FileParts.leads_readItems _ _ _).trans (leads_read_items s)

namespace FileParts

variable {f f' : FileParts} {s s' : ParserState}

/-- Parts of two files that agree in all but the agents, which are related as the condition says. -/
structure Related (A : Option Agent → Option Agent → Prop) (f f' : FileParts) : Prop where
  imports : f.imports = f'.imports
  agent : A f.agent f'.agent
  recognized : f.recognized = f'.recognized

variable {A : Option Agent → Option Agent → Prop} {K : TokenKind → Prop}

theorem completes_itemLine (hagent : K (.keyword (.opening .agent)) → ∀ a a', A a a' →
      (a = none ∧ a' = none ∧ ∀ x, A (some x) (some x)) ∨ ∃ x x', a = some x ∧ a' = some x') :
    itemLine.Completes (fun s => K s.kind) (Related A) := by
  intro L b s s' f f' hb hs hword hK hG
  have hseen : Related A { f with recognized := true } { f' with recognized := true } :=
    { hG with recognized := rfl }
  unfold itemLine
  rw [← hs.kind_eq, ← hs.current_eq]
  have hon : On b (fun s => s.kind.isStructural = false) L s s' := ⟨hs, hword⟩
  have himport : On b (fun s => s.kind.isStructural = false ∧ True) L s s' := ⟨hs, hword, trivial⟩
  generalize s.kind = k at hword hK
  cases k with
  | keyword w =>
    cases w with
    | importWord =>
      have hp := Parser.completes_importLine b hb himport
      generalize Parser.importLine s = left at hp
      generalize Parser.importLine s' = right at hp
      cases hp with
      | ok i after => exact .done { hseen with imports := congrArg (· ++ [i]) hG.imports } after
      | error e within => exact .failed hseen e within
    | opening form =>
      cases form with
      | agent =>
        have hp := Parser.steps_agent hon
        generalize Parser.agent s = left at hp
        generalize Parser.agent s' = right at hp
        cases hp with
        | ok a after =>
          rcases hagent hK _ _ hG.agent with ⟨hnone, hnone', hsome⟩ | ⟨x, x', hx, hx'⟩
          · dsimp only
            rw [hnone, hnone']
            exact .done { hseen with agent := hsome a } after.passed
          · dsimp only
            rw [hx, hx']
            refine .done ⟨hG.imports, ?_, rfl⟩ (Parser.passed_report_beyond after _)
            rw [← hx, ← hx']
            exact hG.agent
        | error e within => exact .failed hseen e within
      | _ => exact .failed hG _ hs
    | _ => exact .failed hG _ hs
  | indent => exact nomatch hword
  | _ => exact .failed hG _ hs

theorem refuses_itemLine : itemLine.Refuses := by
  intro t ht
  refine ⟨⟨.unexpectedIndentation, some t.location⟩, fun f s hs => ?_⟩
  have hk : s.kind = .indent := by rw [kind, hs, ht.kind_eq]
  unfold itemLine
  rw [hk, hs]

end FileParts

end AgentScript
