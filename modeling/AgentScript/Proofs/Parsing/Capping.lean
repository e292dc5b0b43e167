import AgentScript.Proofs.Parsing.Course
import Mathlib.Tactic.Set

/-!
# Parses under a cap

A cap is looked at where a problem is reported and between the lines of a block, and nowhere
else. So a parse under a cap goes abreast of the parse of the same tokens without one, until
it has found as many problems as it may. Then it is cut off: whatever it still does, it keeps
the problems that it has, and the other parse only finds more.
-/
namespace AgentScript

namespace ParserState

/-- The same state in a parse that reports all problems. -/
def uncapped (s : ParserState) : ParserState := { s with cap := 0 }

variable {s t u v : ParserState} {p : ParseProblem}

theorem Leads.cap_eq (h : s.Leads t) : t.cap = s.cap := by
  induction h with
  | refl => rfl
  | advance _ ih => simpa using ih
  | report _ p ih => simpa using ih

/-- Problems are never taken back. -/
theorem Leads.problems_isPrefix (h : s.Leads t) : s.problems.toList <+: t.problems.toList := by
  induction h with
  | refl => exact List.prefix_refl _
  | advance _ ih => simpa using ih
  | report _ p ih =>
    rw [problems_report]
    split_ifs
    · exact ih
    · rw [Array.toList_push]
      exact ih.trans (List.prefix_append _ _)

/-- A halted parse reports nothing any more. -/
theorem Leads.problems_of_halted (h : s.Leads t) (hs : s.halted = true) :
    t.problems = s.problems := by
  induction h with
  | refl => rfl
  | advance _ ih => simpa using ih
  | @report t h p ih =>
    have ht : t.halted = true := by
      unfold halted
      rw [h.cap_eq, ih]
      exact hs
    rw [problems_report, if_pos ht, ih]

/-- The first parse has found as many problems as it may, and they are the first ones that the
second parse has found, which has no cap. -/
structure Cut (s u : ParserState) : Prop where
  capped : 0 < s.cap
  full : s.problems.size = s.cap
  isPrefix : s.problems.toList <+: u.problems.toList

theorem Cut.halted (h : Cut s u) : s.halted = true := by
  simp [ParserState.halted, h.capped, h.full]

/-- What a cut-off parse and the other one still do makes no difference. -/
theorem Cut.leads (h : Cut s u) (hs : s.Leads t) (hu : u.Leads v) : Cut t v := by
  have hproblems := hs.problems_of_halted h.halted
  constructor
  case capped => exact hs.cap_eq ▸ h.capped
  case full => rw [hproblems, hs.cap_eq, h.full]
  case isPrefix =>
    rw [hproblems]
    exact h.isPrefix.trans hu.problems_isPrefix

/-- One parse with a cap and one without: the same as long as the cap is not reached. -/
inductive Abreast (s u : ParserState) : Prop
  | level (same : u = s.uncapped) (notHalted : s.halted = false)
  | cut (h : Cut s u)

@[simp] theorem halted_uncapped (s : ParserState) : s.uncapped.halted = false := by
  simp [ParserState.halted, uncapped]

theorem advance_uncapped (s : ParserState) : s.uncapped.advance = s.advance.uncapped := by
  obtain ⟨previous, lastEnd, rest, ending, problems, cap⟩ := s
  cases rest <;> rfl

theorem kind_uncapped (s : ParserState) : s.uncapped.kind = s.kind := rfl

theorem atEnd_uncapped (s : ParserState) : s.uncapped.atEnd = s.atEnd := rfl

theorem atLineStart_uncapped (s : ParserState) : s.uncapped.atLineStart = s.atLineStart := rfl

theorem remaining_uncapped (s : ParserState) : s.uncapped.remaining = s.remaining := rfl

@[simp] theorem halted_advance (s : ParserState) : s.advance.halted = s.halted := by
  simp [ParserState.halted]

theorem report_uncapped (h : s.halted = false) (p : ParseProblem) :
    s.uncapped.report p = (s.report p).uncapped := by
  unfold report
  rw [h, halted_uncapped]
  rfl

/-- The report that reaches the cap cuts the parse off. -/
theorem abreast_report (h : s.halted = false) (p : ParseProblem) :
    Abreast (s.report p) (s.uncapped.report p) := by
  rw [report_uncapped h]
  cases hafter : (s.report p).halted with
  | false => exact .level rfl hafter
  | true =>
    have hproblems : (s.report p).problems = s.problems.push p := by simp [problems_report, h]
    have hnow : 0 < s.cap ∧ s.cap ≤ s.problems.size + 1 := by
      simpa [ParserState.halted, hproblems] using hafter
    have hbefore : ¬ s.cap ≤ s.problems.size := fun hle => by
      simp [ParserState.halted, hnow.1, hle] at h
    refine .cut ⟨by simpa using hnow.1, ?_, List.prefix_refl _⟩
    rw [hproblems, Array.size_push, report_cap]
    omega

theorem skipLevels_uncapped (fuel depth : Nat) (s : ParserState) :
    skipLevels fuel depth s.uncapped = (skipLevels fuel depth s).uncapped := by
  induction fuel generalizing depth s with
  | zero => rfl
  | succ fuel ih =>
    cases depth with
    | zero => rfl
    | succ depth =>
      unfold skipLevels
      rw [atEnd_uncapped, kind_uncapped, advance_uncapped, ih, ih, ih]
      split_ifs
      · rfl
      · generalize s.kind = k
        cases k <;> rfl

theorem skipBlock_uncapped (s : ParserState) : s.uncapped.skipBlock = s.skipBlock.uncapped := by
  unfold skipBlock
  rw [kind_uncapped, remaining_uncapped, advance_uncapped, skipLevels_uncapped]
  split_ifs <;> rfl

theorem skipLine_uncapped (moved : Bool) (fuel : Nat) (s : ParserState) :
    skipLine moved fuel s.uncapped = (skipLine moved fuel s).uncapped := by
  induction fuel generalizing moved s with
  | zero => rfl
  | succ fuel ih =>
    unfold skipLine
    rw [kind_uncapped, atLineStart_uncapped, skipBlock_uncapped, advance_uncapped,
      skipBlock_uncapped, ih]
    cases s.kind with
    | eof => rfl
    | dedent => rfl
    | indent => rfl
    | newline => rfl
    | _ => exact (apply_ite uncapped _ _ _).symm

theorem skipNewlines_uncapped (fuel : Nat) (s : ParserState) :
    skipNewlines fuel s.uncapped = (skipNewlines fuel s).uncapped := by
  induction fuel generalizing s with
  | zero => rfl
  | succ fuel ih =>
    unfold skipNewlines
    rw [kind_uncapped, advance_uncapped, ih]
    split_ifs <;> rfl

theorem Leads.halted_eq (h : s.Leads t) (hproblems : t.problems = s.problems) :
    t.halted = s.halted := by
  unfold halted
  rw [h.cap_eq, hproblems]

/-- Recovering reports a problem and skips tokens, which does not look at the cap. -/
theorem abreast_recover (h : s.halted = false) (p : ParseProblem) :
    Abreast (s.recover p) (s.uncapped.recover p) := by
  cases abreast_report h p with
  | cut hcut => exact .cut (hcut.leads (leads_skipLine _ _ _) (leads_skipLine _ _ _))
  | level same notHalted =>
    apply Abreast.level
    · rw [recover, same, synchronize, remaining_uncapped, skipLine_uncapped]
      rfl
    · rw [recover, synchronize, (leads_skipLine _ _ _).halted_eq (problems_skipLine _ _ _),
        notHalted]

/-- What two parses have gathered is the same as long as the cap is not reached. -/
inductive AbreastWith {α : Type} (r r' : α × ParserState) : Prop
  | level (same : r' = (r.1, r.2.uncapped)) (notHalted : r.2.halted = false)
  | cut (h : Cut r.2 r'.2)

end ParserState

open ParserState

namespace Parser

variable {α β : Type}

/-- What a parser does in a parse under a cap and in one without: the same, or it goes on to the
cap. -/
inductive AbreastAt (p : Parser α) (s : ParserState) : Prop
  | ok {a : α} {t : ParserState} (capped : p s = .ok a t) (free : p s.uncapped = .ok a t.uncapped)
      (notHalted : t.halted = false)
  | error {e : ParseProblem} {t : ParserState} (capped : p s = .error e t)
      (free : p s.uncapped = .error e t.uncapped) (notHalted : t.halted = false)
  | cut (h : Cut (p.after s) (p.after s.uncapped))

/-- Until the cap is reached the parser does what it does without one. -/
class UntilCap (p : Parser α) : Prop where
  proceeds : Proceeds p
  abreast : ∀ s : ParserState, s.halted = false → AbreastAt p s

theorem leads_after_bind (p : Parser α) {f : α → Parser β} (h : ∀ a, Proceeds (f a))
    (s : ParserState) : (p.after s).Leads ((p >>= f).after s) := by
  unfold after
  cases heq : p s with
  | ok a t =>
    rw [bind_of_ok f heq]
    exact (h a).leads t
  | error e t =>
    rw [bind_of_error f heq]
    exact .refl

theorem UntilCap.bind {p : Parser α} {f : α → Parser β} [h : UntilCap p]
    (h' : ∀ a, UntilCap (f a)) : UntilCap (p >>= f) := by
  have hf (a : α) : Proceeds (f a) := (h' a).proceeds
  have hp : Proceeds p := h.proceeds
  refine ⟨Proceeds.bind hf, fun s hs => ?_⟩
  cases h.abreast s hs with
  | cut hcut => exact .cut (hcut.leads (leads_after_bind p hf s) (leads_after_bind p hf _))
  | error capped free notHalted =>
    exact .error (bind_of_error f capped) (bind_of_error f free) notHalted
  | @ok a t capped free notHalted =>
    have hleft := bind_of_ok f capped
    have hright := bind_of_ok f free
    cases (h' a).abreast t notHalted with
    | ok capped free notHalted => exact .ok (hleft.trans capped) (hright.trans free) notHalted
    | error capped free notHalted =>
      exact .error (hleft.trans capped) (hright.trans free) notHalted
    | cut hcut =>
      apply AbreastAt.cut
      rw [after, after, hleft, hright]
      exact hcut

instance untilCap_bind {p : Parser α} {f : α → Parser β} [UntilCap p]
    [h : ∀ a, UntilCap (f a)] : UntilCap (p >>= f) := .bind h

instance untilCap_ite {c : Prop} [Decidable c] {p q : Parser α} [h : UntilCap p]
    [h' : UntilCap q] : UntilCap (if c then p else q) := by
  split_ifs
  · exact h
  · exact h'

instance untilCap_pure (a : α) : UntilCap (pure a : Parser α) :=
  ⟨inferInstance, fun _ hs => .ok rfl rfl hs⟩

/-- What can be seen of the tokens does not depend on the cap. -/
theorem untilCap_look {f : ParserState → α} (h : ∀ s : ParserState, f s.uncapped = f s) :
    UntilCap (look f) := by
  refine ⟨inferInstance, fun s hs => .ok (rfl : look f s = .ok (f s) s) ?_ hs⟩
  rw [look, h]

instance untilCap_peek : UntilCap peek := untilCap_look (f := current) fun _ => rfl

instance untilCap_kind : UntilCap kind := untilCap_look (f := ParserState.kind) fun _ => rfl

instance untilCap_check (k : TokenKind) : UntilCap (check k) :=
  untilCap_look (f := fun s => s.kind == k) fun _ => rfl

instance untilCap_checkAhead (offset : Nat) (k : TokenKind) : UntilCap (checkAhead offset k) :=
  untilCap_look (f := fun s => (s.ahead offset).kind == k) fun _ => rfl

instance untilCap_spanFrom (start : Position) : UntilCap (spanFrom start) :=
  untilCap_look (f := fun s => s.spanFrom start) fun _ => rfl

instance untilCap_remaining : UntilCap remaining := untilCap_look fun _ => rfl

instance untilCap_lineLeft : UntilCap lineLeft := untilCap_look fun _ => rfl

instance untilCap_startsMember : UntilCap (look startsMember) := untilCap_look fun _ => rfl

instance untilCap_startsEntry : UntilCap (look startsEntry) := untilCap_look fun _ => rfl

instance untilCap_advance : UntilCap advance := by
  refine ⟨inferInstance, fun s hs => .ok (rfl : advance s = .ok s.current s.advance) ?_ ?_⟩
  · rw [advance, advance_uncapped]
    rfl
  · rw [halted_advance, hs]

instance untilCap_eat (k : TokenKind) : UntilCap (eat k) := by
  refine ⟨inferInstance, fun s hs => ?_⟩
  by_cases hk : s.kind == k
  · refine .ok (if_pos hk) ?_ ((halted_advance s).trans hs)
    rw [← advance_uncapped]
    exact if_pos hk
  · exact .ok (if_neg hk) (if_neg hk) hs

instance untilCap_fail (cause : ParseCause) (location : Location) :
    UntilCap (fail cause location : Parser α) := ⟨inferInstance, fun _ hs => .error rfl rfl hs⟩

instance untilCap_failHere (cause : Token → ParseCause) : UntilCap (failHere cause : Parser α) :=
  ⟨inferInstance, fun _ hs => .error rfl rfl hs⟩

instance untilCap_unexpected (what : String) : UntilCap (unexpected what : Parser α) :=
  untilCap_failHere _

instance untilCap_report (cause : ParseCause) (location : Location) :
    UntilCap (report cause location) := by
  refine ⟨inferInstance, fun s hs => ?_⟩
  cases abreast_report hs ⟨cause, some location⟩ with
  | level same notHalted =>
    refine .ok (rfl : report cause location s = .ok () (s.report _)) ?_ notHalted
    rw [← same]
    rfl
  | cut h => exact .cut h

instance untilCap_ofNode (node : Except NodeError α) (location : Location) :
    UntilCap (ofNode node location) := by
  cases node with
  | ok a => exact untilCap_pure a
  | error e => exact untilCap_fail _ _

instance untilCap_finishLine : UntilCap finishLine := by
  refine ⟨inferInstance, fun s hs => ?_⟩
  have hsame : finishLine s.uncapped =
      if s.kind == .newline then .ok () s.advance.uncapped
      else if s.kind == .dedent || s.kind == .eof then .ok () s.uncapped
      else if s.previous == some .newline || s.previous == some .dedent then .ok () s.uncapped
      else unexpected "end of line" s.uncapped := by
    rw [← advance_uncapped]
    rfl
  have hother : finishLine s =
      if s.kind == .newline then .ok () s.advance
      else if s.kind == .dedent || s.kind == .eof then .ok () s
      else if s.previous == some .newline || s.previous == some .dedent then .ok () s
      else unexpected "end of line" s := rfl
  split_ifs at hsame hother
  · exact .ok hother hsame ((halted_advance s).trans hs)
  · exact .ok hother hsame hs
  · exact .ok hother hsame hs
  · exact .error hother hsame hs

end Parser

namespace LineParser

variable {α : Type}

/-- What a line leaves behind in a parse under a cap and in one without. -/
inductive AbreastAt (line : LineParser α) (gathered : α) (s : ParserState) : Prop
  | level {a : α} {problem : Option ParseProblem} {t : ParserState}
      (capped : line gathered s = ⟨a, problem, t⟩)
      (free : line gathered s.uncapped = ⟨a, problem, t.uncapped⟩) (notHalted : t.halted = false)
  | cut (h : Cut (line gathered s).state (line gathered s.uncapped).state)

/-- Until the cap is reached the line is read as it is without one. -/
class UntilCap (line : LineParser α) : Prop where
  proceeds : line.Proceeds
  abreast : ∀ (gathered : α) (s : ParserState), s.halted = false → AbreastAt line gathered s

theorem state_whole (p : α → Parser α) (gathered : α) (s : ParserState) :
    (whole p gathered s).state = (p gathered).after s := by
  unfold whole Parser.after
  cases p gathered s <;> rfl

instance untilCap_whole {p : α → Parser α} [h : ∀ a, Parser.UntilCap (p a)] :
    UntilCap (whole p) := by
  have hp (a : α) : Parser.Proceeds (p a) := (h a).proceeds
  refine ⟨proceeds_whole, fun gathered s hs => ?_⟩
  cases (h gathered).abreast s hs with
  | ok capped free notHalted => exact .level (whole_of_ok capped) (whole_of_ok free) notHalted
  | error capped free notHalted =>
    exact .level (whole_of_error capped) (whole_of_error free) notHalted
  | cut hcut =>
    apply AbreastAt.cut
    rw [state_whole, state_whole]
    exact hcut

instance untilCap_item {p : Parser α} [Parser.UntilCap p] : UntilCap (item p) := untilCap_whole

theorem leads_thenFinish (line : LineParser α) (gathered : α) (s : ParserState) :
    (line gathered s).state.Leads (thenFinish line gathered s).state := by
  cases h : line gathered s with
  | mk a problem t =>
    cases problem with
    | some e =>
      rw [thenFinish_of_failed h]
      exact .refl
    | none =>
      rw [thenFinish_of_done h]
      exact proceeds_whole.leads a t

instance untilCap_thenFinish {line : LineParser α} [h : UntilCap line] :
    UntilCap (thenFinish line) := by
  have hline : line.Proceeds := h.proceeds
  refine ⟨proceeds_thenFinish, fun gathered s hs => ?_⟩
  cases h.abreast gathered s hs with
  | cut hcut => exact .cut (hcut.leads (leads_thenFinish line _ _) (leads_thenFinish line _ _))
  | @level a problem t capped free notHalted =>
    cases problem with
    | some e => exact .level (thenFinish_of_failed capped) (thenFinish_of_failed free) notHalted
    | none =>
      have hleft := thenFinish_of_done capped
      have hright := thenFinish_of_done free
      cases (untilCap_whole (p := fun a : α => Parser.finishLine >>= fun _ => pure a)).abreast a t
          notHalted with
      | level capped free notHalted =>
        exact .level (hleft.trans capped) (hright.trans free) notHalted
      | cut hcut => exact .cut (by rwa [hleft, hright])

/-- Lines of two sorts, told apart by the tokens to come. -/
theorem untilCap_choose {line line' : LineParser α} {g : ParserState → Bool}
    (hg : ∀ s : ParserState, g s.uncapped = g s) (h : line.UntilCap) (h' : line'.UntilCap) :
    LineParser.UntilCap fun a s => if g s = true then line a s else line' a s := by
  set choice : LineParser α := fun a s => if g s = true then line a s else line' a s
  have hyes {a : α} {s : ParserState} (h : g s = true) : choice a s = line a s := if_pos h
  have hno {a : α} {s : ParserState} (h : ¬ g s = true) : choice a s = line' a s := if_neg h
  constructor
  case proceeds =>
    constructor
    intro a s
    by_cases hs : g s = true
    · rw [hyes hs]
      exact h.proceeds.leads a s
    · rw [hno hs]
      exact h'.proceeds.leads a s
  case abreast =>
    intro a s hs
    by_cases hc : g s = true
    · have hleft := hyes (a := a) hc
      have hright := hyes (a := a) ((hg s).trans hc)
      cases h.abreast a s hs with
      | level capped free notHalted =>
        exact .level (hleft.trans capped) (hright.trans free) notHalted
      | cut hcut => exact .cut (by rwa [hleft, hright])
    · have hleft := hno (a := a) hc
      have hright : choice a s.uncapped = line' a s.uncapped := hno (by rwa [hg])
      cases h'.abreast a s hs with
      | level capped free notHalted =>
        exact .level (hleft.trans capped) (hright.trans free) notHalted
      | cut hcut => exact .cut (by rwa [hleft, hright])

end LineParser

namespace ParserState

variable {α : Type} {line : LineParser α} {s : ParserState}

/-- A line without progress costs a token in both parses. -/
theorem Abreast.forced {t u : ParserState} (h : Abreast t u) (s : ParserState) :
    Abreast (if t.remaining == s.remaining && t.kind != .dedent then t.advance else t)
      (if u.remaining == s.remaining && u.kind != .dedent then u.advance else u) := by
  have hforced (t : ParserState) (c : Bool) : t.Leads (if c then t.advance else t) := by
    split_ifs
    · exact t.leads_advance
    · exact .refl
  cases h with
  | cut hcut => exact .cut (hcut.leads (hforced _ _) (hforced _ _))
  | level same notHalted =>
    rw [same, remaining_uncapped, kind_uncapped, advance_uncapped]
    split_ifs
    · exact .level rfl (by rw [halted_advance, notHalted])
    · exact .level rfl notHalted

theorem Abreast.with {t u : ParserState} (h : Abreast t u) (a : α) :
    AbreastWith (a, t) (a, u) := by
  cases h with
  | level same notHalted => exact .level (by rw [same]) notHalted
  | cut h => exact .cut h

/-- A round of two parses that are abreast before it. -/
theorem abreast_lineRound (h : line.UntilCap) (gathered : α) (hs : s.halted = false) :
    AbreastWith (s.lineRound line gathered) (s.uncapped.lineRound line gathered) := by
  cases h.abreast gathered s hs with
  | cut hcut =>
    exact .cut (hcut.leads (leads_lineRound_line line _ _) (leads_lineRound_line line _ _))
  | @level a problem t capped free notHalted =>
    unfold lineRound
    rw [capped, free]
    cases problem with
    | none => exact ((Abreast.level rfl notHalted).forced s).with a
    | some p => exact ((abreast_recover notHalted p).forced s).with a

/-- The lines of a block, by induction on the bound: a round keeps two parses abreast. -/
theorem abreast_lines (h : line.UntilCap) (fuel : Nat) (gathered : α) (hs : s.halted = false) :
    AbreastWith (s.lines line fuel gathered) (s.uncapped.lines line fuel gathered) := by
  have hline : line.Proceeds := h.proceeds
  induction fuel generalizing gathered s with
  | zero => exact .level rfl hs
  | succ fuel ih =>
    have hskip : (skipNewlines s.remaining s).halted = false := by
      rw [(leads_skipNewlines _ _).halted_eq (problems_skipNewlines _ _), hs]
    unfold lines
    rw [remaining_uncapped, skipNewlines_uncapped]
    dsimp only
    rw [kind_uncapped, atEnd_uncapped, halted_uncapped, hskip, advance_uncapped]
    split_ifs
    · exact .level rfl (by rw [halted_advance, hskip])
    · exact .level rfl hskip
    · cases abreast_lineRound h gathered hskip with
      | level same notHalted =>
        rw [same]
        exact ih _ notHalted
      | cut hcut => exact .cut (hcut.leads (leads_lines line _ _ _) (leads_lines line _ _ _))

end ParserState

namespace Parser

variable {α : Type} {line : LineParser α}

instance untilCap_blockLines [h : line.UntilCap] (gathered : α) :
    UntilCap (blockLines line gathered) := by
  have hline : line.Proceeds := h.proceeds
  refine ⟨inferInstance, fun s hs => ?_⟩
  cases abreast_lines h (s.remaining + 1) gathered hs with
  | level same notHalted =>
    refine .ok (blockLines_eq line gathered s) ?_ notHalted
    rw [blockLines_eq, remaining_uncapped, same]
  | cut hcut =>
    apply AbreastAt.cut
    rw [after, after, blockLines_eq, blockLines_eq]
    exact hcut

instance untilCap_block [line.UntilCap] (gathered : α) : UntilCap (block line gathered) := by
  unfold block
  infer_instance

end Parser

end AgentScript
