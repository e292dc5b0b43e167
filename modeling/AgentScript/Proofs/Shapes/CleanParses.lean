import AgentScript.Proofs.Parsing.Capping
import AgentScript.Proofs.Shapes.Answers
import Mathlib.Data.List.Chain

/-!
# Parses that report nothing

Problems are never taken back, so where none is found in the end none was found on the way: every
line was read to its end, and no loop stopped early. What a parser answers with then has properties
that it lacks where lines are given up.
-/
namespace AgentScript

namespace ParserState

variable {R : Token → Token → Prop} {s t : ParserState}

/-- A state before tokens that follow each other in a certain way, up to an end of input. -/
structure Orderly (R : Token → Token → Prop) (s : ParserState) : Prop where
  ending : s.ending.kind = .eof
  chain : s.tokens.IsChain R

theorem Leads.orderly (h : s.Leads t) (hs : s.Orderly R) : t.Orderly R :=
  ⟨h.ending_eq ▸ hs.ending, hs.chain.suffix h.tokens_isSuffix⟩

/-- A token before the end and the one behind it. -/
theorem Orderly.rel_advance (hs : s.Orderly R) (hne : s.kind ≠ .eof) :
    R s.current s.advance.current := by
  obtain ⟨l, hl⟩ := s.exists_tokens
  obtain ⟨l', hl'⟩ := s.advance.exists_tokens
  obtain ⟨hnext, -, -⟩ := advance_of_tokens hs.ending hl hne
  have hchain := hs.chain
  rw [hl, ← hnext, hl', List.isChain_cons_cons] at hchain
  exact hchain.1

/-- Nothing has been reported. -/
def Clean (s : ParserState) : Prop := s.problems = #[]

/-- Where nothing is found in the end, nothing was found before. -/
theorem Leads.clean (h : s.Leads t) (ht : t.Clean) : s.Clean := by
  unfold Clean at ht ⊢
  have hprefix := h.problems_isPrefix
  rw [ht] at hprefix
  simpa using hprefix

theorem halted_of_clean (h : s.problems = #[]) : s.halted = false := by
  simp only [halted, h, Array.size_empty, Nat.le_zero]
  cases s.cap with
  | zero => rfl
  | succ n => simp

/-- A problem that is reported in a parse without any stays. -/
theorem problems_report_ne (h : s.problems = #[]) (p : ParseProblem) :
    (s.report p).problems ≠ #[] := by
  rw [problems_report, if_neg (by simp [halted_of_clean h]), h]
  simp

end ParserState

open ParserState

instance enduring_orderly {R : Token → Token → Prop} : Enduring (Orderly R) :=
  ⟨fun hs h => h.orderly hs⟩

instance unbroken_clean : Unbroken Clean := ⟨Leads.clean⟩

variable {R : Token → Token → Prop} {S : ParserState → Prop}

/-- From such states, what the parser answers with has the property if nothing has been reported
behind it. -/
abbrev Parser.YieldsClean {α : Type} (S : ParserState → Prop) (P : α → Prop) (p : Parser α) :
    Prop :=
  Parser.YieldsBetween S Clean P p

/-- If nothing has been reported where the parse resumes, the line has been read. -/
theorem LineResult.clean_of_resumed {α : Type} {r : LineResult α} (h : r.resumed.problems = #[]) :
    r.problem = none ∧ r.state.problems = #[] := by
  have hstate := (leads_resumed r).clean h
  refine ⟨?_, hstate⟩
  unfold resumed at h
  cases hproblem : r.problem with
  | none => rfl
  | some p =>
    rw [hproblem] at h
    exact absurd ((leads_skipLine _ _ _).clean h) (problems_report_ne hstate p)

namespace LineParser

variable {α : Type} {P Q : α → Prop} {line : LineParser α}

/-- A line that is read without a problem turns the one property of what has been gathered into
the other. -/
def Brings (S : ParserState → Prop) (P Q : α → Prop) (line : LineParser α) : Prop :=
  ∀ ⦃gathered : α⦄ ⦃s : ParserState⦄, S s → P gathered →
    (line gathered s).problem = none → (line gathered s).state.problems = #[] →
    Q (line gathered s).gathered

theorem brings_whole {p : α → Parser α} (h : ∀ a, P a → Parser.YieldsClean S Q (p a)) :
    Brings S P Q (whole p) := by
  intro gathered s hs hP hproblem hclean
  cases heq : p gathered s with
  | ok a t =>
    rw [whole_of_ok heq] at hclean ⊢
    exact h gathered hP hs heq hclean
  | error e t =>
    rw [whole_of_error heq] at hproblem
    cases hproblem

/-- A line that adds an item leaves at least one. -/
theorem brings_item {P : α → Prop} {p : Parser α} [Parser.Proceeds p]
    (h : Parser.YieldsClean S P p) :
    Brings S (fun l => ∀ a ∈ l, P a) (fun l => l ≠ [] ∧ ∀ a ∈ l, P a) (item p) :=
  brings_whole fun _ hl => h.map fun _ ha =>
    ⟨List.append_ne_nil_of_right_ne_nil _ (List.cons_ne_nil _ _), forall_mem_concat hl ha⟩

theorem Brings.thenFinish (h : line.Brings S P Q) : Brings S P Q (thenFinish line) := by
  intro gathered s hs hP hproblem hclean
  rw [gathered_thenFinish]
  refine h hs hP ?_ ((leads_thenFinish line gathered s).clean hclean)
  cases heq : line gathered s with
  | mk a problem t =>
    cases problem with
    | none => rfl
    | some e =>
      rw [thenFinish_of_failed heq] at hproblem
      cases hproblem

variable {gathered : α} {s : ParserState}

/-- If nothing has been reported where the parse resumes, the line has brought its property. -/
theorem Brings.resumed (h : line.Brings S P Q) (hs : S s) (hP : P gathered)
    (hclean : (line gathered s).resumed.Clean) : Q (line gathered s).gathered := by
  obtain ⟨hnone, hstate⟩ := LineResult.clean_of_resumed hclean
  exact h hs hP hnone hstate

theorem Brings.lineRound (h : line.Brings S P Q) (hs : S s) (hP : P gathered)
    (hclean : (s.lineRound line gathered).2.problems = #[]) :
    Q (s.lineRound line gathered).1 :=
  h.resumed hs hP ((leads_lineRound_resumed line gathered s).clean hclean)

/-- A line that brings a property about again keeps it where nothing is reported. -/
theorem Brings.keeps (h : line.Brings S P P) : line.KeepsBetween S Clean P :=
  fun _ _ hs hP => h.resumed hs hP

/-- Where a word stands at the beginning of a block, its first line is read. -/
theorem Brings.lines_word [line.Proceeds] (first : line.Brings (Orderly R) P Q)
    (later : line.Brings (Orderly R) Q Q) (fuel : Nat) (hs : s.Orderly R)
    (hk : s.kind.isStructural = false) (hP : P gathered)
    (hclean : (s.lines line (fuel + 1) gathered).2.problems = #[]) :
    Q (s.lines line (fuel + 1) gathered).1 := by
  have hne {k : TokenKind} (hstruct : k.isStructural = true) : s.kind ≠ k :=
    TokenKind.ne_of_isStructural hk hstruct
  have hdedent : (s.kind == .dedent) = false := beq_eq_false_iff_ne.mpr (hne rfl)
  have hend : s.atEnd = false := atEnd_of_ne hs.ending (hne rfl)
  have hhalted : s.halted = false := halted_of_clean ((leads_lines line _ _ _).clean hclean)
  unfold ParserState.lines at hclean ⊢
  simp only [skipNewlines_of_ne (hne rfl), hdedent, hend, hhalted, Bool.false_eq_true,
    Bool.or_self, if_false] at hclean ⊢
  have hround := (leads_lines line fuel _ _).clean hclean
  exact later.keeps.lines fuel ((leads_lineRound line gathered s).orderly hs)
    (first.lineRound hs hP hround) hclean

end LineParser

namespace Parser

variable {α : Type} {P : α → Prop}

/-- Lines that each add an item of a certain form, in a block that begins with a word if a condition
holds: then there is an item. -/
theorem blockLines_items {C : Prop} {line : LineParser (List α)} [line.Proceeds]
    (h : line.Brings (Orderly R) (fun l => ∀ a ∈ l, P a) fun l => l ≠ [] ∧ ∀ a ∈ l, P a)
    {s t : ParserState} {items : List α} (hs : s.Orderly R) (hk : C → s.kind.isStructural = false)
    (heq : blockLines line [] s = .ok items t) (ht : t.problems = #[]) :
    (C → items ≠ []) ∧ ∀ a ∈ items, P a := by
  have hkeeps : line.Brings (Orderly R) (fun l => ∀ a ∈ l, P a) fun l => ∀ a ∈ l, P a :=
    fun _ _ hs hP hproblem hclean => (h hs hP hproblem hclean).2
  have hmember : line.Brings (Orderly R) (fun l => l ≠ [] ∧ ∀ a ∈ l, P a)
      fun l => l ≠ [] ∧ ∀ a ∈ l, P a :=
    fun _ _ hs hP => h hs hP.2
  rw [blockLines_eq] at heq
  cases heq
  refine ⟨fun hC => ?_, hkeeps.keeps.lines _ hs (List.forall_mem_nil _) ht⟩
  exact (h.lines_word hmember _ hs (hk hC) (List.forall_mem_nil _) ht).1

end Parser

end AgentScript
