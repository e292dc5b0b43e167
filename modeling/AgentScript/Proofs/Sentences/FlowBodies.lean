import AgentScript.Proofs.Sentences.FlowWords
import AgentScript.Proofs.Sentences.Lines

/-!
# Sentences of a flow

A when clause is a line of its own. A rule is a line with the when clauses in the block below
it, and that block is read without a problem exactly if it is a body of when clauses.
-/
namespace AgentScript

open FlowGrammar ParserState Computability

variable {α : Type} {words kinds : List TokenKind} {s t u v : ParserState}

namespace FlowGrammar

theorem starts_whenWords : Starts (· = .keyword .whenWord) whenWords :=
  (((starts_one (P := (· = .keyword .whenWord)) rfl).mul _).mul _).mul _

theorem starts_operand : Starts (·.isStructural = false) operand := by
  intro kinds h
  obtain ⟨k, rfl⟩ : ∃ k, kinds = [k] := by
    rw [operand_eq] at h
    obtain ⟨k, -, rfl⟩ := h
    exact ⟨k, rfl⟩
  exact ⟨k, [], rfl, onLine_operand _ h k (List.mem_cons_self ..)⟩

theorem starts_ruleWords : Starts (·.isStructural = false) ruleWords :=
  (starts_operand.mul _).mul _

theorem onLine_whenWords : OnLine whenWords :=
  (((onLine_one rfl).mul onLine_inlineValue).mul onLine_destinations).mul
    onLine_withClause.atMostOne

theorem onLine_ruleWords : OnLine ruleWords :=
  (onLine_operand.mul onLine_destinations).mul onLine_withClause.atMostOne

/-- The when clauses in the block below a rule. -/
def whenClauses : KindLanguage := one .indent * (one .newline + whenClause)∗ * one .dedent

theorem rule_eq : rule = ruleWords * one .newline * atMostOne whenClauses := rfl

end FlowGrammar

namespace Parser

theorem two_le_of_rule {operands : List Operand} {withClause : Option WithClause}
    {whenClauses : List WhenClause} {location : Location} {r : FlowRule}
    (h : FlowRule.build operands withClause whenClauses location = .ok r) :
    2 ≤ operands.length := by
  unfold FlowRule.build at h
  split_ifs at h
  omega

/-- A block is read below the line if one begins there. -/
theorem block_eq_ok {line : LineParser α} {gathered a : α} :
    block line gathered s = .ok a v ↔ ∃ u, finishLine s = .ok () u ∧
      if u.kind = .indent then u.advance.runLines line gathered = (a, v)
      else gathered = a ∧ u = v := by
  unfold block
  rw [eat_bind_eq, bind_eq_ok]
  simp only [check_bind_apply, Unique.exists_iff]
  refine exists_congr fun u => and_congr_right fun _ => ?_
  split_ifs
  · constructor
    · intro h
      cases h
      rfl
    · intro h
      exact congrArg (fun r : α × ParserState => EStateM.Result.ok r.1 r.2) h
  · constructor
    · intro h
      cases h
      exact ⟨rfl, rfl⟩
    · rintro ⟨rfl, rfl⟩
      rfl

theorem readsLines_whenClause : whenClause.ReadsLines FlowGrammar.whenClause where
  starts := by
    intro kinds h
    rw [FlowGrammar.whenClause_eq] at h
    obtain ⟨k, more, rfl, rfl⟩ := starts_whenWords.mul _ kinds h
    exact ⟨_, more, rfl, rfl⟩
  word := by
    intro s t a he hok
    rw [whenClause_eq] at hok
    obtain ⟨clause, u, hwords, -⟩ := bind_eq_ok.mp hok
    obtain ⟨kinds, hkinds, hu⟩ := (recognizes_whenWords s he).sound hwords trivial
    obtain ⟨k, more, rfl, rfl⟩ := starts_whenWords kinds hkinds
    rw [hu.uncons.1]
    rfl
  sound := by
    intro s t a words below rest he _ inLine _ _ hs hok _
    rw [whenClause_eq] at hok
    obtain ⟨clause, u, hwords, hok⟩ := bind_eq_ok.mp hok
    obtain ⟨⟨⟩, v, hfinish, hok⟩ := bind_eq_ok.mp hok
    cases hok
    obtain ⟨hmem, hu, hnewline, rfl⟩ := recognizes_whenWords.endsLine
      (fun h => starts_whenWords.ne_nil h rfl) he hs inLine hwords trivial hfinish
    refine ⟨words ++ [.newline], below, .inr rfl, by simp, ?_, ?_⟩
    · exact Language.append_mem_mul hmem (mem_one.mpr rfl)
    · exact hu.takes.append (takes_single hnewline (by decide) (by decide))
  complete := by
    intro s t kinds he _ hkinds ht _
    rw [FlowGrammar.whenClause_eq] at hkinds
    obtain ⟨words, hwords, _, rfl, rfl⟩ := Language.mem_mul.mp hkinds
    obtain ⟨u, hu, hend⟩ := ht.split
    obtain ⟨hnewline, hnil⟩ := hend.uncons
    obtain ⟨clause, hok, -⟩ := (recognizes_whenWords s he).complete hwords
      ⟨hu, onLine_whenWords words hwords⟩ hnewline
    rw [whenClause_eq, hnil.eq_of_nil]
    exact ⟨clause, by rw [bind_of_ok _ hok, bind_of_ok _ (finishLine_of_newline hnewline)]; rfl⟩

/-- The block of when clauses below a rule. -/
theorem mem_of_whenClauses {body rest : List TokenKind} {clauses : List WhenClause}
    (hbody : LogicalLines body) (he : s.ending.kind = .eof) (hcap : s.cap = 0)
    (hs : s.upcoming = .indent :: (body ++ .dedent :: rest))
    (hok : s.advance.runLines (.item whenClause) [] = (clauses, t))
    (hnone : t.problems = s.problems) :
    .indent :: (body ++ [.dedent]) ∈ whenClauses ∧ s.Takes (.indent :: (body ++ [.dedent])) t := by
  have hindent := takes_single (kind_of_upcoming hs) (by decide) (by decide)
  have hupcoming := upcoming_advance he hs (by decide)
  have hnone : (s.advance.runLines (.item whenClause) []).2.problems = s.advance.problems := by
    rw [hok, hnone, hindent.problems_eq]
  obtain ⟨hmem, u, items, hu, hrun⟩ := readsLines_whenClause.mem_of_noProblems hbody
    (hindent.ending_kind he) (hindent.cap_eq.trans hcap) hupcoming (by simp) hnone
  rw [hu.upcoming_eq (hindent.ending_kind he)] at hupcoming
  have hdedent : u.kind = .dedent := kind_of_upcoming (List.append_cancel_left hupcoming)
  rw [hok, runLines_dedent hdedent] at hrun
  cases hrun
  constructor
  · have hopen : [.indent] ∈ one .indent := rfl
    exact Language.append_mem_mul (Language.append_mem_mul hopen hmem) (mem_one.mpr rfl)
  · exact hindent.append (hu.append (takes_single hdedent (by decide) (by decide)))

theorem runLines_whenClauses (he : s.ending.kind = .eof) (hcap : s.cap = 0)
    (hkinds : kinds ∈ whenClauses) (ht : s.Takes kinds t) :
    s.kind = .indent ∧ ∃ clauses, s.advance.runLines (.item whenClause) [] = (clauses, t) := by
  obtain ⟨_, hopen, _, rfl, rfl⟩ := Language.mem_mul.mp hkinds
  obtain ⟨_, rfl, body, hbody, rfl⟩ := Language.mem_mul.mp hopen
  obtain ⟨u, hu, hdedent⟩ := ht.split
  obtain ⟨hindent, hbodyTaken⟩ := hu.uncons
  obtain ⟨hk, hnil⟩ := hdedent.uncons
  obtain ⟨clauses, hrun⟩ := readsLines_whenClause.runLines_of_mem [] (by simpa using he)
    (by simpa using hcap) hbody hbodyTaken (by simp [hk])
  exact ⟨hindent, clauses, by rw [hrun, runLines_dedent hk, hnil.eq_of_nil]⟩

/-- Behind a rule the block below it, if there is one, is read as when clauses. -/
theorem mem_of_below {below rest : List TokenKind} {clauses : List WhenClause}
    (under : LinesBelow below) (hrest : rest.head? ≠ some .indent) (he : s.ending.kind = .eof)
    (hcap : s.cap = 0) (hs : s.upcoming = below ++ rest)
    (hok : if s.kind = .indent then s.advance.runLines (.item whenClause) [] = (clauses, t)
      else [] = clauses ∧ s = t)
    (hnone : t.problems = s.problems) : below ∈ atMostOne whenClauses ∧ s.Takes below t := by
  cases under with
  | none =>
    rw [← hs.trans (List.nil_append _), head?_upcoming] at hrest
    rw [if_neg fun h => hrest (congrArg some h)] at hok
    exact ⟨.inl rfl, hok.2 ▸ .nil _⟩
  | block inner =>
    rw [List.cons_append, List.append_assoc] at hs
    rw [if_pos (kind_of_upcoming hs)] at hok
    obtain ⟨hmem, htaken⟩ := mem_of_whenClauses inner he hcap hs hok hnone
    exact ⟨.inr hmem, htaken⟩

/-- When clauses behind a rule, or none, are read as its block. -/
theorem block_whenClauses {below : List TokenKind} (hnewline : s.kind = .newline)
    (he : s.advance.ending.kind = .eof) (hcap : s.advance.cap = 0)
    (hbelow : below ∈ atMostOne whenClauses) (htaken : s.advance.Takes below t)
    (hnext : t.kind ≠ .indent) : ∃ clauses, block (.item whenClause) [] s = .ok clauses t := by
  simp only [block_eq_ok]
  rcases hbelow with hnone | hsome
  · cases hnone
    obtain rfl := htaken.eq_of_nil
    refine ⟨[], s.advance, finishLine_of_newline hnewline, ?_⟩
    rw [if_neg hnext]
    exact ⟨rfl, rfl⟩
  · obtain ⟨hindent, clauses, hrun⟩ := runLines_whenClauses he hcap hsome htaken
    refine ⟨clauses, s.advance, finishLine_of_newline hnewline, ?_⟩
    rwa [if_pos hindent]

theorem readsLines_flowRule : flowRule.ReadsLines FlowGrammar.rule where
  starts := (starts_ruleWords.mul _).mul _
  word := by
    intro s t a he hok
    rw [flowRule_eq] at hok
    obtain ⟨r, u, hwords, hok⟩ := bind_eq_ok.mp hok
    obtain ⟨clauses, v, -, hok⟩ := bind_eq_ok.mp hok
    obtain ⟨location, w, -, hok⟩ := bind_eq_ok.mp hok
    obtain ⟨kinds, hkinds, hu⟩ :=
      (recognizes_ruleWords s he).sound hwords (two_le_of_rule (ofNode_eq_ok.mp hok).1)
    obtain ⟨k, more, rfl, hk⟩ := starts_ruleWords kinds hkinds
    rw [hu.uncons.1]
    exact hk
  sound := by
    intro s t a words below rest he hcap inLine under hrest hs hok hnone
    rw [flowRule_eq] at hok
    obtain ⟨r, u, hwords, hok⟩ := bind_eq_ok.mp hok
    obtain ⟨clauses, v, hblock, hok⟩ := bind_eq_ok.mp hok
    obtain ⟨location, w, hlocation, hok⟩ := bind_eq_ok.mp hok
    cases hlocation
    obtain ⟨hbuild, rfl⟩ := ofNode_eq_ok.mp hok
    obtain ⟨m, hfinish, hbelow⟩ := block_eq_ok.mp hblock
    obtain ⟨hmem, hu, hnewline, rfl⟩ := recognizes_ruleWords.endsLine
      (fun h => starts_ruleWords.ne_nil h rfl) he hs inLine hwords (two_le_of_rule hbuild) hfinish
    have hline := hu.takes.append (takes_single hnewline (by decide) (by decide))
    have hlineMem : words ++ [.newline] ∈ FlowGrammar.ruleWords * one .newline :=
      Language.append_mem_mul hmem (mem_one.mpr rfl)
    have hupcoming : u.advance.upcoming = below ++ rest := by
      have hsplit := hs.symm.trans (hline.upcoming_eq he)
      rw [List.append_assoc] at hsplit
      exact (List.cons.inj (List.append_cancel_left hsplit)).2.symm
    obtain ⟨hmemBelow, htaken⟩ := mem_of_below under hrest (hline.ending_kind he)
      (hline.cap_eq.trans hcap) hupcoming hbelow (by rw [hnone, hline.problems_eq])
    exact ⟨words ++ [.newline] ++ below, [], .inl rfl, by simp,
      Language.append_mem_mul hlineMem hmemBelow, hline.append htaken⟩
  complete := by
    intro s t kinds he hcap hkinds ht hnext
    rw [rule_eq] at hkinds
    obtain ⟨_, hline, below, hbelow, rfl⟩ := Language.mem_mul.mp hkinds
    obtain ⟨words, hwords, _, rfl, rfl⟩ := Language.mem_mul.mp hline
    obtain ⟨m, hm, htaken⟩ := ht.split
    obtain ⟨u, hu, hend⟩ := hm.split
    obtain ⟨hnewline, hnil⟩ := hend.uncons
    obtain rfl := hnil.eq_of_nil
    obtain ⟨r, hok, hlength⟩ := (recognizes_ruleWords s he).complete hwords
      ⟨hu, onLine_ruleWords words hwords⟩ hnewline
    obtain ⟨clauses, hblock⟩ := block_whenClauses hnewline (hm.ending_kind he)
      (hm.cap_eq.trans hcap) hbelow htaken hnext
    refine ⟨⟨r.2.1, r.2.2.2, clauses, some (t.spanFrom r.1)⟩, ?_⟩
    rw [flowRule_eq, bind_of_ok _ hok, bind_of_ok _ hblock]
    refine ofNode_eq_ok.mpr ⟨?_, rfl⟩
    exact if_neg (by omega)

end Parser

end AgentScript
