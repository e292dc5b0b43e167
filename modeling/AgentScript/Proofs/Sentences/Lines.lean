import AgentScript.Proofs.Parsing.Capping
import AgentScript.Proofs.Parsing.FileLines
import AgentScript.Proofs.Sentences.Recognition

/-!
# Bodies without problems

The lines of a body are read without a problem exactly if the body is made of empty lines and of
sentences of the language that the lines are read in. A line that fails is reported, and a block
that no line has taken is reported too; so where nothing is reported, every line is a sentence
and every block has been read with its line.
-/
namespace AgentScript

open FlowGrammar ParserState Computability

/-- The kinds of the tokens of logical lines: words and the end of the line, perhaps with a block
of further lines. -/
inductive LogicalLines : List TokenKind → Prop
  | nil : LogicalLines []
  | line {words rest : List TokenKind} (inLine : ∀ k ∈ words, k.isStructural = false)
      (later : LogicalLines rest) : LogicalLines (words ++ .newline :: rest)
  | block {words body rest : List TokenKind} (inLine : ∀ k ∈ words, k.isStructural = false)
      (inner : LogicalLines body) (later : LogicalLines rest) :
      LogicalLines (words ++ .newline :: .indent :: (body ++ .dedent :: rest))

/-- What stands below a line: nothing, or a block. -/
inductive LinesBelow : List TokenKind → Prop
  | none : LinesBelow []
  | block {body : List TokenKind} (inner : LogicalLines body) :
      LinesBelow (.indent :: (body ++ [.dedent]))

variable {α β : Type} {L : KindLanguage} {words below body rest kinds : List TokenKind}
  {k : TokenKind} {good : α → Prop} {s t v : ParserState}

theorem LinesBelow.below_line (h : LinesBelow below) (inLine : ∀ k ∈ words, k.isStructural = false)
    (later : LogicalLines rest) : LogicalLines (words ++ .newline :: (below ++ rest)) := by
  cases h with
  | none => exact .line inLine later
  | block inner => simpa using LogicalLines.block inLine inner later

/-- Line by line, each with what stands below it. -/
@[elab_as_elim]
theorem LogicalLines.byLine {motive : (body : List TokenKind) → LogicalLines body → Prop}
    (nil : motive [] .nil)
    (line : ∀ {words below rest : List TokenKind} (inLine : ∀ k ∈ words, k.isStructural = false)
      (under : LinesBelow below) (later : LogicalLines rest), motive rest later →
      motive _ (under.below_line inLine later))
    (h : LogicalLines body) : motive body h := by
  induction h with
  | nil => exact nil
  | line inLine later ih => exact line inLine .none later ih
  | block inLine inner later _ ih =>
    have hblock := line inLine (.block inner) later ih
    simpa using hblock

theorem LogicalLines.head_ne_indent (h : LogicalLines body) (hrest : rest.head? ≠ some .indent) :
    (body ++ rest).head? ≠ some .indent := by
  have hwords {words rest : List TokenKind} (inLine : ∀ k ∈ words, k.isStructural = false) :
      (words ++ .newline :: rest).head? ≠ some .indent := by
    cases words with
    | nil => simp
    | cons k words =>
      rintro heq
      cases heq
      exact nomatch inLine .indent (List.mem_cons_self ..)
  cases h with
  | nil => exact hrest
  | line inLine later =>
    rw [List.append_assoc]
    exact hwords inLine
  | block inLine inner later =>
    rw [List.append_assoc]
    exact hwords inLine

namespace ParserState

/-- The kinds of the tokens to come. -/
def upcoming (s : ParserState) : List TokenKind := s.tokens.map (·.kind)

theorem kind_of_upcoming (h : s.upcoming = k :: rest) : s.kind = k := by
  obtain ⟨l, hl⟩ := s.exists_tokens
  rw [upcoming, hl] at h
  exact (List.cons.inj h).1

theorem head?_upcoming (s : ParserState) : s.upcoming.head? = some s.kind := by
  obtain ⟨l, hl⟩ := s.exists_tokens
  rw [upcoming, hl]
  rfl

theorem upcoming_eq_cons (he : s.ending.kind = .eof) (hk : s.kind ≠ .eof) :
    s.upcoming = s.kind :: s.advance.upcoming := by
  obtain ⟨l, hl⟩ := s.exists_tokens
  rw [upcoming, upcoming, hl, (advance_of_tokens he hl hk).1]
  rfl

theorem upcoming_advance (he : s.ending.kind = .eof) (h : s.upcoming = k :: rest) (hk : k ≠ .eof) :
    s.advance.upcoming = rest := by
  have hkind := kind_of_upcoming h
  rw [upcoming_eq_cons he (hkind ▸ hk)] at h
  exact (List.cons.inj h).2

theorem Takes.upcoming_eq (h : s.Takes kinds t) (he : s.ending.kind = .eof) :
    s.upcoming = kinds ++ t.upcoming := by
  induction h with
  | nil => rfl
  | cons notEnd readable later ih =>
    rw [upcoming_eq_cons he notEnd, ih (by simpa using he)]
    rfl

theorem length_upcoming (s : ParserState) : s.upcoming.length = s.remaining + 1 := by
  rw [upcoming, List.length_map]
  exact (remaining_of_tokens rfl).symm

theorem Takes.remaining_eq (h : s.Takes kinds t) (he : s.ending.kind = .eof) :
    s.remaining = kinds.length + t.remaining := by
  have hlength := congrArg List.length (h.upcoming_eq he)
  rw [List.length_append, length_upcoming, length_upcoming] at hlength
  omega

/-- Passing one token that is no number. -/
theorem takes_single (hk : s.kind = k) (hne : k ≠ .eof) (hnumber : k ≠ .number) :
    s.Takes [k] s.advance := by
  subst hk
  exact .cons hne (Token.readable_of_ne hnumber) (.nil _)

theorem Takes.uncons (h : s.Takes (k :: kinds) t) : s.kind = k ∧ s.advance.Takes kinds t := by
  cases h with
  | cons notEnd readable later => exact ⟨rfl, later⟩

theorem Takes.eq_of_nil (h : s.Takes [] t) : t = s := by
  cases h
  rfl

theorem TakesWords.previous (h : s.TakesWords kinds t) (he : s.ending.kind = .eof)
    (hne : kinds ≠ []) : ∃ k, t.previous = some k ∧ k.isStructural = false := by
  obtain ⟨htakes, hwords⟩ := h
  induction htakes with
  | nil => exact absurd rfl hne
  | @cons s t kinds notEnd readable later ih =>
    obtain ⟨hword, hlater⟩ := List.forall_mem_cons.mp hwords
    cases kinds with
    | nil =>
      obtain ⟨l, hl⟩ := s.exists_tokens
      rw [later.eq_of_nil]
      exact ⟨s.kind, (advance_of_tokens he hl notEnd).2.1, hword⟩
    | cons k kinds => exact ih (by simpa using he) (List.cons_ne_nil _ _) hlater

end ParserState

/-- Words that are followed by other words of the line. -/
theorem exists_words_of_append {u w : List TokenKind} (hu : ∀ k ∈ u, k.isStructural = false)
    (h : words ++ .newline :: rest = u ++ w) :
    ∃ more, words = u ++ more ∧ w = more ++ .newline :: rest := by
  rcases List.append_eq_append_iff.mp h with ⟨more, rfl, hmore⟩ | ⟨more, rfl, hmore⟩
  · cases more with
    | nil =>
      refine ⟨[], ?_, hmore.symm⟩
      rw [List.append_nil, List.append_nil]
    | cons k more =>
      cases hmore
      exact nomatch hu .newline (List.mem_append_right _ (List.mem_cons_self ..))
  · exact ⟨more, rfl, hmore⟩

namespace Parser

/-- Where the line ends behind a sentence, the sentence is the line. -/
theorem RecognizesWith.endsLine {p : Parser α} (h : p.RecognizesWith L (· = .newline) good)
    (hne : [] ∉ L) (he : s.ending.kind = .eof) (hs : s.upcoming = words ++ .newline :: rest)
    (hwords : ∀ k ∈ words, k.isStructural = false) {a : α} (hp : p s = .ok a t) (ha : good a)
    (hfinish : finishLine t = .ok () v) :
    words ∈ L ∧ s.TakesWords words t ∧ t.kind = .newline ∧ v = t.advance := by
  obtain ⟨kinds, hkinds, ht⟩ := (h s he).sound hp ha
  have hsplit := hs.symm.trans (ht.takes.upcoming_eq he)
  obtain ⟨more, rfl, hmore⟩ := exists_words_of_append ht.words hsplit
  have he' := ht.takes.ending_kind he
  cases more with
  | nil =>
    have hk := kind_of_upcoming hmore
    rw [finishLine_of_newline hk] at hfinish
    cases hfinish
    exact ⟨by rwa [List.append_nil], by rwa [List.append_nil], hk, rfl⟩
  | cons k more =>
    have hk := kind_of_upcoming hmore
    have hword : t.kind.isStructural = false := by
      rw [hk]
      exact hwords k (by simp)
    have hprevious := ht.previous he fun h => hne (h ▸ hkinds)
    rw [finishLine_of_word hword hprevious] at hfinish
    exact nomatch hfinish

/-- A parser for lines reads sentences of the language alone, each with the whole block below it
or nothing of that, and reads every sentence behind which no block begins. -/
structure ReadsLines (p : Parser α) (L : KindLanguage) : Prop where
  starts : Starts (·.isStructural = false) L
  word : ∀ {s t a}, s.ending.kind = .eof → p s = .ok a t → s.kind.isStructural = false
  sound : ∀ {s t a words below rest}, s.ending.kind = .eof → s.cap = 0 →
    (∀ k ∈ words, k.isStructural = false) → LinesBelow below → rest.head? ≠ some .indent →
    s.upcoming = words ++ .newline :: (below ++ rest) → p s = .ok a t → t.problems = s.problems →
    ∃ read left, (left = [] ∨ left = below) ∧ read ++ left = words ++ .newline :: below ∧
      read ∈ L ∧ s.Takes read t
  complete : ∀ {s t kinds}, s.ending.kind = .eof → s.cap = 0 → kinds ∈ L → s.Takes kinds t →
    t.kind ≠ .indent → ∃ a, p s = .ok a t

section

variable {p : Parser α} [Proceeds p] {items : List α}

/-- Problems found on the way are among those found in the end. -/
theorem problems_eq_of_leads {u : ParserState} (h : s.Leads t) (h' : t.Leads u)
    (hnone : u.problems = s.problems) : t.problems = s.problems := by
  have hprefix := h.problems_isPrefix
  have hprefix' := h'.problems_isPrefix
  rw [hnone] at hprefix'
  exact Array.toList_inj.mp (hprefix'.eq_of_length_le hprefix.length_le)

/-- Where a line is read, the loop goes on where parsing resumes behind it. -/
theorem leads_runLines_resumed {line : LineParser β} [line.Proceeds] (hreads : Reads s)
    (gathered : β) : (line gathered s).resumed.Leads (s.runLines line gathered).2 := by
  rw [runLines_round hreads.notNewline hreads.notDedent hreads.notEnd hreads.notHalted]
  exact (leads_lineRound_resumed line gathered s).trans (leads_lines _ _ _ _)

/-- Where a line is read and nothing is reported in the end, the line has been read. -/
theorem exists_of_noProblems (hreads : Reads s) (hcap : s.cap = 0)
    (hnone : (s.runLines (.item p) items).2.problems = s.problems) :
    ∃ a t, p s = .ok a t ∧ t.problems = s.problems := by
  have hlater : (LineParser.item p items s).resumed.Leads (s.runLines (.item p) items).2 :=
    leads_runLines_resumed hreads items
  cases hp : p s with
  | ok a t =>
    rw [LineParser.item_of_ok hp] at hlater
    exact ⟨a, t, rfl, problems_eq_of_leads (p.leads_of_ok hp) hlater hnone⟩
  | error e t =>
    rw [LineParser.item_of_error hp] at hlater
    have hreport : (t.report e).Leads (s.runLines (.item p) items).2 :=
      (leads_skipLine _ _ _).trans hlater
    have hlead := p.leads_of_error hp
    have heq := problems_eq_of_leads (hlead.trans (leads_report t e)) hreport hnone
    have heq' := problems_eq_of_leads hlead ((leads_report t e).trans hreport) hnone
    have hsize := congrArg Array.size heq
    have hhalted := halted_of_uncapped (hlead.cap_eq.trans hcap)
    rw [problems_report, if_neg (by simp [hhalted]), Array.size_push, heq'] at hsize
    omega

/-- Behind a line that has been read the next one is read. -/
theorem runLines_of_takes (items : List α) (he : s.ending.kind = .eof) (hreads : Reads s) {a : α}
    (hp : p s = .ok a t) (ht : s.Takes kinds t) (hne : kinds ≠ []) :
    s.runLines (.item p) items = t.runLines (.item p) (items ++ [a]) := by
  refine (lineLoop_runLines (.item p)).done items s _ t hreads (LineParser.item_of_ok hp) ?_
  have hremaining := ht.remaining_eq he
  have hpositive := List.length_pos_iff.mpr hne
  omega

theorem runLines_newline_of_upcoming (items : List α) (he : s.ending.kind = .eof)
    (hk : s.kind = .newline) :
    s.runLines (.item p) items = s.advance.runLines (.item p) items :=
  runLines_newline hk (atEnd_of_ne he (by simp [hk]))

/-- Empty lines and sentences are read one after the other. -/
theorem ReadsLines.runLines_of_mem (h : p.ReadsLines L) (items : List α)
    (he : s.ending.kind = .eof) (hcap : s.cap = 0) (hkinds : kinds ∈ (one .newline + L)∗)
    (ht : s.Takes kinds t) (hnext : t.kind ≠ .indent) :
    ∃ items', s.runLines (.item p) items = t.runLines (.item p) items' := by
  obtain ⟨parts, rfl, hparts⟩ := Language.mem_kstar.mp hkinds
  have hstarts : Starts (· ≠ .indent) (one .newline + L) := by
    refine (starts_one (by decide)).add fun kinds hkinds => ?_
    obtain ⟨k, more, rfl, hk⟩ := h.starts kinds hkinds
    exact ⟨k, more, rfl, fun heq => nomatch (heq ▸ hk : TokenKind.isStructural .indent = false)⟩
  clear hkinds
  induction parts generalizing s items with
  | nil => exact ⟨items, by rw [ht.eq_of_nil]⟩
  | cons part parts ih =>
    rw [List.flatten_cons] at ht
    obtain ⟨m, hpart, hlater⟩ := ht.split
    obtain ⟨hmem, hparts⟩ := List.forall_mem_cons.mp hparts
    have hrest (items : List α) := ih items (hpart.ending_kind he)
      (hpart.cap_eq.trans hcap) hparts hlater
    rcases hmem with hnewline | hmem
    · cases hnewline
      obtain ⟨hk, hnil⟩ := hpart.uncons
      rw [runLines_newline_of_upcoming items he hk, ← hnil.eq_of_nil]
      exact hrest items
    · have hm : m.kind ≠ .indent := by
        cases parts with
        | nil => exact hlater.eq_of_nil ▸ hnext
        | cons part' parts' =>
          obtain ⟨k, more, rfl, hk⟩ := hstarts part' (hparts part' (List.mem_cons_self ..))
          exact hlater.uncons.1 ▸ hk
      obtain ⟨a, hp⟩ := h.complete he hcap hmem hpart hm
      have hreads := reads_of_beginsLine he (halted_of_uncapped hcap) (.inl (h.word he hp))
      rw [runLines_of_takes items he hreads hp hpart (h.starts.ne_nil hmem)]
      exact hrest _

/-- A block that no line has taken is reported. -/
theorem ReadsLines.problems_of_indent (h : p.ReadsLines L) (items : List α)
    (he : s.ending.kind = .eof) (hcap : s.cap = 0) (hk : s.kind = .indent) :
    (s.runLines (.item p) items).2.problems ≠ s.problems := by
  intro hnone
  have hreads := reads_of_beginsLine he (halted_of_uncapped hcap) (.inr hk)
  obtain ⟨a, t, hp, -⟩ := exists_of_noProblems hreads hcap hnone
  have hword := h.word he hp
  rw [hk] at hword
  exact nomatch hword

/-- Where nothing is reported, the lines are empty or sentences, and all of them are read. -/
theorem ReadsLines.mem_of_noProblems (h : p.ReadsLines L) (hbody : LogicalLines body)
    (he : s.ending.kind = .eof) (hcap : s.cap = 0) (hs : s.upcoming = body ++ rest)
    (hrest : rest.head? ≠ some .indent)
    (hnone : (s.runLines (.item p) items).2.problems = s.problems) :
    body ∈ (one .newline + L)∗ ∧
      ∃ t items', s.Takes body t ∧ s.runLines (.item p) items = t.runLines (.item p) items' := by
  induction hbody using LogicalLines.byLine generalizing s items with
  | nil => exact ⟨Language.nil_mem_kstar _, s, items, .nil s, rfl⟩
  | @line words below body inLine under later ih =>
    rw [List.append_assoc, List.cons_append, List.append_assoc] at hs
    -- Behind a part of the body that is read the rest of it is.
    have hlater {part : List TokenKind} {m : ParserState} {items' : List α}
        (hmem : part ∈ one .newline + L) (hpart : s.Takes part m)
        (hm : m.upcoming = body ++ rest)
        (hrun : s.runLines (.item p) items = m.runLines (.item p) items') :
        part ++ body ∈ (one .newline + L)∗ ∧ ∃ t items', s.Takes (part ++ body) t ∧
          s.runLines (.item p) items = t.runLines (.item p) items' := by
      obtain ⟨hbody, t, items'', ht, hrun'⟩ := ih (hpart.ending_kind he)
        (hpart.cap_eq.trans hcap) hm (by rw [← hrun, hnone, hpart.problems_eq])
      refine ⟨?_, t, items'', hpart.append ht, hrun.trans hrun'⟩
      rw [← Language.one_add_self_mul_kstar_eq_kstar]
      exact .inr (Language.append_mem_mul hmem hbody)
    cases words with
    | nil =>
      have hk := kind_of_upcoming hs
      have hadvance := upcoming_advance he hs (by decide)
      have hrun : s.runLines (.item p) items = s.advance.runLines (.item p) items :=
        runLines_newline_of_upcoming items he hk
      cases under with
      | none => exact hlater (.inl rfl) (takes_single hk (by decide) (by decide)) hadvance hrun
      | block inner =>
        refine absurd ?_ (h.problems_of_indent (s := s.advance) items (by simpa using he)
          (by simpa using hcap) (kind_of_upcoming hadvance))
        rw [← hrun, hnone, advance_problems]
    | cons k words =>
      have hword : s.kind.isStructural = false := by
        rw [kind_of_upcoming hs]
        exact inLine k (List.mem_cons_self ..)
      have hreads := reads_of_beginsLine he (halted_of_uncapped hcap) (.inl hword)
      obtain ⟨a, t, hp, hproblems⟩ := exists_of_noProblems hreads hcap hnone
      obtain ⟨read, left, hleft, heq, hmem, ht⟩ := h.sound he hcap inLine under
        (later.head_ne_indent hrest) hs hp hproblems
      have hrun := runLines_of_takes items he hreads hp ht (h.starts.ne_nil hmem)
      have hupcoming : t.upcoming = left ++ (body ++ rest) := by
        have hsplit := hs.symm.trans (ht.upcoming_eq he)
        rw [← List.cons_append, ← List.append_assoc, ← heq, List.append_assoc] at hsplit
        exact (List.append_cancel_left hsplit).symm
      -- A block that the sentence had left would be reported.
      have hnil : left = [] := by
        rcases hleft with rfl | rfl
        · rfl
        · cases under with
          | none => rfl
          | block inner =>
            refine absurd ?_ (h.problems_of_indent (items ++ [a]) (ht.ending_kind he)
              (ht.cap_eq.trans hcap) (kind_of_upcoming hupcoming))
            rw [← hrun, hnone, ht.problems_eq]
      subst hnil
      rw [List.append_nil] at heq
      have hread := hlater (.inr hmem) ht hupcoming hrun
      rw [heq] at hread
      simpa using hread

end

end Parser

end AgentScript
