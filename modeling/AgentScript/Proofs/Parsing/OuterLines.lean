import AgentScript.Proofs.Parsing.FileLines
import AgentScript.Proofs.Parsing.Outline

/-!
# Lines outside all blocks

A file is read line by line at its outermost level: whatever stands in a line or below it, the
next item is read where the next line outside all blocks begins. So every import and every agent
that begins such a line is met, and every such import is either read or reported on its line.
-/
namespace AgentScript

open ParserState

/-- The lines outside all blocks, each with the token that ends it. More blocks begin than end
before the tokens by `depth`, and `line` has been read of a line. -/
def outerLinesFrom : Int → List Token → List Token → List (List Token)
  | _, _, [] => []
  | depth, line, t :: rest =>
    match t.kind with
    | .indent => outerLinesFrom (depth + 1) [] rest
    | .dedent => outerLinesFrom (depth - 1) [] rest
    | .newline =>
      if depth = 0 then (line ++ [t]) :: outerLinesFrom depth [] rest
      else outerLinesFrom depth [] rest
    | .eof => outerLinesFrom depth [] rest
    | _ => outerLinesFrom depth (line ++ [t]) rest

/-- The logical lines before which as many blocks begin as end. -/
def outerLines (tokens : List Token) : List (List Token) := outerLinesFrom 0 [] tokens

/-- Whether a line begins with a token of the kind. -/
def lineBegins (k : TokenKind) (line : List Token) : Bool := line.head?.any (·.kind == k)

def beginsImport : List Token → Bool := lineBegins (.keyword .importWord)

def beginsAgent : List Token → Bool := lineBegins (.keyword (.opening .agent))

section

variable {depth : Int} {line words rest body below tokens before : List Token} {t newline : Token}

theorem outerLinesFrom_word (ht : t.isStructural = false) :
    outerLinesFrom depth line (t :: rest) = outerLinesFrom depth (line ++ [t]) rest := by
  rw [outerLinesFrom]
  split
  · next hk => exact absurd hk (Token.ne_of_word ht rfl)
  · next hk => exact absurd hk (Token.ne_of_word ht rfl)
  · next hk => exact absurd hk (Token.ne_of_word ht rfl)
  · next hk => exact absurd hk (Token.ne_of_word ht rfl)
  · rfl

/-- A layout token ends the line before it, which is one of the lines if it ends at depth zero. -/
theorem outerLinesFrom_layout (ht : t.isStructural = true) :
    outerLinesFrom depth line (t :: rest) =
      (if t.kind = .newline ∧ depth = 0 then [line ++ [t]] else []) ++
        outerLinesFrom (depth + Token.countOf .indent [t] - Token.countOf .dedent [t]) [] rest := by
  rw [outerLinesFrom]
  unfold Token.isStructural at ht
  cases hk : t.kind <;> simp_all [TokenKind.isStructural]
  split_ifs <;> simp_all

theorem outerLinesFrom_words (h : ∀ t ∈ words, t.isStructural = false) :
    outerLinesFrom depth line (words ++ rest) = outerLinesFrom depth (line ++ words) rest := by
  induction words generalizing line with
  | nil => rw [List.append_nil, List.nil_append]
  | cons t words ih =>
    rw [List.cons_append, outerLinesFrom_word (h t (List.mem_cons_self ..)),
      ih fun t ht => h t (List.mem_cons_of_mem _ ht), List.append_assoc, List.singleton_append]

/-- Every one of the lines stands among the tokens, behind as many blocks that begin as end. -/
theorem exists_of_mem_outerLinesFrom (hline : ∀ t ∈ line, t.isStructural = false) {l : List Token}
    (h : l ∈ outerLinesFrom depth line tokens) :
    ∃ before words newline after, line ++ tokens = before ++ (words ++ newline :: after) ∧
      l = words ++ [newline] ∧ (∀ t ∈ words, t.isStructural = false) ∧ newline.kind = .newline ∧
      depth + Token.countOf .indent before = Token.countOf .dedent before ∧
      ∀ t ∈ before.getLast?, t.isStructural = true := by
  induction tokens generalizing depth line with
  | nil => exact absurd h List.not_mem_nil
  | cons t tokens ih =>
    cases ht : t.isStructural with
    | false =>
      rw [outerLinesFrom_word ht] at h
      obtain ⟨before, words, newline, after, heq, hrest⟩ := ih (by grind) h
      exact ⟨before, words, newline, after, by simpa using heq, hrest⟩
    | true =>
      rw [outerLinesFrom_layout ht, List.mem_append] at h
      rcases h with h | h
      · split_ifs at h with hends
        · obtain rfl := List.mem_singleton.mp h
          exact ⟨[], line, t, tokens, rfl, rfl, hline, hends.1, by simp [hends.2], by simp⟩
        · exact absurd h List.not_mem_nil
      · obtain ⟨before, words, newline, after, heq, hl, hwords, hnewline, hdepth, hlast⟩ :=
          ih (by simp) h
        refine ⟨line ++ t :: before, words, newline, after, ?_, hl, hwords, hnewline, ?_, ?_⟩
        · rw [List.nil_append] at heq
          rw [heq, List.append_assoc, List.cons_append]
        · have hindent := Token.countOf_words (k := .indent) hline rfl
          have hdedent := Token.countOf_words (k := .dedent) hline rfl
          simp only [Token.countOf_append, Token.countOf_cons, Token.countOf_nil] at *
          omega
        · cases before with
          | nil => simpa using ht
          | cons y before => simpa using hlast

/-- What the tokens before a point contribute, and the line that is open there. -/
theorem exists_outerLinesFrom_append (depth : Int) (line before rest : List Token) :
    ∃ lines line', outerLinesFrom depth line (before ++ rest) =
        lines ++ outerLinesFrom
          (depth + Token.countOf .indent before - Token.countOf .dedent before) line' rest ∧
      (before = [] → line' = line) ∧ ∀ t ∈ before.getLast?, t.isStructural = true → line' = [] := by
  induction before generalizing depth line with
  | nil => exact ⟨[], line, by simp, fun _ => rfl, by simp⟩
  | cons t before ih =>
    cases ht : t.isStructural with
    | false =>
      obtain ⟨lines, line', heq, hnil, hlast⟩ := ih depth (line ++ [t])
      refine ⟨lines, line', ?_, by simp, ?_⟩
      · have hne (k : TokenKind) (hk : k.isStructural = true) := Token.ne_of_word (k := k) ht hk
        rw [List.cons_append, outerLinesFrom_word ht, heq]
        simp [hne .indent rfl, hne .dedent rfl]
      · cases before with
        | nil => simp [ht]
        | cons y before => simpa using hlast
    | true =>
      obtain ⟨lines, line', heq, hnil, hlast⟩ :=
        ih (depth + Token.countOf .indent [t] - Token.countOf .dedent [t]) []
      refine ⟨(if t.kind = .newline ∧ depth = 0 then [line ++ [t]] else []) ++ lines, line', ?_,
        by simp, ?_⟩
      · have hdepth : depth + Token.countOf .indent [t] - Token.countOf .dedent [t] +
              Token.countOf .indent before - Token.countOf .dedent before =
            depth + Token.countOf .indent (t :: before) - Token.countOf .dedent (t :: before) := by
          simp only [Token.countOf_cons, Token.countOf_nil]
          omega
        rw [List.cons_append, outerLinesFrom_layout ht, heq, List.append_assoc, hdepth]
      · cases before with
        | nil => simpa using fun _ => hnil rfl
        | cons y before => simpa using hlast

/-- The lines are exactly those that stand among the tokens where as many blocks have begun as
have ended. -/
theorem mem_outerLines {l : List Token} :
    l ∈ outerLines tokens ↔
      ∃ before words newline after, tokens = before ++ (words ++ newline :: after) ∧
        l = words ++ [newline] ∧ (∀ t ∈ words, t.isStructural = false) ∧ newline.kind = .newline ∧
        Token.countOf .indent before = Token.countOf .dedent before ∧
        ∀ t ∈ before.getLast?, t.isStructural = true := by
  constructor
  · intro h
    obtain ⟨before, words, newline, after, heq, hl, hwords, hnewline, hdepth, hlast⟩ :=
      exists_of_mem_outerLinesFrom (by simp) h
    exact ⟨before, words, newline, after, heq, hl, hwords, hnewline, by omega, hlast⟩
  · rintro ⟨before, words, newline, after, rfl, rfl, hwords, hnewline, hdepth, hlast⟩
    obtain ⟨lines, line', heq, hnil, hlayout⟩ :=
      exists_outerLinesFrom_append 0 [] before (words ++ newline :: after)
    have hline : line' = [] := by
      cases hbefore : before.getLast? with
      | none => exact hnil (List.getLast?_eq_none_iff.mp hbefore)
      | some t => exact hlayout t hbefore (hlast t hbefore)
    rw [outerLines, heq, hline, outerLinesFrom_words hwords, outerLinesFrom, hnewline, hdepth]
    simp

/-- What stands in a block contributes no line. -/
theorem outerLinesFrom_inside {K : TokenKind → Prop} (h : LinesOf K body) (hdepth : 0 < depth) :
    outerLinesFrom depth [] (body ++ rest) = outerLinesFrom depth [] rest := by
  induction h generalizing depth rest with
  | nil => rfl
  | line inLine allowed ends later ih =>
    rw [List.append_assoc, List.cons_append, outerLinesFrom_words inLine, outerLinesFrom,
      ends.kind_eq]
    dsimp only
    rw [if_neg (by omega), ih hdepth]
  | block inLine allowed ends opens inner closes later ihinner ih =>
    rw [List.append_assoc, List.cons_append, List.cons_append, List.append_assoc, List.cons_append,
      outerLinesFrom_words inLine, outerLinesFrom, ends.kind_eq]
    dsimp only
    rw [if_neg (by omega), outerLinesFrom, opens.kind_eq]
    dsimp only
    rw [ihinner (by omega), outerLinesFrom, closes.kind_eq]
    dsimp only
    rw [Int.add_sub_cancel, ih hdepth]

theorem outerLines_below (h : IsBelow below) : outerLines (below ++ rest) = outerLines rest := by
  cases h with
  | none => rfl
  | block opens inner closes =>
    rw [outerLines, List.cons_append, List.append_assoc, outerLinesFrom, opens.kind_eq]
    dsimp only
    rw [outerLinesFrom_inside inner (by omega), List.singleton_append, outerLinesFrom,
      closes.kind_eq]
    dsimp only
    rw [Int.add_sub_cancel, outerLines]

theorem outerLines_line (h : ∀ t ∈ words, t.isStructural = false)
    (hnewline : newline.IsMark .newline) :
    outerLines (words ++ newline :: rest) = (words ++ [newline]) :: outerLines rest := by
  rw [outerLines, outerLinesFrom_words h, outerLinesFrom, hnewline.kind_eq]
  rfl

end

section

variable {α ρ : Type} {line : LineParser α} {run : α → ParserState → ρ} {K : TokenKind → Prop}
  {G : α → α → Prop} {s : ParserState} {g : α} {words below rest : List Token} {newline : Token}

/-- Where two parses are alike beside a parse of the tokens alone, the first has passed them. -/
theorem Frame.Alike.reaches {b : Footing} {shared : List Token} {t t' : ParserState}
    (h : (Frame.besideBare s rest).Alike b shared t t') (hcap : s.cap = 0) :
    ∃ found, s.Reaches t found (shared ++ rest) := by
  obtain ⟨found, hfound, -⟩ := h.problems
  exact ⟨found, h.left, h.leftEnding, hfound, h.leftCap.trans hcap.symm⟩

theorem Frame.clear_besideBare (hrest : ∀ t ∈ rest.head?, t.kind ≠ .indent) :
    (Frame.besideBare s rest).Clear := by
  refine ⟨hrest, ?_, rfl⟩
  simp [Frame.besideBare, Token.mark]

/-- A line and what is below it, in a parse beside a parse of these alone. -/
def WholeLine.besideBare (s : ParserState) (hnewline : newline.IsMark .newline)
    (hbelow : IsBelow below) (hrest : ∀ t ∈ rest.head?, t.kind ≠ .indent) : WholeLine :=
  ⟨⟨.besideBare s rest, newline, hnewline.isStructural_eq.trans rfl, below⟩, hnewline, hbelow,
    Frame.clear_besideBare hrest⟩

theorem WholeLine.within_besideBare (hnewline : newline.IsMark .newline) (hbelow : IsBelow below)
    (hrest : ∀ t ∈ rest.head?, t.kind ≠ .indent) (hwords : ∀ t ∈ words, t.isStructural = false)
    (he : s.ending.kind = .eof) (hcap : s.cap = 0)
    (h : s.tokens = words ++ newline :: (below ++ rest)) :
    (besideBare s hnewline hbelow hrest).Within .apart s (bare (words ++ newline :: below)) := by
  have hshared : s.tokens = (words ++ newline :: below) ++ rest := by simpa using h
  exact ⟨words, hwords, Frame.alike_besideBare he hcap hshared⟩

/-- A block that belongs to no line is passed with nothing gathered. -/
theorem LineLoop.pass_below (hrun : LineLoop line run) (hrefuses : line.Refuses)
    (hbelow : IsBelow below) (hrest : ∀ t ∈ rest.head?, t.kind ≠ .indent)
    (he : s.ending.kind = .eof) (hcap : s.cap = 0) (h : s.tokens = below ++ rest) :
    ∃ t found, run g s = run g t ∧ s.Reaches t found rest := by
  have hcontinues : Continues run run _ .apart (fun a _ => a = g) g g s (bare below) :=
    continues_below hrun hrun hrefuses (Frame.clear_besideBare hrest) (Nat.zero_le _) hbelow
      (Frame.alike_besideBare he hcap h) rfl
  obtain ⟨t, t', a, a', ht, -, halike, rfl⟩ := hcontinues
  obtain ⟨found, hreaches⟩ := halike.reaches hcap
  exact ⟨t, found, ht, hreaches⟩

/-- The end of what two lists share does not matter for where one of them ends the other. -/
theorem mem_line_of_isSuffix {left : List Token} {x : Token} {l : List Token}
    (h : left ++ newline :: rest <:+ words ++ newline :: rest)
    (hx : left ++ newline :: rest = x :: l) : x ∈ words ++ [newline] := by
  obtain ⟨passed, hpassed⟩ := h
  have hline : passed ++ (left ++ [newline]) = words ++ [newline] := by
    have hall : (passed ++ (left ++ [newline])) ++ rest = (words ++ [newline]) ++ rest := by
      simpa using hpassed
    exact List.append_cancel_right hall
  rw [← hline]
  apply List.mem_append_right
  cases left with
  | nil =>
    cases hx
    exact List.mem_singleton_self _
  | cons y left =>
    cases hx
    exact List.mem_cons_self ..

/-- A parse that has some of a line's words left is still on the line. -/
theorem ParserState.Leads.current_mem_line {t : ParserState} {left : List Token} (h : s.Leads t)
    (hs : s.tokens = words ++ newline :: rest) (ht : t.tokens = left ++ newline :: rest) :
    t.current ∈ words ++ [newline] := by
  obtain ⟨l, hl⟩ := t.exists_tokens
  have hsuffix : t.tokens <:+ s.tokens := h.tokens_isSuffix
  rw [ht, hs] at hsuffix
  exact mem_line_of_isSuffix hsuffix (ht.symm.trans hl)

/-- Without a cap the problem that is recovered from is reported. -/
theorem ParserState.problems_recover (hcap : s.cap = 0) (p : ParseProblem) :
    (s.recover p).problems.toList = s.problems.toList ++ [p] := by
  rw [recover, synchronize, problems_skipLine, problems_report,
    if_neg (by simp [halted_of_uncapped hcap]), Array.toList_push]

/-- A loop reads a line and goes on behind it and the block below it. If the line is broken, the
problem is reported, and the parse is still on the line then. -/
theorem LineLoop.pass_line [line.Proceeds] (hrun : LineLoop line run)
    (hline : line.Completes (fun s => K s.kind) G) (hrefuses : line.Refuses) (hG : G g g)
    (hne : words ≠ []) (hwords : ∀ t ∈ words, t.isStructural = false)
    (hallowed : ∀ t ∈ words.head?, K t.kind) (hnewline : newline.IsMark .newline)
    (hbelow : IsBelow below) (hrest : ∀ t ∈ rest.head?, t.kind ≠ .indent)
    (he : s.ending.kind = .eof) (hcap : s.cap = 0)
    (h : s.tokens = words ++ newline :: (below ++ rest)) :
    ∃ t found, run g s = run (line g s).gathered t ∧ s.Reaches t found rest ∧
      ∀ p, (line g s).problem = some p →
        p ∈ found ∧ (line g s).state.current ∈ words ++ [newline] := by
  obtain ⟨x, words, rfl⟩ := List.exists_cons_of_ne_nil hne
  have hx := hwords x (List.mem_cons_self ..)
  have hshared : s.tokens = (x :: words ++ newline :: below) ++ rest := by simpa using h
  have halike := Frame.alike_besideBare he hcap hshared
  have hclear := Frame.clear_besideBare (s := s) hrest
  have hkind := kind_of_tokens (h.trans (List.cons_append ..))
  obtain ⟨hreads, -⟩ := halike.reads hclear (.inl hx)
  have hwithin := WholeLine.within_besideBare hnewline hbelow hrest hwords he hcap h
  have hK : K s.kind := by
    rw [hkind]
    exact hallowed x rfl
  have hout := hline (Nat.zero_le _) hwithin (by rwa [hkind]) hK hG
  have hleads : s.Leads (line g s).state := LineParser.Proceeds.leads g s
  generalize hleft : line g s = left at hout hleads ⊢
  generalize line g (bare (x :: words ++ newline :: below)) = right at hout
  cases hout with
  | @failed a a' t t' _ p within =>
    obtain ⟨words', hwords', halike'⟩ := within
    have hafter := halike'.recover_line hclear hwords' hnewline hbelow (Nat.zero_le _) p
    obtain ⟨before, hbefore⟩ := halike'.reaches hcap
    have hproblems : (t.recover p).problems.toList = s.problems.toList ++ (before ++ [p]) := by
      rw [problems_recover (hbefore.cap.trans hcap), hbefore.problems, List.append_assoc]
    refine ⟨t.recover p, before ++ [p], ?_, ⟨hafter.left, hafter.leftEnding, hproblems, ?_⟩, ?_⟩
    · exact hrun.failed _ _ _ _ _ hreads hleft (remaining_lt_of_tokens hshared hafter.left)
    · exact hafter.leftCap.trans hcap.symm
    · rintro q ⟨⟩
      refine ⟨List.mem_append_right _ (List.mem_singleton_self p), ?_⟩
      have htokens : t.tokens = words' ++ newline :: (below ++ rest) := by
        rw [halike'.left, List.append_assoc]
        rfl
      exact hleads.current_mem_line h htokens
  | @done a a' t t' _ passed =>
    have hnone (found : List ParseProblem) : ∀ p, (none : Option ParseProblem) = some p →
        p ∈ found ∧ t.current ∈ x :: words ++ [newline] := by
      rintro p ⟨⟩
    cases passed with
    | behind hbehind =>
      obtain ⟨found, hreaches⟩ := hbehind.alike.reaches hcap
      obtain ⟨u, more, hu, hreaches'⟩ := hrun.pass_below (g := a) hrefuses hbelow hrest
        hreaches.ending (hreaches.cap.trans hcap) hreaches.tokens
      refine ⟨u, found ++ more, ?_, hreaches.trans hreaches', hnone _⟩
      rw [← hu]
      apply hrun.done _ _ _ _ hreads hleft
      have htokens : s.tokens = x :: ((words ++ [newline]) ++ (below ++ rest)) := by simpa using h
      exact remaining_lt_of_tokens htokens hreaches.tokens
    | @beyond u u' halike' hdrops hdrops' =>
      obtain ⟨found, hreaches⟩ := halike'.reaches hcap
      refine ⟨u, found, ?_, hreaches, hnone _⟩
      exact hrun.done_of_drops hreads hleft hdrops (remaining_lt_of_tokens hshared hreaches.tokens)
        hreaches.ending (halted_of_uncapped (hreaches.cap.trans hcap))

end

namespace Parser

variable {α β : Type}

/-- The parser fails at the token that it would have to pass next. -/
class FailsHere (p : Parser α) : Prop where
  location : ∀ {s t : ParserState} {e : ParseProblem}, p s = .error e t →
    e.location = some t.current.location

instance failsHere_bind {p : Parser α} {f : α → Parser β} [h : FailsHere p]
    [h' : ∀ a, FailsHere (f a)] : FailsHere (p >>= f) := by
  constructor
  intro s t e heq
  cases hp : p s with
  | ok a u => exact (h' a).location ((bind_of_ok f hp).symm.trans heq)
  | error e' u =>
    cases (bind_of_error f hp).symm.trans heq
    exact h.location hp

instance failsHere_ite {c : Prop} [Decidable c] {p q : Parser α} [h : FailsHere p]
    [h' : FailsHere q] : FailsHere (if c then p else q) := by
  split_ifs
  · exact h
  · exact h'

instance failsHere_pure (a : α) : FailsHere (pure a : Parser α) := ⟨fun h => nomatch h⟩

instance failsHere_look (f : ParserState → α) : FailsHere (look f) := ⟨fun h => nomatch h⟩

instance failsHere_kind : FailsHere kind := ⟨fun h => nomatch h⟩

instance failsHere_check (k : TokenKind) : FailsHere (check k) := ⟨fun h => nomatch h⟩

instance failsHere_advance : FailsHere advance := ⟨fun h => nomatch h⟩

instance failsHere_eat (k : TokenKind) : FailsHere (eat k) := by
  constructor
  intro s t e h
  unfold eat at h
  split_ifs at h

instance failsHere_spanFrom (start : Position) : FailsHere (spanFrom start) :=
  ⟨fun h => nomatch h⟩

instance failsHere_failHere (cause : Token → ParseCause) :
    FailsHere (failHere cause : Parser α) := by
  constructor
  rintro s t e ⟨⟩
  rfl

instance failsHere_unexpected (what : String) : FailsHere (unexpected what : Parser α) :=
  failsHere_failHere _

instance failsHere_expect (k : TokenKind) (what : String) : FailsHere (expect k what) := by
  unfold expect
  infer_instance

instance failsHere_takeString (what : String) : FailsHere (takeString what) := by
  unfold takeString
  infer_instance

instance failsHere_takeName (what : String) : FailsHere (takeName what) := by
  unfold takeName
  infer_instance

instance failsHere_optionally (k : TokenKind) {p : Parser α} [FailsHere p] :
    FailsHere (optionally k p) := by
  unfold optionally
  infer_instance

instance failsHere_eachAfter (separator : TokenKind) {item : Parser α} [FailsHere item]
    (fuel : Nat) : FailsHere (eachAfter separator item fuel) := by
  induction fuel with
  | zero => exact failsHere_pure []
  | succ fuel ih =>
    unfold eachAfter
    infer_instance

instance failsHere_separated (separator : TokenKind) {first item : Parser α} [FailsHere first]
    [FailsHere item] : FailsHere (separated separator first item) := by
  unfold separated followers lineLeft
  infer_instance

instance failsHere_finishLine : FailsHere finishLine := by
  constructor
  intro s t e h
  unfold finishLine at h
  split_ifs at h
  exact (failsHere_unexpected (α := Unit) _).location h

instance failsHere_importLine : FailsHere importLine := by
  unfold importLine
  infer_instance

/-- An import begins where its line does. -/
theorem location_importLine {s t : ParserState} {i : Import} (h : importLine s = .ok i t) :
    ∃ l, i.location = some l ∧ l.start = s.current.start := by
  unfold importLine at h
  obtain ⟨x, s₁, hadvance, h⟩ := bind_eq_ok.mp h
  cases hadvance
  obtain ⟨path, s₂, -, h⟩ := bind_eq_ok.mp h
  obtain ⟨localName, s₃, -, h⟩ := bind_eq_ok.mp h
  obtain ⟨source, s₄, -, h⟩ := bind_eq_ok.mp h
  obtain ⟨l, s₅, hspan, h⟩ := bind_eq_ok.mp h
  cases hspan
  obtain ⟨u, s₆, -, h⟩ := bind_eq_ok.mp h
  cases h
  refine ⟨_, rfl, ?_⟩
  unfold ParserState.spanFrom
  split
  · split_ifs <;> rfl
  · rfl

end Parser

/-- What becomes of a line that begins with the word for imports: an import that begins where the
line does, or an error at a token of the line. -/
inductive ImportOutcome (line : List Token) : Import ⊕ ParseError → Prop
  | read {i : Import} {first : Token} {l : Location} (head : line.head? = some first)
      (located : i.location = some l) (start : l.start = first.start) : ImportOutcome line (.inl i)
  | broken {e : ParseError} {t : Token} (onLine : t ∈ line)
    (located : e.location = some t.location) :
      ImportOutcome line (.inr e)

/-- What reading the lines adds to the parts of a file and to the problems found in it. -/
structure Gathers (file : Option String) (lines : List (List Token)) (f g : FileParts)
    (found : List ParseProblem) : Prop where
  recognized : g.recognized =
    (f.recognized || lines.any fun line => beginsImport line || beginsAgent line)
  outcomes : ∃ outcomes, List.Forall₂ ImportOutcome (lines.filter beginsImport) outcomes ∧
    g.imports = f.imports ++ outcomes.filterMap Sum.getLeft? ∧
    (outcomes.filterMap Sum.getRight?).Sublist (found.map (·.toError file))

namespace Gathers

variable {file : Option String} {lines more : List (List Token)} {line : List Token}
  {f g k : FileParts} {found later : List ParseProblem} {p : ParseProblem} {i : Import}

theorem nothing (file : Option String) (f : FileParts) (found : List ParseProblem) :
    Gathers file [] f f found :=
  ⟨by simp, [], .nil, by simp, by simp⟩

protected theorem trans (h : Gathers file lines f g found) (h' : Gathers file more g k later) :
    Gathers file (lines ++ more) f k (found ++ later) := by
  obtain ⟨outcomes, hlines, himports, herrors⟩ := h.outcomes
  obtain ⟨outcomes', hlines', himports', herrors'⟩ := h'.outcomes
  refine ⟨?_, outcomes ++ outcomes', ?_, ?_, ?_⟩
  · rw [h'.recognized, h.recognized, List.any_append, Bool.or_assoc]
  · rw [List.filter_append]
    exact List.rel_append hlines hlines'
  · rw [himports', himports, List.filterMap_append, List.append_assoc]
  · rw [List.filterMap_append, List.map_append]
    exact herrors.append herrors'

/-- A line that begins with neither word. -/
theorem other (himport : beginsImport line = false) (hagent : beginsAgent line = false) :
    Gathers file [line] f f found :=
  ⟨by simp [himport, hagent], [], by simp [himport], by simp, by simp⟩

theorem agent (himport : beginsImport line = false) (hagent : beginsAgent line = true)
    (hrecognized : g.recognized = true) (himports : g.imports = f.imports) :
    Gathers file [line] f g found :=
  ⟨by simp [hagent, hrecognized], [], by simp [himport], by simp [himports], by simp⟩

theorem oneImport (himport : beginsImport line = true) (hrecognized : g.recognized = true)
    (hread : ImportOutcome line (.inl i)) (himports : g.imports = f.imports ++ [i]) :
    Gathers file [line] f g found :=
  ⟨by simp [himport, hrecognized], [.inl i], by simpa [himport] using hread, by simp [himports],
    List.nil_sublist _⟩

theorem oneError (himport : beginsImport line = true) (hrecognized : g.recognized = true)
    (hbroken : ImportOutcome line (.inr (p.toError file))) (himports : g.imports = f.imports)
    (hp : p ∈ found) : Gathers file [line] f g found :=
  ⟨by simp [himport, hrecognized], [.inr (p.toError file)], by simpa [himport] using hbroken,
    by simp [himports], by simpa using ⟨p, hp, rfl⟩⟩

end Gathers

namespace FileParts

variable {f : FileParts} {s : ParserState} {words below rest body : List Token} {newline : Token}

theorem related_refl (f : FileParts) : Related Eq f f := ⟨rfl, rfl, rfl⟩

theorem completes_itemLine_eq : itemLine.Completes (fun _ => True) (Related Eq) := by
  apply completes_itemLine (K := fun _ => True)
  rintro - a _ rfl
  cases a with
  | none => exact .inl ⟨rfl, rfl, fun _ => rfl⟩
  | some a => exact .inr ⟨a, a, rfl, rfl⟩

/-- What is gathered from the item that a line begins with. -/
theorem gathers_itemLine (file : Option String) {found : List ParseProblem} {line : List Token}
    (hline : line.head? = some s.current)
    (hproblem : ∀ p, (itemLine f s).problem = some p →
      p ∈ found ∧ (itemLine f s).state.current ∈ line) :
    Gathers file [line] f (itemLine f s).gathered found := by
  have hbegins (k : TokenKind) : lineBegins k line = (s.kind == k) := by
    simp [lineBegins, hline, kind]
  have himportLine : beginsImport line = (s.kind == .keyword .importWord) := hbegins _
  have hagentLine : beginsAgent line = (s.kind == .keyword (.opening .agent)) := hbegins _
  by_cases himport : s.kind = .keyword .importWord
  · have hbegins := himportLine.trans (beq_iff_eq.mpr himport)
    have hitem := itemLine_import f himport
    cases hparsed : Parser.importLine s with
    | ok i u =>
      rw [hparsed] at hitem
      obtain ⟨l, hlocation, hstart⟩ := Parser.location_importLine hparsed
      obtain ⟨rest, rfl⟩ := List.head?_eq_some_iff.mp hline
      refine .oneImport hbegins (by rw [hitem]) (.read rfl hlocation hstart) (by rw [hitem])
    | error p u =>
      rw [hparsed] at hitem
      rw [hitem] at hproblem ⊢
      obtain ⟨hp, hon⟩ := hproblem p rfl
      have hlocation := (Parser.failsHere_importLine).location hparsed
      exact .oneError hbegins rfl (.broken hon hlocation) rfl hp
  have hnoImport := himportLine.trans (beq_eq_false_iff_ne.mpr himport)
  by_cases hagent : s.kind = .keyword (.opening .agent)
  · have hbegins := hagentLine.trans (beq_iff_eq.mpr hagent)
    have hgathered : (itemLine f s).gathered.recognized = true ∧
        (itemLine f s).gathered.imports = f.imports := by
      rw [itemLine_agent f hagent]
      split
      · split <;> exact ⟨rfl, rfl⟩
      · exact ⟨rfl, rfl⟩
    exact .agent hnoImport hbegins hgathered.1 hgathered.2
  · rw [itemLine_stray f himport hagent]
    exact .other hnoImport (hagentLine.trans (beq_eq_false_iff_ne.mpr hagent))

/-- One line outside all blocks, with the block below it. -/
theorem runItems_line (file : Option String) (hwords : ∀ t ∈ words, t.isStructural = false)
    (hnewline : newline.IsMark .newline) (hbelow : IsBelow below)
    (hrest : ∀ t ∈ rest.head?, t.kind ≠ .indent) (he : s.ending.kind = .eof) (hcap : s.cap = 0)
    (h : s.tokens = words ++ newline :: (below ++ rest)) :
    ∃ t g found, f.runItems s = g.runItems t ∧ s.Reaches t found rest ∧
      Gathers file [words ++ [newline]] f g found := by
  cases words with
  | nil =>
    have hne : newline.kind ≠ .eof := hnewline.ne_eof (by decide)
    have hnext := (Reaches.refl h he).advance hne
    obtain ⟨t, found, ht, hreaches⟩ := lineLoop_runItems.pass_below (g := f) refuses_itemLine hbelow
      hrest hnext.ending (hnext.cap.trans hcap) hnext.tokens
    refine ⟨t, f, [] ++ found, ?_, hnext.trans hreaches, ?_⟩
    · rw [← ht]
      apply lineLoop_runItems.newline _ _ ((kind_of_tokens h).trans hnewline.kind_eq)
      · exact atEnd_of_tokens he h hne
      · exact halted_of_uncapped hcap
    · apply Gathers.other
      · simp [beginsImport, lineBegins, hnewline.kind_eq]
      · simp [beginsAgent, lineBegins, hnewline.kind_eq]
  | cons x words =>
    obtain ⟨t, found, ht, hreaches, hproblem⟩ := lineLoop_runItems.pass_line (g := f)
      (K := fun _ => True) completes_itemLine_eq refuses_itemLine (related_refl f) (by simp) hwords
      (by simp) hnewline hbelow hrest he hcap h
    have hhead : (x :: words ++ [newline]).head? = some s.current :=
      congrArg some (current_of_tokens h).symm
    exact ⟨t, _, found, ht, hreaches, gathers_itemLine file hhead hproblem⟩

/-- The lines of a body, by induction on them: every item is read where a line begins. -/
theorem runItems_body (file : Option String) {K : TokenKind → Prop} (hbody : LinesOf K body)
    (hrest : ∀ t ∈ rest.head?, t.kind ≠ .indent) (he : s.ending.kind = .eof) (hcap : s.cap = 0)
    (h : s.tokens = body ++ rest) :
    ∃ t g found, f.runItems s = g.runItems t ∧ s.Reaches t found rest ∧
      ∃ lines, outerLines (body ++ rest) = lines ++ outerLines rest ∧
        Gathers file lines f g found := by
  induction hbody generalizing f s with
  | nil => exact ⟨s, f, [], rfl, .refl h he, [], rfl, .nothing file f []⟩
  | @line K words more newline inLine allowed ends later ih =>
    have hmore : ∀ t ∈ (more ++ rest).head?, t.kind ≠ .indent := later.head_append_ne_indent hrest
    have htokens : s.tokens = words ++ newline :: ([] ++ (more ++ rest)) := by simpa using h
    obtain ⟨t, g, found, ht, hreaches, hline⟩ :=
      runItems_line (f := f) file inLine ends .none hmore he hcap htokens
    obtain ⟨u, k, found', hu, hreaches', lines, hlines, hlater⟩ :=
      ih (f := g) hreaches.ending (hreaches.cap.trans hcap) hreaches.tokens
    refine ⟨u, k, found ++ found', ht.trans hu, hreaches.trans hreaches', _, ?_, hline.trans hlater⟩
    rw [List.append_assoc, List.cons_append, outerLines_line inLine ends, hlines]
    rfl
  | @block K words body more newline indent dedent inLine allowed ends opens inner closes
    later _ ih =>
    have hmore : ∀ t ∈ (more ++ rest).head?, t.kind ≠ .indent := later.head_append_ne_indent hrest
    have hbelow : IsBelow (indent :: (body ++ [dedent])) := .block opens inner closes
    have hsplit : words ++ newline :: indent :: (body ++ dedent :: more) ++ rest =
        words ++ newline :: (indent :: (body ++ [dedent]) ++ (more ++ rest)) := by simp
    obtain ⟨t, g, found, ht, hreaches, hline⟩ :=
      runItems_line (f := f) file inLine ends hbelow hmore he hcap (h.trans hsplit)
    obtain ⟨u, k, found', hu, hreaches', lines, hlines, hlater⟩ :=
      ih (f := g) hreaches.ending (hreaches.cap.trans hcap) hreaches.tokens
    refine ⟨u, k, found ++ found', ht.trans hu, hreaches.trans hreaches', _, ?_, hline.trans hlater⟩
    rw [hsplit, outerLines_line inLine ends, outerLines_below hbelow, hlines]
    rfl

end FileParts

/-- What a file is read to: nothing if no line outside all blocks begins with the word for imports
or agents; the imports of those lines, in their order, but for those on whose lines errors are
reported; and an agent if there are no errors at all. -/
structure ReadsOuterLines (tokens : List Token) (parsed : ParsedFile) : Prop where
  absent : parsed.tree = none ↔
    ∀ line ∈ outerLines tokens, beginsImport line = false ∧ beginsAgent line = false
  imports : ∃ outcomes,
    List.Forall₂ ImportOutcome ((outerLines tokens).filter beginsImport) outcomes ∧
    (∀ tree, parsed.tree = some tree → tree.imports = outcomes.filterMap Sum.getLeft?) ∧
    (outcomes.filterMap Sum.getRight?).Sublist parsed.errors
  faultless : parsed.errors = [] →
    ∃ tree agent, parsed.tree = some tree ∧ tree.agent = some agent

/-- All lines of a text are gathered before its end. -/
theorem FileParts.gathers_ofSource (source : String) (file : Option String) :
    ∃ f t, FileParts.empty.runItems (.ofTokens (TokenizedText.ofSource source).tokens 0) = (f, t) ∧
      t.halted = false ∧
      Gathers file (outerLines (TokenizedText.ofSource source).tokens) .empty f
        t.problems.toList := by
  obtain ⟨lead, body, last, houtlined⟩ := outlined_ofSource source
  have hlast : ∀ t ∈ [last].head?, t.kind ≠ .indent := by simp [houtlined.last]
  set s := ParserState.ofTokens (TokenizedText.ofSource source).tokens 0 with hs
  have htokens : s.tokens = lead ++ (body ++ [last]) := by
    rw [hs, houtlined.tokens_eq, ← List.append_assoc]
    exact tokens_ofTokens houtlined.last 0
  obtain ⟨t, found, ht, hreaches⟩ := lineLoop_runItems.pass_below (g := .empty) refuses_itemLine
    houtlined.lead (houtlined.body.head_append_ne_indent hlast)
      (ending_kind_ofTokens _ _) rfl htokens
  obtain ⟨u, f, found', hu, hreaches', lines, hlines, hgathers⟩ := runItems_body (f := .empty) file
    houtlined.body hlast hreaches.ending hreaches.cap hreaches.tokens
  have hend : u.atEnd = true :=
    atEnd_of_remaining_eq_zero (by simpa using remaining_of_tokens hreaches'.tokens)
  have houter : outerLines (TokenizedText.ofSource source).tokens = lines := by
    have hnone : outerLines [last] = [] := by
      rw [outerLines, outerLinesFrom, houtlined.last]
      rfl
    rw [houtlined.tokens_eq, outerLines_below houtlined.lead, hlines, hnone, List.append_nil]
  have hproblems : u.problems.toList = found ++ found' := (hreaches.trans hreaches').problems
  refine ⟨f, u, ?_, ?_, ?_⟩
  · rw [ht, hu, runItems_of_atEnd hend]
  · exact halted_of_uncapped (hreaches.trans hreaches').cap
  · rw [houter, hproblems]
    exact (Gathers.nothing file .empty found).trans hgathers

namespace ParsedFile

/-- What is made of the parts of a file: a tree if anything has been recognized, with one error
more unless there is an agent. -/
structure Finishes (file : Option String) (f : FileParts) (found : List ParseProblem)
    (parsed : ParsedFile) : Prop where
  errors : found.map (·.toError file) <+: parsed.errors
  absent : f.recognized = false → parsed.tree = none ∧ parsed.errors ≠ []
  present : f.recognized = true → ∃ tree, parsed.tree = some tree ∧ tree.imports = f.imports ∧
    (tree.agent = none → parsed.errors ≠ [])

theorem finishes_ofTokens {tokens : List Token} {f : FileParts} {t : ParserState}
    (hrun : FileParts.empty.runItems (.ofTokens tokens 0) = (f, t)) (hhalted : t.halted = false)
    (file : Option String) :
    Finishes file f t.problems.toList (ParsedFile.ofTokens tokens ⟨file, 0⟩) := by
  have hproblems (p : ParseProblem) : (t.report p).problems.toList = t.problems.toList ++ [p] := by
    simp [problems_report, hhalted]
  have hmore (p : ParseProblem) : t.problems.toList.map (·.toError file) <+:
      (t.report p).problems.toList.map (·.toError file) := by simp [hproblems]
  have hsome (p : ParseProblem) : (t.report p).problems.toList.map (·.toError file) ≠ [] := by
    simp [hproblems]
  unfold ofTokens read
  rw [← FileParts.runItems, hrun]
  obtain ⟨imports, agent, recognized⟩ := f
  cases recognized with
  | false =>
    constructor
    case errors => exact hmore ⟨.nothingRecognized, none⟩
    case absent => exact fun _ => ⟨rfl, hsome ⟨.nothingRecognized, none⟩⟩
    case present => simp
  | true =>
    cases agent with
    | none =>
      constructor
      case errors => exact hmore ⟨.missingAgent, none⟩
      case absent => simp
      case present => exact fun _ => ⟨_, rfl, rfl, fun _ => hsome ⟨.missingAgent, none⟩⟩
    | some agent =>
      constructor
      case errors => exact List.prefix_refl _
      case absent => simp
      case present => exact fun _ => ⟨_, rfl, rfl, by simp⟩

end ParsedFile

/-- Every import and every agent that begins a line outside all blocks is met by the parse. -/
theorem file_readsOuterLines (source : String) (file : Option String) :
    ReadsOuterLines (TokenizedText.ofSource source).tokens
      (ParsedFile.ofTokens (TokenizedText.ofSource source).tokens ⟨file, 0⟩) := by
  obtain ⟨f, t, hrun, hhalted, hgathers⟩ := FileParts.gathers_ofSource source file
  have hfinishes := ParsedFile.finishes_ofTokens hrun hhalted file
  generalize (TokenizedText.ofSource source).tokens = tokens at hrun hgathers hfinishes ⊢
  generalize ParsedFile.ofTokens tokens ⟨file, 0⟩ = parsed at hfinishes ⊢
  obtain ⟨outcomes, hlines, himports, herrors⟩ := hgathers.outcomes
  have hrecognized : f.recognized =
      (outerLines tokens).any fun line => beginsImport line || beginsAgent line :=
    hgathers.recognized
  constructor
  case absent =>
    have hnone : parsed.tree = none ↔ f.recognized = false := by
      constructor
      · intro htree
        by_contra hseen
        obtain ⟨tree, hsome, -⟩ := hfinishes.present (by simpa using hseen)
        rw [hsome] at htree
        exact nomatch htree
      · exact fun h => (hfinishes.absent h).1
    rw [hnone, hrecognized]
    simp
  case imports =>
    refine ⟨outcomes, hlines, fun tree htree => ?_, herrors.trans hfinishes.errors.sublist⟩
    have hseen : f.recognized = true := by
      by_contra hseen
      rw [(hfinishes.absent (by simpa using hseen)).1] at htree
      exact nomatch htree
    obtain ⟨tree', htree', hsame, -⟩ := hfinishes.present hseen
    rw [htree'] at htree
    cases htree
    rw [hsame, himports]
    rfl
  case faultless =>
    intro hempty
    have hseen : f.recognized = true := by
      by_contra hseen
      exact (hfinishes.absent (by simpa using hseen)).2 hempty
    obtain ⟨tree, htree, -, hagent⟩ := hfinishes.present hseen
    obtain ⟨agent, hsome⟩ := Option.ne_none_iff_exists'.mp fun h => hagent h hempty
    exact ⟨tree, agent, htree, hsome⟩

end AgentScript
