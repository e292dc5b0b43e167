import AgentScript.Proofs.Parsing.Agreement
import AgentScript.Proofs.Reflow.Tokens

/-!
# States in two parses of a text laid out anew

Two parses go through the same words and blocks. They know the same of what they have passed,
and the problems they have found are told in the same words at the same places, up to line ends
that have been moved. In a block both are as deep, unless they are halted. Skipping keeps this,
also behind the last line, where the one may pass empty lines that the other does not have.
-/
namespace AgentScript

open Token (Closing)

variable {Moved : Position → Position → Prop}

/-- The same problem in two texts, where the places of problems are moved as the relation says. -/
structure ParseProblem.Alike (Moved : Position → Position → Prop) (p p' : ParseProblem) : Prop where
  message : p.cause.message = p'.cause.message
  start : Option.Rel (fun l l' => Moved l.start l'.start) p.location p'.location

theorem ParseProblem.Alike.unlocated (cause : ParseCause) :
    Alike Moved ⟨cause, none⟩ ⟨cause, none⟩ :=
  ⟨rfl, .none⟩

theorem ParseProblem.Alike.located {l : Location} (h : Moved l.start l.start) (cause : ParseCause) :
    Alike Moved ⟨cause, some l⟩ ⟨cause, some l⟩ := ⟨rfl, .some h⟩

namespace ParserState

/-- Two states of which one is reached from the other by passing layout tokens behind the last
line. -/
structure Closes (d : Nat) (s t : ParserState) : Prop where
  tokens : Closing d t.tokens
  ending : t.ending = s.ending
  lastEnd : t.lastEnd = s.lastEnd
  problems : t.problems = s.problems
  cap : t.cap = s.cap

/-- Two states at the same place of texts that differ in their layout. Unless they are halted,
more blocks end than begin in the tokens to come by the number. -/
structure Reflowed (Moved : Position → Position → Prop) (st : Stance) (d : Nat)
    (s s' : ParserState) : Prop where
  tokens : ∃ e, Token.Reflowed Moved st e s.tokens s'.tokens ∧ (s.halted = false → e = d)
  ending : s.ending.kind = .eof
  ending' : s'.ending.kind = .eof
  lastEnd : s.lastEnd = s'.lastEnd
  cap : s.cap = s'.cap
  problems : List.Forall₂ (ParseProblem.Alike Moved) s.problems.toList s'.problems.toList
  previous : s.previous = s'.previous ∨ ∃ e, Closing e s.tokens ∧ Closing e s'.tokens
  captured : st = .captured → ∃ k, s.previous = some k ∧ k.isStructural = false

variable {st st' : Stance} {d d' e : Nat} {s s' t t' : ParserState} {x x' : Token}
  {l l' : List Token}

namespace Reflowed

theorem halted_eq (h : s.Reflowed Moved st d s') : s.halted = s'.halted := by
  have hsize : s.problems.size = s'.problems.size := by
    rw [← Array.length_toList, ← Array.length_toList, h.problems.length_eq]
  rw [halted, halted, hsize, h.cap]

/-- The next tokens, with those behind them. -/
theorem exists_tokens (h : s.Reflowed Moved st d s') : ∃ e l l',
    s.tokens = s.current :: l ∧ s'.tokens = s'.current :: l' ∧
      Token.Reflowed Moved st e (s.current :: l) (s'.current :: l') ∧
      (s.halted = false → e = d) := by
  obtain ⟨l, hl⟩ := s.exists_tokens
  obtain ⟨l', hl'⟩ := s'.exists_tokens
  obtain ⟨e, htokens, hlevel⟩ := h.tokens
  exact ⟨e, l, l', hl, hl', hl ▸ hl' ▸ htokens, hlevel⟩

theorem lineLeft_eq (h : s.Reflowed Moved st d s') : s.lineLeft = s'.lineLeft := by
  obtain ⟨e, htokens, -⟩ := h.tokens
  rw [lineLeft_eq_tokens h.ending, lineLeft_eq_tokens h.ending', htokens.takeWhile_eq]

theorem kind_eq (h : s.Reflowed Moved st d s') (hst : st.endsLine = false) : s.kind = s'.kind := by
  obtain ⟨e, l, l', -, -, htokens, -⟩ := h.exists_tokens
  exact htokens.kind_eq hst

theorem kind_iff (h : s.Reflowed Moved st d s') {k : TokenKind}
    (hk : k.isStructural = false ∨ k = .indent) : s.kind = k ↔ s'.kind = k := by
  obtain ⟨e, l, l', -, -, htokens, -⟩ := h.exists_tokens
  exact htokens.head_iff hk

theorem current_eq (h : s.Reflowed Moved st d s') (hk : s.kind.isStructural = false) :
    s.current = s'.current := by
  obtain ⟨e, l, l', -, -, htokens, -⟩ := h.exists_tokens
  exact (htokens.word_cases hk).1

/-- Both parses may begin a line here, with a word or a block, or neither may. -/
theorem beginsLine (h : s.Reflowed Moved st d s')
    (hk : s.kind.isStructural = false ∨ s.kind = .indent) :
    s'.kind.isStructural = false ∨ s'.kind = .indent := by
  rcases hk with hk | hk
  · exact .inl (by rwa [kind, ← h.current_eq hk])
  · exact .inr ((h.kind_iff (.inr rfl)).mp hk)

/-- A problem with a word is found at the same place. -/
theorem placed (h : s.Reflowed Moved st d s') (hk : s.kind.isStructural = false) :
    Moved s.current.start s.current.start := by
  obtain ⟨e, l, l', -, -, htokens, -⟩ := h.exists_tokens
  exact (htokens.word_cases hk).2.1

theorem spanFrom_eq (h : s.Reflowed Moved st d s') (start : Position) :
    s.spanFrom start = s'.spanFrom start := by
  unfold spanFrom
  rw [h.lastEnd]

theorem weaken (h : s.Reflowed Moved st d s') (hst : st ≠ .captured) :
    s.Reflowed Moved .between d s' := by
  obtain ⟨e, htokens, hlevel⟩ := h.tokens
  exact { h with tokens := ⟨e, htokens.between hst, hlevel⟩, captured := nofun }

/-- A line begins here if nothing ends. -/
theorem inside (h : s.Reflowed Moved st d s') (hst : st ≠ .captured)
    (hk : s.kind.isStructural = false ∨ s.kind = .indent) : s.Reflowed Moved .inside d s' := by
  obtain ⟨e, l, l', hl, hl', htokens, hlevel⟩ := h.exists_tokens
  have hinside := htokens.inside hst hk
  rw [← hl, ← hl'] at hinside
  exact { h with tokens := ⟨e, hinside, hlevel⟩, captured := nofun }

/-- Before a word both parses remember the same token. -/
theorem previous_eq (h : s.Reflowed Moved st d s')
    (hk : s.kind.isStructural = false ∨ s.kind = .indent) : s.previous = s'.previous := by
  rcases h.previous with heq | ⟨e, hclosing, -⟩
  · exact heq
  · obtain ⟨l, hl⟩ := s.exists_tokens
    rw [hl] at hclosing
    rcases hk with hk | hk
    · exact nomatch hclosing.isStructural.symm.trans hk
    · exact absurd hk hclosing.ne_indent

theorem report (h : s.Reflowed Moved st d s') {p p' : ParseProblem} (hp : p.Alike Moved p') :
    (s.report p).Reflowed Moved st d (s'.report p') := by
  have hhalted := h.halted_eq
  unfold ParserState.report
  rw [← hhalted]
  split_ifs with hs
  · exact h
  · obtain ⟨e, htokens, hlevel⟩ := h.tokens
    refine { h with
      tokens := ⟨e, htokens, fun _ => hlevel (by simpa using hs)⟩
      problems := ?_ }
    rw [Array.toList_push, Array.toList_push]
    exact List.rel_append h.problems (.cons hp .nil)

/-- Both parses pass a token of one kind. -/
theorem step (h : s.Reflowed Moved st d s') (hx : s.tokens = x :: l) (hx' : s'.tokens = x' :: l')
    (hkind : x.kind = x'.kind) (hne : x.kind ≠ .eof) (hsame : x.isStructural = false → x = x')
    (htokens : ∃ e, Token.Reflowed Moved st' e l l' ∧ (s.halted = false → e = d'))
    (hcaptured : st' = .captured → x.isStructural = false) :
    s.advance.Reflowed Moved st' d' s'.advance := by
  obtain ⟨hl, hprevious, hend⟩ := advance_of_tokens h.ending hx hne
  obtain ⟨hl', hprevious', hend'⟩ := advance_of_tokens h.ending' hx' (hkind ▸ hne)
  have hhalted : s.advance.halted = s.halted := by simp [halted]
  constructor
  case tokens => rwa [hl, hl', hhalted]
  case ending => simpa using h.ending
  case ending' => simpa using h.ending'
  case lastEnd =>
    have hstruct : x.isStructural = x'.isStructural := by
      rw [Token.isStructural, hkind, Token.isStructural]
    rw [hend, hend', ← hstruct]
    cases hx : x.isStructural with
    | true => exact h.lastEnd
    | false => rw [hsame hx]; rfl
  case cap => simpa using h.cap
  case problems => simpa using h.problems
  case previous => exact .inl (by rw [hprevious, hprevious', hkind])
  case captured => exact fun hst => ⟨x.kind, hprevious, hcaptured hst⟩

theorem advance_word (h : s.Reflowed Moved st d s') (hk : s.kind.isStructural = false) :
    s.advance.Reflowed Moved (st.pass s.kind) d s'.advance := by
  obtain ⟨e, l, l', hl, hl', htokens, hlevel⟩ := h.exists_tokens
  obtain ⟨heq, -, hlater⟩ := htokens.word_cases hk
  exact h.step hl hl' (congrArg _ heq) (TokenKind.ne_of_isStructural hk rfl) (fun _ => heq)
    ⟨e, hlater, hlevel⟩ fun _ => hk

/-- Both parses pass a layout token, which may change the level they stand at. -/
theorem advance_layout (h : s.Reflowed Moved st d s') {k : TokenKind} (hk : s.kind = k)
    (hk' : s'.kind = k) (hlayout : k.isStructural = true) (hne : k ≠ .eof) (hst : st' ≠ .captured)
    (hlater : ∀ {e l l'}, Token.Reflowed Moved st e (s.current :: l) (s'.current :: l') →
      ∃ e', Token.Reflowed Moved st' e' l l' ∧ (e = d → e' = d')) :
    s.advance.Reflowed Moved st' d' s'.advance := by
  obtain ⟨e, l, l', hl, hl', htokens, hlevel⟩ := h.exists_tokens
  obtain ⟨e', hafter, hlevel'⟩ := hlater htokens
  have hkind : s.current.kind = k := hk
  refine h.step hl hl' (hkind.trans hk'.symm) (hkind ▸ hne) (fun hword => ?_)
    ⟨e', hafter, fun hs => hlevel' (hlevel hs)⟩ (absurd · hst)
  exact absurd hkind (TokenKind.ne_of_isStructural hword hlayout)

theorem advance_newline (h : s.Reflowed Moved st d s') (hk : s.kind = .newline)
    (hk' : s'.kind = .newline) : s.advance.Reflowed Moved .between d s'.advance :=
  h.advance_layout hk hk' rfl (by decide) (by decide) fun htokens =>
    ⟨_, htokens.newline_cases hk hk', id⟩

theorem advance_indent (h : s.Reflowed Moved st d s') (hk : s.kind = .indent) :
    s.advance.Reflowed Moved .opened (d + 1) s'.advance := by
  refine h.advance_layout hk ((h.kind_iff (.inr rfl)).mp hk) rfl (by decide) (by decide) ?_
  intro e l l' htokens
  exact ⟨e + 1, (htokens.indent_cases hk).2.2, congrArg _⟩

theorem advance_dedent (h : s.Reflowed Moved st d s') (hk : s.kind = .dedent)
    (hk' : s'.kind = .dedent) : s.advance.Reflowed Moved .between (d - 1) s'.advance := by
  refine h.advance_layout hk hk' rfl (by decide) (by decide) ?_
  intro e l l' htokens
  obtain ⟨e, rfl, hlater⟩ := htokens.dedent_cases hk hk'
  exact ⟨e, hlater, fun hlevel => by rw [← hlevel, Nat.add_sub_cancel]⟩

/-- Behind the last line each parse may pass what stands there by itself. -/
theorem close (h : s.Reflowed Moved st d s') (ht : s.Closes e t) (ht' : s'.Closes e t')
    (hlevel : s.halted = false → e = d') : t.Reflowed Moved .between d' t' := by
  obtain ⟨x, l, hl⟩ := ht.tokens.exists_cons
  obtain ⟨x', l', hl'⟩ := ht'.tokens.exists_cons
  have hhalted : t.halted = s.halted := by rw [halted, halted, ht.cap, ht.problems]
  constructor
  case tokens =>
    rw [hhalted]
    refine ⟨e, ?_, hlevel⟩
    rw [hl, hl']
    exact .closing rfl trivial (hl ▸ ht.tokens) (hl' ▸ ht'.tokens)
  case ending => rw [ht.ending, h.ending]
  case ending' => rw [ht'.ending, h.ending']
  case lastEnd => rw [ht.lastEnd, ht'.lastEnd, h.lastEnd]
  case cap => rw [ht.cap, ht'.cap, h.cap]
  case problems => rw [ht.problems, ht'.problems]; exact h.problems
  case previous => exact .inr ⟨e, ht.tokens, ht'.tokens⟩
  case captured => exact Stance.noConfusion

end Reflowed

/-- What comes next in two parses. -/
inductive Next (Moved : Position → Position → Prop) (st : Stance) (d : Nat) (s s' : ParserState) :
    Prop
  | word (hk : s.kind.isStructural = false)
  | newline (hk : s.kind = .newline) (hk' : s'.kind = .newline)
  | indent (hk : s.kind = .indent)
  | dedent (hst : st ≠ .captured) (hk : s.kind = .dedent) (hk' : s'.kind = .dedent)
  | closing {e : Nat} (hst : st ≠ .captured) (closes : Closing e s.tokens)
      (closes' : Closing e s'.tokens) (level : s.halted = false → e = d)

theorem Reflowed.next (h : s.Reflowed Moved st d s') : Next Moved st d s s' := by
  have hne (hst : st.endsLine = true) : st ≠ .captured := by
    rintro rfl
    exact nomatch hst
  obtain ⟨e, htokens, hlevel⟩ := h.tokens
  generalize hl : s.tokens = l at htokens
  generalize hl' : s'.tokens = l' at htokens
  cases htokens with
  | word inLine => exact .word (kind_of_tokens hl ▸ inLine)
  | newline ends ends' =>
    exact .newline ((kind_of_tokens hl).trans ends.kind_eq)
      ((kind_of_tokens hl').trans ends'.kind_eq)
  | indent opens => exact .indent ((kind_of_tokens hl).trans opens.kind_eq)
  | dedent hst closes closes' =>
    exact .dedent (hne hst) ((kind_of_tokens hl).trans closes) ((kind_of_tokens hl').trans closes')
  | closing hst _ closes closes' => exact .closing (hne hst) (hl ▸ closes) (hl' ▸ closes') hlevel

namespace Closes

theorem refl (h : Closing d s.tokens) : s.Closes d s := ⟨h, rfl, rfl, rfl, rfl⟩

theorem advance (he : s.ending.kind = .eof) (hx : s.tokens = x :: l) (hne : x.kind ≠ .eof)
    (hstruct : x.isStructural = true) (h : Closing d l) : s.Closes d s.advance := by
  obtain ⟨hl, -, hend⟩ := advance_of_tokens he hx hne
  refine ⟨hl ▸ h, by simp, ?_, by simp, by simp⟩
  rw [hend, if_pos hstruct]

theorem trans (h : s.Closes d t) (h' : t.Closes e t') : s.Closes e t' :=
  ⟨h'.tokens, h'.ending.trans h.ending, h'.lastEnd.trans h.lastEnd,
    h'.problems.trans h.problems, h'.cap.trans h.cap⟩

theorem advance_newline (he : s.ending.kind = .eof) (hk : s.kind = .newline)
    (h : Closing d s.tokens) : s.Closes d s.advance := by
  obtain ⟨l, hl⟩ := s.exists_tokens
  rw [hl] at h
  have hstruct : s.current.isStructural = true := h.isStructural
  cases h with
  | ended ends => cases hk.symm.trans ends
  | newline empty later =>
    exact .advance he hl (fun h => TokenKind.noConfusion (hk.symm.trans h)) hstruct later
  | dedent closes => cases hk.symm.trans closes

theorem advance_dedent (he : s.ending.kind = .eof) (hk : s.kind = .dedent)
    (h : Closing d s.tokens) : ∃ e, d = e + 1 ∧ s.Closes e s.advance := by
  obtain ⟨l, hl⟩ := s.exists_tokens
  rw [hl] at h
  have hstruct : s.current.isStructural = true := h.isStructural
  cases h with
  | ended ends => cases hk.symm.trans ends
  | newline empty => cases hk.symm.trans empty
  | dedent closes later =>
    exact ⟨_, rfl,
      .advance he hl (fun h => TokenKind.noConfusion (hk.symm.trans h)) hstruct later⟩

end Closes

/-- Behind the last line an empty line, the end of a block or the end of input comes next. -/
theorem kind_of_closing (h : Closing d s.tokens) :
    s.kind = .newline ∨ s.kind = .dedent ∨ s.kind = .eof ∧ d = 0 := by
  obtain ⟨l, hl⟩ := s.exists_tokens
  rw [hl] at h
  cases h with
  | ended ends => exact .inr (.inr ⟨ends, rfl⟩)
  | newline empty => exact .inl empty
  | dedent closes => exact .inr (.inl closes)

theorem kind_skipNewlines {fuel : Nat} (he : s.ending.kind = .eof) (h : s.remaining ≤ fuel) :
    (skipNewlines fuel s).kind ≠ .newline := by
  induction fuel generalizing s with
  | zero =>
    have hrest : s.rest = [] := List.eq_nil_of_length_eq_zero (Nat.le_zero.mp h)
    have hkind : s.kind = .eof := by simp [kind, current, ahead, hrest, he]
    simp [skipNewlines, hkind]
  | succ fuel ih =>
    unfold skipNewlines
    split_ifs with hk
    · refine ih (by simpa using he) ?_
      rw [advance_remaining]
      omega
    · simpa using hk

theorem Closes.skipNewlines (he : s.ending.kind = .eof) (h : Closing d s.tokens) (fuel : Nat) :
    s.Closes d (skipNewlines fuel s) := by
  induction fuel generalizing s with
  | zero => exact .refl h
  | succ fuel ih =>
    unfold ParserState.skipNewlines
    split_ifs with hk
    · have hnext := Closes.advance_newline he (by simpa using hk) h
      exact hnext.trans (ih (by simpa using he) hnext.tokens)
    · exact .refl h

theorem Closes.skipLevels {fuel : Nat} (he : s.ending.kind = .eof) (h : Closing d s.tokens)
    (n : Nat) (hfuel : s.remaining ≤ fuel) : s.Closes (d - n) (skipLevels fuel n s) := by
  induction fuel generalizing n d s with
  | zero =>
    have hrest : s.rest = [] := List.eq_nil_of_length_eq_zero (Nat.le_zero.mp hfuel)
    have hkind : s.kind = .eof := by simp [kind, current, ahead, hrest, he]
    obtain hk | hk | ⟨-, rfl⟩ := kind_of_closing h
    · cases hkind.symm.trans hk
    · cases hkind.symm.trans hk
    · rw [Nat.zero_sub]
      cases n <;> exact .refl h
  | succ fuel ih =>
    have hremaining : s.advance.remaining ≤ fuel := by
      rw [advance_remaining]
      omega
    cases n with
    | zero => exact .refl h
    | succ n =>
      obtain hk | hk | ⟨hk, rfl⟩ := kind_of_closing h
      · have hnext := Closes.advance_newline he hk h
        rw [skipLevels_succ he (by simp [hk]), hk]
        exact hnext.trans (ih (by simpa using he) hnext.tokens _ hremaining)
      · obtain ⟨e, rfl, hnext⟩ := Closes.advance_dedent he hk h
        rw [skipLevels_succ he (by simp [hk]), hk, Nat.add_sub_add_right]
        exact hnext.trans (ih (by simpa using he) hnext.tokens _ hremaining)
      · have hend : s.atEnd = true := by simp [atEnd, hk]
        rw [ParserState.skipLevels, if_pos hend, Nat.zero_sub]
        exact .refl h

theorem Closes.skipLine (he : s.ending.kind = .eof) (h : Closing d s.tokens) (moved : Bool)
    (fuel : Nat) : s.Closes d (skipLine moved fuel s) := by
  cases fuel with
  | zero => exact .refl h
  | succ fuel =>
    obtain hk | hk | ⟨hk, -⟩ := kind_of_closing h
    · have hnext := Closes.advance_newline he hk h
      have hkind : ¬s.advance.kind = .indent := by
        obtain hk | hk | ⟨hk, -⟩ := kind_of_closing hnext.tokens <;> simp [hk]
      rw [ParserState.skipLine, hk]
      change s.Closes d s.advance.skipBlock
      rw [skipBlock, if_neg (by simpa using hkind)]
      exact hnext
    · rw [ParserState.skipLine, hk]
      exact .refl h
    · rw [ParserState.skipLine, hk]
      exact .refl h

namespace Reflowed

/-- Both parses skip as many levels, and behind them both stand between lines. -/
theorem skipLevels {fuel fuel' n : Nat} (h : s.Reflowed Moved st d s')
    (hst : n = 0 → st ≠ .captured) (hfuel : s.remaining ≤ fuel) (hfuel' : s'.remaining ≤ fuel') :
    (skipLevels fuel n s).Reflowed Moved .between (d - n) (skipLevels fuel' n s') := by
  induction hremaining : s.remaining using Nat.strong_induction_on
    generalizing fuel fuel' n d st s s' with
  | _ remaining ih =>
  subst hremaining
  cases n with
  | zero => cases fuel <;> cases fuel' <;> exact h.weaken (hst rfl)
  | succ n =>
  -- One token of each is passed; the levels that are left behind it are the same.
  have hstep (n' : Nat) {d' : Nat} {st' : Stance} (hne : s.kind ≠ .eof) (hne' : s'.kind ≠ .eof)
      (hnext : s.advance.Reflowed Moved st' d' s'.advance) (hst' : n' = 0 → st' ≠ .captured)
      (hlevel : d' - n' = d - (n + 1)) (hleft : levelsBehind n s.kind = n')
      (hright : levelsBehind n s'.kind = n') :
      (ParserState.skipLevels fuel (n + 1) s).Reflowed Moved .between (d - (n + 1))
        (ParserState.skipLevels fuel' (n + 1) s') := by
    have hlt := advance_remaining_lt (atEnd_of_ne h.ending hne)
    have hlt' := advance_remaining_lt (atEnd_of_ne h.ending' hne')
    obtain ⟨m, rfl⟩ :=
      Nat.exists_eq_succ_of_ne_zero (Nat.ne_zero_of_lt (Nat.lt_of_lt_of_le hlt hfuel))
    obtain ⟨m', rfl⟩ :=
      Nat.exists_eq_succ_of_ne_zero (Nat.ne_zero_of_lt (Nat.lt_of_lt_of_le hlt' hfuel'))
    rw [skipLevels_succ h.ending hne, skipLevels_succ h.ending' hne', hleft, hright, ← hlevel]
    exact ih _ hlt hnext hst' (by omega) (by omega) rfl
  cases h.next with
  | word hk =>
    have hk' : s'.kind.isStructural = false := by rwa [kind, ← h.current_eq hk]
    have hlevels {k : TokenKind} (hk : k.isStructural = false) : levelsBehind n k = n + 1 :=
      levelsBehind_of_ne (TokenKind.ne_of_isStructural hk rfl) (TokenKind.ne_of_isStructural hk rfl)
    exact hstep (n + 1) (TokenKind.ne_of_isStructural hk rfl) (TokenKind.ne_of_isStructural hk' rfl)
      (h.advance_word hk) (absurd · n.succ_ne_zero) rfl (hlevels hk) (hlevels hk')
  | newline hk hk' =>
    exact hstep (n + 1) (by simp [hk]) (by simp [hk']) (h.advance_newline hk hk')
      (fun _ => Stance.noConfusion) rfl (by rw [hk]; rfl) (by rw [hk']; rfl)
  | indent hk =>
    have hk' : s'.kind = .indent := (h.kind_iff (.inr rfl)).mp hk
    exact hstep (n + 2) (by simp [hk]) (by simp [hk']) (h.advance_indent hk)
      (fun _ => Stance.noConfusion) (Nat.add_sub_add_right _ _ _) (by rw [hk]; rfl)
      (by rw [hk']; rfl)
  | dedent hst hk hk' =>
    exact hstep n (by simp [hk]) (by simp [hk']) (h.advance_dedent hk hk')
      (fun _ => Stance.noConfusion) (by omega) (by rw [hk]; rfl) (by rw [hk']; rfl)
  | closing hst closes closes' level =>
    exact h.close (.skipLevels h.ending closes _ hfuel) (.skipLevels h.ending' closes' _ hfuel')
      fun hs => by rw [level hs]

theorem skipBlock (h : s.Reflowed Moved st d s') (hst : st = .captured → s.kind = .indent) :
    s.skipBlock.Reflowed Moved .between d s'.skipBlock := by
  unfold ParserState.skipBlock
  by_cases hk : s.kind = .indent
  · have hk' : s'.kind = .indent := (h.kind_iff (.inr rfl)).mp hk
    rw [if_pos (by simpa using hk), if_pos (by simpa using hk')]
    refine (h.advance_indent hk).skipLevels (n := 1) nofun ?_ ?_
    · rw [advance_remaining]
      exact Nat.sub_le _ _
    · rw [advance_remaining]
      exact Nat.sub_le _ _
  · have hk' : ¬s'.kind = .indent := fun hk' => hk ((h.kind_iff (.inr rfl)).mpr hk')
    rw [if_neg (by simpa using hk), if_neg (by simpa using hk')]
    exact h.weaken fun hc => hk (hst hc)

theorem atLineStart_eq (h : s.Reflowed Moved st d s') (hk : s.kind.isStructural = false) :
    s.atLineStart = s'.atLineStart := by
  unfold atLineStart
  rw [h.previous_eq (.inl hk)]

/-- Where a line begins nothing is captured. -/
theorem ne_captured (h : s.Reflowed Moved st d s') (hstart : s.atLineStart = true) :
    st ≠ .captured := by
  intro hst
  obtain ⟨k, hprevious, hk⟩ := h.captured hst
  unfold atLineStart at hstart
  rw [hprevious] at hstart
  cases k <;> simp_all [TokenKind.isStructural]

/-- Both parses skip the rest of a line with the block below it. -/
theorem skipLine {fuel fuel' : Nat} (h : s.Reflowed Moved st d s') (moved : Bool)
    (hfuel : s.remaining < fuel) (hfuel' : s'.remaining < fuel') :
    (skipLine moved fuel s).Reflowed Moved .between d (skipLine moved fuel' s') := by
  induction fuel generalizing fuel' moved st s s' with
  | zero => exact absurd hfuel (Nat.not_lt_zero _)
  | succ fuel ih =>
    obtain ⟨fuel', rfl⟩ := Nat.exists_eq_succ_of_ne_zero (Nat.ne_zero_of_lt hfuel')
    cases h.next with
    | word hk =>
      have heq : s.kind = s'.kind := by rw [kind, kind, h.current_eq hk]
      have hne : s.kind ≠ .eof := TokenKind.ne_of_isStructural hk rfl
      have hword {s : ParserState} {fuel : Nat} (hk : s.kind.isStructural = false) :
          ParserState.skipLine moved (fuel + 1) s =
            if s.kind.isSectionKeyword && s.atLineStart && moved then s
            else ParserState.skipLine true fuel s.advance := by
        rw [ParserState.skipLine]
        split <;> simp_all [TokenKind.isStructural]
      rw [hword hk, hword (heq ▸ hk), ← heq, ← h.atLineStart_eq hk]
      split_ifs with hstop
      · exact h.weaken (h.ne_captured (by simp_all))
      · have hlt := advance_remaining_lt (atEnd_of_ne h.ending hne)
        have hlt' := advance_remaining_lt (atEnd_of_ne h.ending' (heq ▸ hne))
        exact ih (h.advance_word hk) true (by omega) (by omega)
    | newline hk hk' =>
      rw [ParserState.skipLine, ParserState.skipLine, hk, hk']
      exact (h.advance_newline hk hk').skipBlock Stance.noConfusion
    | indent hk =>
      have hk' : s'.kind = .indent := (h.kind_iff (.inr rfl)).mp hk
      rw [ParserState.skipLine, ParserState.skipLine, hk, hk']
      exact h.skipBlock fun _ => hk
    | dedent hst hk hk' =>
      rw [ParserState.skipLine, ParserState.skipLine, hk, hk']
      exact h.weaken hst
    | closing hst closes closes' level =>
      exact h.close (.skipLine h.ending closes _ _) (.skipLine h.ending' closes' _ _) level

theorem recover (h : s.Reflowed Moved st d s') {p p' : ParseProblem} (hp : p.Alike Moved p') :
    (s.recover p).Reflowed Moved .between d (s'.recover p') :=
  (h.report hp).skipLine false (Nat.lt_succ_self _) (Nat.lt_succ_self _)

end Reflowed

end ParserState

end AgentScript
