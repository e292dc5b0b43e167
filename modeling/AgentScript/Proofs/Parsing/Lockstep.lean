import AgentScript.Proofs.Parsing.Bodies
import AgentScript.Proofs.Parsing.Bounds

/-!
# Two parses of the same lines

A line either is passed with the block below it, or fails while it is being read. In two
parses that share the line both happen alike, and from a failure both recover at the same
token. So two parses that share a body of lines gather the same from it and find the same
problems in it, whatever stands behind the body.
-/
namespace AgentScript

/-- A line that two parses share with all that is below it. -/
structure WholeLine extends SharedLine where
  ends : fence.IsMark .newline
  isBelow : IsBelow below
  clear : frame.Clear

theorem Token.IsMark.isStructural_eq {k : TokenKind} {t : Token} (h : t.IsMark k) :
    t.isStructural = k.isStructural := by
  rw [Token.isStructural, h.kind_eq]

/-- The second state is the first, or the first with the end of a line passed. -/
def ParserState.Drops (s t : ParserState) : Prop := t = s ∨ s.kind = .newline ∧ t = s.advance

namespace WholeLine

variable {L : WholeLine} {b : Footing} {K : ParserState → Prop} {s s' t t' : ParserState}

/-- Both parses are still on the line. -/
def On (b : Footing) (K : ParserState → Prop) (L : WholeLine) (s s' : ParserState) : Prop :=
  L.Within b s s' ∧ K s

/-- Both parses have just passed the end of the line. -/
structure Behind (L : WholeLine) (s s' : ParserState) : Prop where
  alike : L.frame.Alike .text L.below s s'
  left : s.previous = some .newline
  right : s'.previous = some .newline

/-- Both parses have passed the block below the line too, or the line if there is none. -/
structure Beyond (L : WholeLine) (s s' : ParserState) : Prop where
  alike : L.frame.Alike .text [] s s'
  left : s.previous = some .newline ∨ s.previous = some .dedent
  right : s'.previous = some .newline ∨ s'.previous = some .dedent

/-- Both parses have passed the line, and perhaps the block below it with a line end more. -/
inductive Passed (L : WholeLine) (s s' : ParserState) : Prop
  | behind (h : L.Behind s s')
  | beyond {u u' : ParserState} (h : L.frame.Alike .text [] u u') (left : u.Drops s)
      (right : u'.Drops s')

theorem Beyond.passed (h : L.Beyond s s') : L.Passed s s' := .beyond h.alike (.inl rfl) (.inl rfl)

/-- What a parser does in two parses of a line: it succeeds in both with the same result, or it
fails in both on the line with the same problem. -/
inductive Outcome {α : Type} (L : WholeLine) (b : Footing) (Q : ParserState → ParserState → Prop) :
    EStateM.Result ParseProblem ParserState α → EStateM.Result ParseProblem ParserState α → Prop
  | ok {t t' : ParserState} (a : α) (after : Q t t') : Outcome L b Q (.ok a t) (.ok a t')
  | error {t t' : ParserState} (e : ParseProblem) (within : L.Within b t t') :
      Outcome L b Q (.error e t) (.error e t')

end WholeLine

open WholeLine

namespace Parser

variable {α β : Type} {b c : Footing} {K : ParserState → Prop}
  {P Q R : WholeLine → ParserState → ParserState → Prop}

/-- From states as before, the parser does the same in two parses of a line and leaves states
as after. -/
def Steps (b : Footing) (P Q : WholeLine → ParserState → ParserState → Prop)
    (p : Parser α) : Prop :=
  ∀ ⦃L : WholeLine⦄ ⦃s s' : ParserState⦄, P L s s' → L.Outcome b (Q L) (p s) (p s')

theorem Steps.mono {P' Q' : WholeLine → ParserState → ParserState → Prop} {p : Parser α}
    (h : Steps b P Q p) (hP : ∀ L s s', P' L s s' → P L s s')
    (hQ : ∀ L s s', Q L s s' → Q' L s s') : Steps b P' Q' p := by
  intro L s s' hs
  have hp := h (hP L s s' hs)
  generalize p s = left at hp ⊢
  generalize p s' = right at hp ⊢
  cases hp with
  | ok a after => exact .ok a (hQ L _ _ after)
  | error e within => exact .error e within

theorem Steps.bind {p : Parser α} {f : α → Parser β} (h : Steps b P Q p)
    (h' : ∀ a, Steps b Q R (f a)) : Steps b P R (p >>= f) := by
  intro L s s' hs
  have hp := h hs
  generalize hleft : p s = left at hp
  generalize hright : p s' = right at hp
  cases hp with
  | ok a after =>
    rw [bind_of_ok f hleft, bind_of_ok f hright]
    exact h' a after
  | error e within =>
    rw [bind_of_error f hleft, bind_of_error f hright]
    exact .error e within

theorem steps_pure (a : α) : Steps b P P (pure a) := fun _ _ _ hs => .ok a hs

/-- A parser for the words of a line stays on it. -/
theorem Agrees.steps {p : Parser α} {b' : Footing} (h : Agrees K c b' p) (hb : b ≤ c) :
    Steps b (On c K) (On b' fun _ => True) p := by
  intro L s s' hs
  have hp := h hs.1 hs.2
  generalize p s = left at hp ⊢
  generalize p s' = right at hp ⊢
  cases hp with
  | ok a _ shared => exact .ok a ⟨shared, trivial⟩
  | error e shared => exact .error e (shared.weaken hb)

theorem Agrees.thenSteps {p : Parser α} {f : α → Parser β} {b' : Footing} (h : Agrees K c b' p)
    (hb : b ≤ c) (h' : ∀ a, Steps b (On b' fun _ => True) R (f a)) : Steps b (On c K) R (p >>= f) :=
  (h.steps hb).bind h'

/-- What is known of the result may be used behind the parser. -/
theorem Agrees.thenStepsWith {p : Parser α} {f : α → Parser β} {b' : Footing} {J : α → Prop}
    (h : Agrees K c b' p) (hb : b ≤ c) (hJ : ∀ s a t, p s = .ok a t → J a)
    (h' : ∀ a, J a → Steps b (On b' fun _ => True) R (f a)) : Steps b (On c K) R (p >>= f) := by
  intro L s s' hs
  have hp := (h.steps hb) hs
  generalize hleft : p s = left at hp
  generalize hright : p s' = right at hp
  cases hp with
  | ok a after =>
    rw [bind_of_ok f hleft, bind_of_ok f hright]
    exact h' a (hJ s a _ hleft) after
  | error e within =>
    rw [bind_of_error f hleft, bind_of_error f hright]
    exact .error e within

theorem Steps.restrict {K' : ParserState → Prop} {p : Parser α} (h : Steps b (On c K) Q p)
    (hK : ∀ s, K' s → K s) : Steps b (On c K') Q p :=
  h.mono (fun _ _ _ hs => ⟨hs.1, hK _ hs.2⟩) fun _ _ _ hs => hs

/-- More may have been passed in common. -/
theorem Steps.tighten {c' : Footing} {p : Parser α} (h : Steps b (On c K) Q p) (hc : c ≤ c') :
    Steps b (On c' K) Q p :=
  h.mono (fun _ _ _ hs => ⟨hs.1.weaken hc, hs.2⟩) fun _ _ _ hs => hs

theorem steps_failHere (hb : b ≤ c) (cause : Token → ParseCause) :
    Steps b (On c K) Q (failHere cause : Parser α) := by
  intro L s s' hs
  unfold failHere
  rw [hs.1.current_eq]
  exact .error _ (hs.1.weaken hb)

theorem steps_unexpected (hb : b ≤ c) (what : String) :
    Steps b (On c K) Q (unexpected what : Parser α) :=
  steps_failHere hb _

theorem steps_kind_bind {f : TokenKind → Parser β}
    (h : ∀ k, Steps b (On c fun s => s.kind = k ∧ K s) Q (f k)) :
    Steps b (On c K) Q (kind >>= f) := by
  intro L s s' hs
  have heq : (kind >>= f) s' = f s.kind s' := by
    rw [hs.1.kind_eq]
    rfl
  rw [heq]
  exact h s.kind ⟨hs.1, rfl, hs.2⟩

theorem steps_peek_bind {f : Token → Parser β}
    (h : ∀ t, Steps b (On c fun s => s.current = t ∧ K s) Q (f t)) :
    Steps b (On c K) Q (peek >>= f) := by
  intro L s s' hs
  have heq : (peek >>= f) s' = f s.current s' := by
    rw [hs.1.current_eq]
    rfl
  rw [heq]
  exact h s.current ⟨hs.1, rfl, hs.2⟩

theorem steps_check_bind {k : TokenKind} {yes no : Parser β}
    (hyes : Steps b (On c fun s => s.kind = k ∧ K s) Q yes) (hno : Steps b (On c K) Q no) :
    Steps b (On c K) Q (check k >>= fun c => if c = true then yes else no) := by
  intro L s s' hs
  rw [check_bind_apply, check_bind_apply, ← hs.1.kind_eq]
  split_ifs with hc
  · exact hyes ⟨hs.1, hc, hs.2⟩
  · exact hno hs

/-- A look at two tokens of the line, of which the first has to be a word. -/
theorem steps_look_bind {g : ParserState → Bool} {yes no : Parser β}
    (hword : ∀ s, g s = true → s.kind.isStructural = false)
    (hsame : ∀ s s' : ParserState, s.current = s'.current → s.ahead 1 = s'.ahead 1 → g s = g s')
    (hyes : Steps b (On c fun s => g s = true ∧ K s) Q yes) (hno : Steps b (On c K) Q no) :
    Steps b (On c K) Q (look g >>= fun c => if c = true then yes else no) := by
  intro L s s' hs
  rw [look_bind_apply, look_bind_apply, ← hs.1.look_eq hword hsame]
  split_ifs with hc
  · exact hyes ⟨hs.1, hc, hs.2⟩
  · exact hno hs

/-- Passing a word, when something is known of the tokens behind it. -/
theorem steps_advance_bind {J : ParserState → Prop} {f : Token → Parser β}
    (hword : ∀ s, K s → s.kind.isStructural = false) (hnext : ∀ s, K s → J s.advance)
    (h : ∀ t, Steps b (On .word J) Q (f t)) : Steps b (On c K) Q (advance >>= f) := by
  intro L s s' hs
  have heq : (advance >>= f) s' = f s.current s'.advance := by
    rw [hs.1.current_eq]
    rfl
  rw [heq]
  exact h s.current ⟨hs.1.advance (hword s hs.2), hnext s hs.2⟩

/-- Passing a word and the colon behind it. -/
theorem steps_advance_colon {p : Parser β} (hword : ∀ s, K s → s.kind.isStructural = false)
    (hcolon : ∀ s, K s → (s.ahead 1).kind = .colon)
    (h : Steps b (On .word fun _ => True) Q p) :
    Steps b (On c K) Q (advance >>= fun _ => advance >>= fun _ => p) := by
  apply steps_advance_bind (J := fun s => s.kind = .colon) hword
  · exact fun s hs => s.kind_advance.trans (hcolon s hs)
  · intro _
    apply steps_advance_bind (J := fun _ => True)
    · exact fun s hs => by rw [hs]; rfl
    · exact fun _ _ => trivial
    · exact fun _ => h

/-- A location can be told once both parses have passed the same text. -/
theorem steps_spanFrom (start : Position) (h : ∀ L s s', P L s s' → s.lastEnd = s'.lastEnd) :
    Steps b P P (spanFrom start) := by
  intro L s s' hs
  unfold spanFrom ParserState.spanFrom
  rw [h L s s' hs]
  exact .ok _ hs

theorem finishLine_of_newline {s : ParserState} (hk : s.kind = .newline) :
    finishLine s = .ok () s.advance := by
  unfold finishLine
  rw [if_pos (by simpa using hk)]

theorem finishLine_of_word {s : ParserState} (hk : s.kind.isStructural = false)
    (hprevious : ∃ k, s.previous = some k ∧ k.isStructural = false) :
    finishLine s = unexpected "end of line" s := by
  have hne {k l : TokenKind} (hk : k.isStructural = false) (hl : l.isStructural = true) :
      (k == l) = false := beq_eq_false_iff_ne.mpr (TokenKind.ne_of_isStructural hk hl)
  obtain ⟨k, hprev, hkind⟩ := hprevious
  have hsome {l : TokenKind} (hl : l.isStructural = true) : (s.previous == some l) = false := by
    rw [hprev]
    exact hne hkind hl
  unfold finishLine
  rw [hne hk rfl, hne hk rfl, hne hk rfl, hsome rfl, hsome rfl]
  rfl

/-- Behind a block a line has ended, whatever comes next. -/
theorem finishLine_of_ended {s : ParserState}
    (h : s.previous = some .newline ∨ s.previous = some .dedent) :
    ∃ t, finishLine s = .ok () t ∧ s.Drops t := by
  unfold finishLine
  by_cases hk : s.kind = .newline
  · exact ⟨s.advance, by rw [if_pos (by simpa using hk)], .inr ⟨hk, rfl⟩⟩
  · rw [if_neg (by simpa using hk)]
    refine ⟨s, ?_, .inl rfl⟩
    split_ifs with hend hprevious
    · rfl
    · rfl
    · rcases h with h | h
      · simp [h] at hprevious
      · simp [h] at hprevious

theorem steps_finishLine : Steps b (On .word K) Behind finishLine := by
  rintro L s s' ⟨⟨words, hwords, halike⟩, -⟩
  cases words with
  | nil =>
    have hkind := (ParserState.kind_of_tokens halike.left).trans L.ends.kind_eq
    have hkind' := (ParserState.kind_of_tokens halike.right).trans L.ends.kind_eq
    have hne : L.fence.kind ≠ .eof := L.ends.ne_eof (by decide)
    have hprevious := (ParserState.advance_of_tokens halike.leftEnding halike.left hne).2.1
    have hprevious' := (ParserState.advance_of_tokens halike.rightEnding halike.right hne).2.1
    rw [finishLine_of_newline hkind, finishLine_of_newline hkind']
    refine .ok () ⟨?_, ?_, ?_⟩
    · exact (halike.weaken (Footing.le_word _)).advance_layout L.isStructural hne
        (Footing.le_refl _)
    · rw [hprevious, L.ends.kind_eq]
    · rw [hprevious', L.ends.kind_eq]
  | cons x words =>
    have hx := hwords x (List.mem_cons_self ..)
    have hkind : s.kind.isStructural = false := by rwa [ParserState.kind_of_tokens halike.left]
    have hkind' : s'.kind.isStructural = false := by rwa [ParserState.kind_of_tokens halike.right]
    obtain ⟨hsame, hprevious⟩ := halike.word (Footing.le_refl _)
    have hwithin : L.Within .word s s' := ⟨x :: words, hwords, halike⟩
    rw [finishLine_of_word hkind hprevious, finishLine_of_word hkind' (hsame ▸ hprevious)]
    exact steps_unexpected (K := fun _ => True) (Footing.le_word b) _ ⟨hwithin, trivial⟩

/-- The end of a line behind a value, which may have been a block. -/
theorem steps_finishLine_behindValue :
    Steps b (fun L s s' => On .word (fun _ => True) L s s' ∨ L.Beyond s s') Passed finishLine := by
  rintro L s s' (hs | hs)
  · exact (steps_finishLine.mono (fun _ _ _ h => h) fun _ _ _ h => .behind h) hs
  · obtain ⟨t, ht, hdrops⟩ := finishLine_of_ended hs.left
    obtain ⟨t', ht', hdrops'⟩ := finishLine_of_ended hs.right
    rw [ht, ht']
    exact .ok () (.beyond hs.alike hdrops hdrops')

/-- A line that ends behind its last word. -/
theorem steps_finish (a : α) : Steps b (On .word K) Passed (finishLine >>= fun _ => pure a) :=
  (steps_finishLine.bind fun _ => steps_pure a).mono (fun _ _ _ h => h) fun _ _ _ h => .behind h

theorem Steps.passed {P : WholeLine → ParserState → ParserState → Prop} {p : Parser α}
    (h : Steps b P Beyond p) : Steps b P Passed p :=
  h.mono (fun _ _ _ h => h) fun _ _ _ h => h.passed

end Parser

namespace LineParser

variable {α β : Type} {b : Footing} {K : ParserState → Prop} {G : α → α → Prop}

/-- What a line leaves behind in two parses: both have passed it, or it has failed in both. What
they have gathered stays related. -/
inductive Outcome (L : WholeLine) (b : Footing) (G : α → α → Prop) :
    LineResult α → LineResult α → Prop
  | done {a a' : α} {t t' : ParserState} (gathered : G a a') (passed : L.Passed t t') :
      Outcome L b G ⟨a, none, t⟩ ⟨a', none, t'⟩
  | failed {a a' : α} {t t' : ParserState} (gathered : G a a') (p : ParseProblem)
      (within : L.Within b t t') : Outcome L b G ⟨a, some p, t⟩ ⟨a', some p, t'⟩

/-- The line ends alike in all parses that share it, if it begins with a word and the condition
holds there. -/
def Completes (K : ParserState → Prop) (G : α → α → Prop) (line : LineParser α) : Prop :=
  ∀ ⦃L : WholeLine⦄ ⦃b : Footing⦄ ⦃s s' : ParserState⦄ ⦃g g' : α⦄, b ≤ .text → L.Within b s s' →
    s.kind.isStructural = false → K s → G g g' → Outcome L b G (line g s) (line g' s')

/-- The line fails at the beginning of a block, of which it passes nothing. -/
def Refuses (line : LineParser α) : Prop :=
  ∀ t : Token, t.IsMark .indent → ∃ p, ∀ g s, s.current = t → line g s = ⟨g, some p, s⟩

end LineParser

namespace Parser

variable {α β : Type} {b : Footing}

/-- A parser for a whole line that begins with a word where the condition holds. -/
def Completes (K : ParserState → Prop) (p : Parser α) : Prop :=
  ∀ b ≤ Footing.text, Steps b (On b fun s => s.kind.isStructural = false ∧ K s) Passed p

/-- A parser fails at the beginning of a block. -/
def Refuses (p : Parser α) : Prop :=
  ∀ t : Token, t.IsMark .indent → ∃ e, ∀ s : ParserState, s.current = t → p s = .error e s

end Parser

namespace LineParser

variable {α β : Type} {b : Footing} {K : ParserState → Prop} {G : α → α → Prop}
  {line line' : LineParser α} {g : ParserState → Bool}

theorem Completes.of_iff {G' : α → α → Prop} (hG : ∀ a a', G a a' ↔ G' a a')
    (h : line.Completes K G) : line.Completes K G' := by
  intro L b s s' a a' hb hs hword hK hgathered
  have hline := h hb hs hword hK ((hG a a').mpr hgathered)
  generalize line a s = left at hline ⊢
  generalize line a' s' = right at hline ⊢
  cases hline with
  | done gathered passed => exact .done ((hG _ _).mp gathered) passed
  | failed gathered p within => exact .failed ((hG _ _).mp gathered) p within

theorem completes_whole {p : α → Parser α} (h : ∀ g, (p g).Completes K) :
    (whole p).Completes K Eq := by
  rintro L b s s' g _ hb hs hword hK rfl
  have hp := h g b hb ⟨hs, hword, hK⟩
  unfold whole
  generalize p g s = left at hp
  generalize p g s' = right at hp
  cases hp with
  | ok a after => exact .done rfl after
  | error e within => exact .failed rfl e within

/-- Items are added at the end of whatever has been gathered before. -/
theorem completes_item {p : Parser α} {G : List α → List α → Prop}
    (hG : ∀ g g' a, G g g' → G (g ++ [a]) (g' ++ [a])) (h : p.Completes K) :
    (item p).Completes K G := by
  intro L b s s' g g' hb hs hword hK hgathered
  have hp := h b hb ⟨hs, hword, hK⟩
  generalize hleft : p s = left at hp
  generalize hright : p s' = right at hp
  cases hp with
  | ok a after =>
    rw [item_of_ok hleft, item_of_ok hright]
    exact .done (hG _ _ a hgathered) after
  | error e within =>
    rw [item_of_error hleft, item_of_error hright]
    exact .failed hgathered e within

theorem refuses_whole {p : α → Parser α} (h : ∀ t : Token, t.IsMark .indent →
    ∃ e, ∀ g s, s.current = t → p g s = .error e s) : (whole p).Refuses := by
  intro t ht
  obtain ⟨e, he⟩ := h t ht
  refine ⟨e, fun g s hs => ?_⟩
  unfold whole
  rw [he g s hs]

theorem refuses_whole_bind {q : Parser β} (h : q.Refuses) (f : α → β → Parser α) :
    (whole fun a => q >>= f a).Refuses := by
  apply refuses_whole
  intro t ht
  obtain ⟨e, he⟩ := h t ht
  exact ⟨e, fun g s hs => Parser.bind_of_error (f g) (he s hs)⟩

theorem refuses_item {p : Parser α} (h : p.Refuses) : (item p).Refuses :=
  refuses_whole_bind h _

/-- Lines of two sorts that can be told apart at their beginning. -/
theorem completes_choose
    (hg : ∀ ⦃L : SharedLine⦄ ⦃b : Footing⦄ ⦃s s' : ParserState⦄, L.Within b s s' →
      s.kind.isStructural = false → g s = g s')
    (h : line.Completes (fun s => g s = true ∧ K s) G) (h' : line'.Completes K G) :
    LineParser.Completes K G fun a s => if g s = true then line a s else line' a s := by
  intro L b s s' a a' hb hs hword hK hG
  dsimp only
  rw [← hg hs hword]
  split_ifs with hc
  · exact h hb hs hword ⟨hc, hK⟩ hG
  · exact h' hb hs hword hK hG

theorem refuses_choose (hg : ∀ s : ParserState, s.current.IsMark .indent → g s = false)
    (h : line'.Refuses) :
    LineParser.Refuses fun a s => if g s = true then line a s else line' a s := by
  intro t ht
  obtain ⟨p, hp⟩ := h t ht
  refine ⟨p, fun a s hs => ?_⟩
  dsimp only
  rw [hg s (hs ▸ ht), if_neg (by simp)]
  exact hp a s hs

theorem Refuses.thenFinish (h : line.Refuses) : (thenFinish line).Refuses := by
  intro t ht
  obtain ⟨p, hp⟩ := h t ht
  refine ⟨p, fun g s hs => ?_⟩
  unfold LineParser.thenFinish
  rw [hp g s hs]

end LineParser

namespace Parser

variable {α β : Type} {b : Footing} {K : ParserState → Prop}

theorem Refuses.bind {p : Parser α} (h : p.Refuses) (f : α → Parser β) : (p >>= f).Refuses := by
  intro t ht
  obtain ⟨e, he⟩ := h t ht
  exact ⟨e, fun s hs => bind_of_error f (he s hs)⟩

theorem refuses_failHere (cause : Token → ParseCause) : (failHere cause : Parser α).Refuses := by
  intro t _
  refine ⟨⟨cause t, some t.location⟩, fun s hs => ?_⟩
  unfold failHere
  rw [hs]

theorem refuses_unexpected (what : String) : (unexpected what : Parser α).Refuses :=
  refuses_failHere _

theorem refuses_peek_bind {f : Token → Parser β} (h : ∀ t, t.IsMark .indent → (f t).Refuses) :
    (peek >>= f).Refuses := by
  intro t ht
  obtain ⟨e, he⟩ := h t ht t ht
  refine ⟨e, fun s hs => ?_⟩
  subst hs
  exact he s rfl

theorem refuses_kind_bind {f : TokenKind → Parser β} (h : (f .indent).Refuses) :
    (kind >>= f).Refuses := by
  intro t ht
  obtain ⟨e, he⟩ := h t ht
  refine ⟨e, fun s hs => ?_⟩
  have hk : s.kind = .indent := by rw [ParserState.kind, hs, ht.kind_eq]
  rw [bind_of_ok f (rfl : kind s = .ok s.kind s), hk]
  exact he s hs

theorem refuses_check_bind {k : TokenKind} (hk : k ≠ .indent) {yes no : Parser β}
    (h : no.Refuses) : (check k >>= fun c => if c = true then yes else no).Refuses := by
  intro t ht
  obtain ⟨e, he⟩ := h t ht
  refine ⟨e, fun s hs => ?_⟩
  rw [check_bind_apply, if_neg]
  · exact he s hs
  · rw [ParserState.kind, hs, ht.kind_eq]
    exact hk.symm

theorem refuses_look_bind {g : ParserState → Bool}
    (hg : ∀ s, g s = true → s.kind.isStructural = false) {yes no : Parser β} (h : no.Refuses) :
    (look g >>= fun c => if c = true then yes else no).Refuses := by
  intro t ht
  obtain ⟨e, he⟩ := h t ht
  refine ⟨e, fun s hs => ?_⟩
  rw [look_bind_apply, if_neg]
  · exact he s hs
  · intro hgs
    have hword := hg s hgs
    rw [ParserState.kind, hs, ht.kind_eq] at hword
    cases hword

theorem refuses_expect {k : TokenKind} (hk : k ≠ .indent) (what : String) :
    (expect k what).Refuses :=
  refuses_check_bind hk (refuses_unexpected what)

theorem refuses_takeName (what : String) : (takeName what).Refuses :=
  refuses_kind_bind (refuses_unexpected what)

/-- A parser that answers without passing anything may stand before one that refuses. -/
theorem Refuses.after {p : Parser α} {f : α → Parser β} (a : α)
    (hp : ∀ s : ParserState, s.kind = .indent → p s = .ok a s) (h : (f a).Refuses) :
    (p >>= f).Refuses := by
  intro t ht
  obtain ⟨e, he⟩ := h t ht
  refine ⟨e, fun s hs => ?_⟩
  have hk : s.kind = .indent := by rw [ParserState.kind, hs, ht.kind_eq]
  rw [bind_of_ok f (hp s hk)]
  exact he s hs

end Parser

end AgentScript
