import AgentScript.Proofs.Parsing.Course

/-!
# Two parses of the same line

What a parser does on a line depends on that line alone. Two parses share the tokens up to
some point and differ in those behind it, in the problems found before, and perhaps in the
token passed last. As long as both stand on one line, a parser for that line does the same
in both; what it returns, the problems it finds and the tokens it leaves agree.
-/
namespace AgentScript

/-- What two parses have passed in common. -/
inductive Footing
  /-- Perhaps nothing. -/
  | apart
  /-- The last token with text of the language. -/
  | text
  /-- That token, and it is the last token of all. -/
  | word

namespace Footing

def rank : Footing → Nat
  | apart => 0
  | text => 1
  | word => 2

instance : LE Footing := ⟨fun a b => a.rank ≤ b.rank⟩

protected theorem le_refl (a : Footing) : a ≤ a := Nat.le_refl a.rank

protected theorem le_trans {a b c : Footing} (h : a ≤ b) (h' : b ≤ c) : a ≤ c :=
  Nat.le_trans (m := b.rank) h h'

theorem le_word (a : Footing) : a ≤ word := by
  cases a with
  | apart => exact Nat.zero_le 2
  | text => exact Nat.le_succ 1
  | word => exact Nat.le_refl 2

end Footing

/-- What two parses differ in: the tokens behind those they share, and the problems found
before. Where problems count, both parses have found as many. -/
structure Frame where
  left : List Token
  right : List Token
  leftProblems : List ParseProblem
  rightProblems : List ParseProblem
  cap : Nat
  even : cap = 0 ∨ leftProblems.length = rightProblems.length

namespace Frame

/-- Two states that share the tokens to come up to the frame and the problems found since. -/
structure Alike (F : Frame) (b : Footing) (shared : List Token) (s s' : ParserState) : Prop where
  left : s.tokens = shared ++ F.left
  right : s'.tokens = shared ++ F.right
  leftEnding : s.ending.kind = .eof
  rightEnding : s'.ending.kind = .eof
  problems : ∃ found, s.problems.toList = F.leftProblems ++ found ∧
    s'.problems.toList = F.rightProblems ++ found
  leftCap : s.cap = F.cap
  rightCap : s'.cap = F.cap
  text : .text ≤ b → s.lastEnd = s'.lastEnd
  word : .word ≤ b → s.previous = s'.previous ∧ ∃ k, s.previous = some k ∧ k.isStructural = false

variable {F : Frame} {b b' : Footing} {shared : List Token} {s s' : ParserState}

theorem Alike.weaken (h : F.Alike b' shared s s') (hb : b ≤ b') : F.Alike b shared s s' :=
  { h with
    text := fun htext => h.text (Footing.le_trans htext hb)
    word := fun hword => h.word (Footing.le_trans hword hb) }

theorem Alike.halted_eq (h : F.Alike b shared s s') : s.halted = s'.halted := by
  obtain ⟨found, hleft, hright⟩ := h.problems
  have hsize : s.problems.size = F.leftProblems.length + found.length := by
    rw [← Array.length_toList, hleft, List.length_append]
  have hsize' : s'.problems.size = F.rightProblems.length + found.length := by
    rw [← Array.length_toList, hright, List.length_append]
  unfold ParserState.halted
  rw [h.leftCap, h.rightCap, hsize, hsize']
  rcases F.even with hcap | heven
  · simp [hcap]
  · rw [heven]

theorem Alike.report (h : F.Alike b shared s s') (p : ParseProblem) :
    F.Alike b shared (s.report p) (s'.report p) := by
  have hhalted := h.halted_eq
  unfold ParserState.report
  rw [← hhalted]
  split_ifs
  · exact h
  · obtain ⟨found, hleft, hright⟩ := h.problems
    refine { h with problems := ⟨found ++ [p], ?_, ?_⟩ }
    · simp [hleft]
    · simp [hright]

/-- Passing a shared token, when what it leaves behind is known. -/
theorem Alike.advance {x : Token} (h : F.Alike b (x :: shared) s s') (hne : x.kind ≠ .eof)
    (text : .text ≤ b' → s.advance.lastEnd = s'.advance.lastEnd)
    (word : .word ≤ b' → s.advance.previous = s'.advance.previous ∧
      ∃ k, s.advance.previous = some k ∧ k.isStructural = false) :
    F.Alike b' shared s.advance s'.advance where
  left := (ParserState.advance_of_tokens h.leftEnding h.left hne).1
  right := (ParserState.advance_of_tokens h.rightEnding h.right hne).1
  leftEnding := by simpa using h.leftEnding
  rightEnding := by simpa using h.rightEnding
  problems := by simpa using h.problems
  leftCap := by simpa using h.leftCap
  rightCap := by simpa using h.rightCap
  text := text
  word := word

/-- Passing a shared token with text of the language. -/
theorem Alike.advance_word {x : Token} (h : F.Alike b (x :: shared) s s')
    (hx : x.isStructural = false) : F.Alike .word shared s.advance s'.advance := by
  have hne : x.kind ≠ .eof := by
    intro heof
    rw [Token.isStructural, heof] at hx
    exact nomatch hx
  obtain ⟨-, hprevious, hend⟩ := ParserState.advance_of_tokens h.leftEnding h.left hne
  obtain ⟨-, hprevious', hend'⟩ := ParserState.advance_of_tokens h.rightEnding h.right hne
  rw [hx] at hend hend'
  refine h.advance hne ?text ?word
  case text => exact fun _ => hend.trans hend'.symm
  case word => exact fun _ => ⟨hprevious.trans hprevious'.symm, x.kind, hprevious, hx⟩

/-- Passing a shared layout token. -/
theorem Alike.advance_layout {x : Token} (h : F.Alike b (x :: shared) s s')
    (hx : x.isStructural = true) (hne : x.kind ≠ .eof) (hb : b ≤ .text) :
    F.Alike b shared s.advance s'.advance := by
  obtain ⟨-, -, hend⟩ := ParserState.advance_of_tokens h.leftEnding h.left hne
  obtain ⟨-, -, hend'⟩ := ParserState.advance_of_tokens h.rightEnding h.right hne
  rw [hx] at hend hend'
  refine h.advance hne ?text ?word
  case text =>
    intro htext
    rw [hend, hend']
    exact h.text htext
  case word => exact fun hword => absurd (Footing.le_trans hword hb) (Nat.not_succ_le_self 1)

end Frame

namespace ParserState

variable {s : ParserState}

theorem lineLeft_eq_tokens (h : s.ending.kind = .eof) :
    s.lineLeft = (s.tokens.takeWhile fun t => !t.isStructural).length := by
  have hending : s.ending.isStructural = true := by rw [Token.isStructural, h]; rfl
  rw [lineLeft, tokens, List.takeWhile_append]
  split_ifs with hall
  · simp [hending, (List.takeWhile_prefix _).eq_of_length hall]
  · rfl

/-- The words up to a layout token are left on the line. -/
theorem lineLeft_of_tokens {words below : List Token} {fence : Token} (he : s.ending.kind = .eof)
    (hwords : ∀ t ∈ words, t.isStructural = false) (hfence : fence.isStructural = true)
    (h : s.tokens = words ++ fence :: below) : s.lineLeft = words.length := by
  rw [lineLeft_eq_tokens he, h, List.takeWhile_append_of_pos]
  · simp [hfence]
  · simpa using hwords

theorem lineLeft_advance (he : s.ending.kind = .eof) (hword : s.kind.isStructural = false) :
    s.lineLeft = s.advance.lineLeft + 1 := by
  unfold lineLeft advance
  unfold kind current ahead at hword
  cases hr : s.rest with
  | nil =>
    rw [hr, List.getD_nil, he] at hword
    exact nomatch hword
  | cons x rest =>
    rw [hr, List.getD_cons_zero] at hword
    rw [List.takeWhile_cons_of_pos (by simpa [Token.isStructural] using hword)]
    rfl

end ParserState

/-- The rest of a line in two parses: words, then a layout token, then further tokens that
both share. -/
structure SharedLine where
  frame : Frame
  fence : Token
  isStructural : fence.isStructural = true
  below : List Token

namespace SharedLine

/-- Two states on the same line. -/
def Within (L : SharedLine) (b : Footing) (s s' : ParserState) : Prop :=
  ∃ words, (∀ t ∈ words, t.isStructural = false) ∧
    L.frame.Alike b (words ++ L.fence :: L.below) s s'

variable {L : SharedLine} {b b' : Footing} {s s' : ParserState}

theorem Within.weaken (h : L.Within b' s s') (hb : b ≤ b') : L.Within b s s' := by
  obtain ⟨words, hwords, halike⟩ := h
  exact ⟨words, hwords, halike.weaken hb⟩

theorem Within.report (h : L.Within b s s') (p : ParseProblem) :
    L.Within b (s.report p) (s'.report p) := by
  obtain ⟨words, hwords, halike⟩ := h
  exact ⟨words, hwords, halike.report p⟩

theorem Within.current_eq (h : L.Within b s s') : s.current = s'.current := by
  obtain ⟨words, -, halike⟩ := h
  cases words with
  | nil =>
    rw [ParserState.current_of_tokens halike.left, ParserState.current_of_tokens halike.right]
  | cons x words =>
    rw [ParserState.current_of_tokens halike.left, ParserState.current_of_tokens halike.right]

theorem Within.kind_eq (h : L.Within b s s') : s.kind = s'.kind := by
  rw [ParserState.kind, ParserState.kind, h.current_eq]

/-- Where a word is next, both parses also see the same token behind it. -/
theorem Within.ahead_one_eq (h : L.Within b s s') (hk : s.kind.isStructural = false) :
    s.ahead 1 = s'.ahead 1 := by
  obtain ⟨words, -, halike⟩ := h
  cases words with
  | nil =>
    rw [ParserState.kind_of_tokens halike.left] at hk
    exact absurd L.isStructural (by rw [Token.isStructural, hk]; decide)
  | cons x words =>
    cases words with
    | nil =>
      rw [ParserState.ahead_one_of_tokens halike.left, ParserState.ahead_one_of_tokens halike.right]
    | cons y words =>
      rw [ParserState.ahead_one_of_tokens halike.left, ParserState.ahead_one_of_tokens halike.right]

/-- Two tokens look the same in both parses if the first has to be a word. -/
theorem Within.look_eq {g : ParserState → Bool} (h : L.Within b s s')
    (hword : ∀ s, g s = true → s.kind.isStructural = false)
    (hsame : ∀ s s' : ParserState, s.current = s'.current → s.ahead 1 = s'.ahead 1 → g s = g s') :
    g s = g s' := by
  cases hstruct : s.kind.isStructural with
  | false => exact hsame s s' h.current_eq (h.ahead_one_eq hstruct)
  | true =>
    have hleft : g s = false := Bool.eq_false_iff.mpr fun hg => by simp [hword s hg] at hstruct
    rw [h.kind_eq] at hstruct
    have hright : g s' = false := Bool.eq_false_iff.mpr fun hg => by simp [hword s' hg] at hstruct
    rw [hleft, hright]

theorem Within.advance (h : L.Within b s s') (hk : s.kind.isStructural = false) :
    L.Within .word s.advance s'.advance := by
  obtain ⟨words, hwords, halike⟩ := h
  cases words with
  | nil =>
    rw [ParserState.kind_of_tokens halike.left] at hk
    exact absurd L.isStructural (by rw [Token.isStructural, hk]; decide)
  | cons x words =>
    exact ⟨words, fun t ht => hwords t (List.mem_cons_of_mem _ ht),
      halike.advance_word (hwords x (List.mem_cons_self ..))⟩

theorem Within.lineLeft_eq (h : L.Within b s s') : s.lineLeft = s'.lineLeft := by
  obtain ⟨words, hwords, halike⟩ := h
  have hleft : s.tokens = words ++ L.fence :: (L.below ++ L.frame.left) := by
    rw [halike.left, List.append_assoc, List.cons_append]
  have hright : s'.tokens = words ++ L.fence :: (L.below ++ L.frame.right) := by
    rw [halike.right, List.append_assoc, List.cons_append]
  rw [ParserState.lineLeft_of_tokens halike.leftEnding hwords L.isStructural hleft,
    ParserState.lineLeft_of_tokens halike.rightEnding hwords L.isStructural hright]

/-- What a parser can do in two parses of a line: succeed in both with the same result, or
fail in both with the same problem. Success
may bring the parses closer. -/
inductive Outcome {α : Type} (L : SharedLine) (b b' : Footing) :
    EStateM.Result ParseProblem ParserState α → EStateM.Result ParseProblem ParserState α → Prop
  | ok {t t' : ParserState} (a : α) (le : b ≤ b') (shared : L.Within b' t t') :
      Outcome L b b' (.ok a t) (.ok a t')
  | error {t t' : ParserState} (e : ParseProblem) (shared : L.Within b t t') :
      Outcome L b b' (.error e t) (.error e t')

/-- What is done from a closer footing on is done from the looser one. -/
theorem Outcome.since {α : Type} {L : SharedLine} {b c b' : Footing}
    {r r' : EStateM.Result ParseProblem ParserState α} (h : L.Outcome c b' r r') (le : b ≤ c) :
    L.Outcome b b' r r' := by
  cases h with
  | ok a le' shared => exact .ok a (Footing.le_trans le le') shared
  | error e shared => exact .error e (shared.weaken le)

end SharedLine

namespace Parser

variable {α β : Type} {K : ParserState → Prop} {b b' b'' : Footing}

/-- Where the tokens to come are as the condition says, the parser does the same in two
parses of a line. -/
def Agrees (K : ParserState → Prop) (b b' : Footing) (p : Parser α) : Prop :=
  ∀ ⦃L : SharedLine⦄ ⦃s s' : ParserState⦄, L.Within b s s' → K s →
    L.Outcome b b' (p s) (p s')

theorem Agrees.restrict {p : Parser α} {K' : ParserState → Prop} (h : Agrees K b b' p)
    (hK : ∀ s, K' s → K s) : Agrees K' b b' p := fun _ _ _ hs hk => h hs (hK _ hk)

/-- Less can be claimed of what the parses have passed. -/
theorem Agrees.loosen {p : Parser α} (h : Agrees K b b'' p) (le : b ≤ b') (le' : b' ≤ b'') :
    Agrees K b b' p := by
  intro L s s' hs hk
  have hp := h hs hk
  generalize p s = left at hp ⊢
  generalize p s' = right at hp ⊢
  cases hp with
  | ok a _ shared => exact .ok a le (shared.weaken le')
  | error e shared => exact .error e shared

theorem Agrees.bind {p : Parser α} {f : α → Parser β} (h : Agrees K b b' p)
    (h' : ∀ a, Agrees (fun _ => True) b' b'' (f a)) : Agrees K b b'' (p >>= f) := by
  intro L s s' hs hk
  have hp := h hs hk
  generalize hleft : p s = left at hp
  generalize hright : p s' = right at hp
  cases hp with
  | error e shared =>
    rw [bind_of_error f hleft, bind_of_error f hright]
    exact .error e shared
  | ok a le shared =>
    rw [bind_of_ok f hleft, bind_of_ok f hright]
    exact (h' a shared trivial).since le

theorem agrees_pure (a : α) : Agrees K b b (pure a) :=
  fun _ _ _ hs _ => .ok a (Footing.le_refl b) hs

theorem agrees_failHere (cause : Token → ParseCause) :
    Agrees K b b' (failHere cause : Parser α) := by
  intro L s s' hs _
  unfold failHere
  rw [hs.current_eq]
  exact .error _ hs

theorem agrees_unexpected (what : String) : Agrees K b b' (unexpected what : Parser α) :=
  agrees_failHere _

theorem agrees_fail (cause : ParseCause) (location : Location) :
    Agrees K b b' (fail cause location : Parser α) :=
  fun _ _ _ hs _ => .error _ hs

theorem agrees_report (cause : ParseCause) (location : Location) :
    Agrees K b b (report cause location) :=
  fun _ _ _ hs _ => .ok () (Footing.le_refl b) (hs.report _)

theorem agrees_ofNode (node : Except NodeError α) (location : Location) :
    Agrees K b b (ofNode node location) := by
  cases node with
  | ok a => exact agrees_pure a
  | error e => exact agrees_fail _ _

theorem agrees_lineLeft : Agrees K b b lineLeft := by
  intro L s s' hs _
  unfold lineLeft look
  rw [hs.lineLeft_eq]
  exact .ok _ (Footing.le_refl b) hs

/-- A location can be told once a word of the line has been passed. -/
theorem agrees_spanFrom (start : Position) : Agrees K .word .word (spanFrom start) := by
  intro L s s' hs _
  have hspan : s.spanFrom start = s'.spanFrom start := by
    obtain ⟨words, -, halike⟩ := hs
    rw [ParserState.spanFrom, ParserState.spanFrom, halike.text (Footing.le_word _)]
  unfold spanFrom
  rw [hspan]
  exact .ok _ (Footing.le_refl _) hs

theorem agrees_advance : Agrees (fun s => s.kind.isStructural = false) b .word advance := by
  intro L s s' hs hk
  unfold advance
  rw [hs.current_eq]
  exact .ok _ (Footing.le_word b) (hs.advance hk)

/-- A token of a kind that is known to be no layout can be passed. -/
theorem agrees_advance_at {k : TokenKind} (hk : k.isStructural = false) :
    Agrees (fun s => s.kind = k ∧ K s) b .word advance := by
  apply agrees_advance.restrict
  intro s hs
  rw [hs.1, hk]

/-- Passing a word, when something is known of the tokens behind it. -/
theorem agrees_advance_bind {P : ParserState → Prop} {f : Token → Parser β}
    (hword : ∀ s, K s → s.kind.isStructural = false) (hnext : ∀ s, K s → P s.advance)
    (h : ∀ t, Agrees P .word b' (f t)) : Agrees K b b' (advance >>= f) := by
  intro L s s' hs hk
  have heq : (advance >>= f) s' = f s.current s'.advance := by
    rw [hs.current_eq]
    rfl
  rw [heq]
  exact (h s.current (hs.advance (hword s hk)) (hnext s hk)).since (Footing.le_word b)

theorem agrees_kind_bind {f : TokenKind → Parser β}
    (h : ∀ k, Agrees (fun s => s.kind = k ∧ K s) b b' (f k)) : Agrees K b b' (kind >>= f) := by
  intro L s s' hs hk
  have heq : (kind >>= f) s' = f s.kind s' := by
    rw [hs.kind_eq]
    rfl
  rw [heq]
  exact h s.kind hs ⟨rfl, hk⟩

theorem agrees_peek_bind {f : Token → Parser β}
    (h : ∀ t, Agrees (fun s => s.current = t ∧ K s) b b' (f t)) :
    Agrees K b b' (peek >>= f) := by
  intro L s s' hs hk
  have heq : (peek >>= f) s' = f s.current s' := by
    rw [hs.current_eq]
    rfl
  rw [heq]
  exact h s.current hs ⟨rfl, hk⟩

theorem check_bind_apply (k : TokenKind) (yes no : Parser β) (s : ParserState) :
    (check k >>= fun c => if c = true then yes else no) s =
      if s.kind = k then yes s else no s := by
  change (if (s.kind == k) = true then yes else no) s = _
  by_cases hk : s.kind = k
  · rw [if_pos hk, if_pos (by simpa using hk)]
  · rw [if_neg hk, if_neg (by simpa using hk)]

theorem look_bind_apply (g : ParserState → Bool) (yes no : Parser β) (s : ParserState) :
    (look g >>= fun c => if c = true then yes else no) s = if g s = true then yes s else no s := by
  change (if g s = true then yes else no) s = _
  by_cases hg : g s = true
  · rw [if_pos hg, if_pos hg]
  · rw [if_neg hg, if_neg hg]

theorem agrees_check_bind {k : TokenKind} {yes no : Parser β}
    (hyes : Agrees (fun s => s.kind = k ∧ K s) b b' yes) (hno : Agrees K b b' no) :
    Agrees K b b' (check k >>= fun c => if c = true then yes else no) := by
  intro L s s' hs hk
  rw [check_bind_apply, check_bind_apply, ← hs.kind_eq]
  split_ifs with hc
  · exact hyes hs ⟨hc, hk⟩
  · exact hno hs hk

/-- A parser that looks at two tokens stays on the line if the first has to be a word. -/
theorem agrees_look_bind {g : ParserState → Bool} {yes no : Parser β}
    (hword : ∀ s, g s = true → s.kind.isStructural = false)
    (hsame : ∀ s s' : ParserState, s.current = s'.current → s.ahead 1 = s'.ahead 1 → g s = g s')
    (hyes : Agrees (fun s => g s = true ∧ K s) b b' yes) (hno : Agrees K b b' no) :
    Agrees K b b' (look g >>= fun c => if c = true then yes else no) := by
  intro L s s' hs hk
  rw [look_bind_apply, look_bind_apply, ← hs.look_eq hword hsame]
  split_ifs with hc
  · exact hyes hs ⟨hc, hk⟩
  · exact hno hs hk

/-- Eating a token is a look at it and passing it. -/
theorem eat_bind_eq (k : TokenKind) (yes no : Parser β) :
    (eat k >>= fun c => if c = true then yes else no) =
      check k >>= fun c => if c = true then advance >>= fun _ => yes else no := by
  funext s
  change EStateM.bind (eat k) _ s = EStateM.bind (check k) _ s
  unfold EStateM.bind eat check
  by_cases hk : s.kind == k
  · simp only [hk]
    rfl
  · simp only [hk]
    rfl

theorem agrees_eat_bind {k : TokenKind} (hk : k.isStructural = false) {yes no : Parser β}
    (hyes : Agrees (fun _ => True) .word b' yes) (hno : Agrees K b b' no) :
    Agrees K b b' (eat k >>= fun c => if c = true then yes else no) := by
  rw [eat_bind_eq]
  apply agrees_check_bind
  · apply (agrees_advance_at hk).bind
    exact fun _ => hyes
  · exact hno

theorem agrees_expect {k : TokenKind} (hk : k.isStructural = false) (what : String) :
    Agrees K b .word (expect k what) :=
  agrees_check_bind (agrees_advance_at hk) (agrees_unexpected what)

end Parser

end AgentScript
