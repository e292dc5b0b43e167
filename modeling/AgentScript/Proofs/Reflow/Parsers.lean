import AgentScript.Proofs.Reflow.Progress
import AgentScript.Proofs.Reflow.States

/-!
# Parsers of a text laid out anew

A parser of words does the same in two texts that differ in their layout: it answers the same, or
it finds the same problem. A line is read the same together with the block below it. Because a
line that has been read has taken a token, no parse ever passes a token for lack of progress, and
so both go through the lines of a block alike.
-/
namespace AgentScript

open ParserState
open Token (Closing)

variable {α β : Type} {Moved : Position → Position → Prop} {st st' : Stance} {d : Nat}
  {s s' : ParserState} {K : ParserState → Prop}

/-- A word that no captured text follows. -/
def TokenKind.staysInLine (k : TokenKind) : Bool := !k.isStructural && k.captures?.isNone

theorem TokenKind.isStructural_of_staysInLine {k : TokenKind} (h : k.staysInLine = true) :
    k.isStructural = false := by
  unfold staysInLine at h
  simp_all

theorem Stance.pass_of_staysInLine {k : TokenKind} (h : k.staysInLine = true) :
    Stance.inside.pass k = .inside := by
  unfold TokenKind.staysInLine at h
  exact pass_eq_inside nofun (by simp_all)

/-- Two states at the same place, of which the first is as the condition says. -/
def ParserState.On (Moved : Position → Position → Prop) (st : Stance) (K : ParserState → Prop)
    (d : Nat) (s s' : ParserState) : Prop :=
  s.Reflowed Moved st d s' ∧ K s

/-- Two states at the same place, wherever it is. -/
def ParserState.Somewhere (Moved : Position → Position → Prop) (d : Nat) (s s' : ParserState) :
    Prop :=
  ∃ st, s.Reflowed Moved st d s'

/-- Where tokens of one kind stand for each other, the same is missing. -/
theorem ParseProblem.Alike.expected {t t' : Token} (what : String) (hkind : t.kind = t'.kind)
    (hword : t.kind.isStructural = false → t = t') (hstart : Moved t.start t'.start) :
    ParseProblem.Alike Moved ⟨.expected what t.kind t.text, some t.location⟩
      ⟨.expected what t'.kind t'.text, some t'.location⟩ := by
  refine ⟨?_, .some hstart⟩
  cases hstruct : t.kind.isStructural with
  | false => rw [hword hstruct]
  | true =>
    have hfound (t : Token) (ht : t.kind.isStructural = true) :
        describeFound t.kind t.text = t.kind.describe := by simp [describeFound, ht]
    dsimp only [ParseCause.message]
    rw [hfound t hstruct, hfound t' (hkind ▸ hstruct), hkind]

/-- A word or the beginning of a block stands where something else is needed. -/
theorem ParserState.Reflowed.expected (h : s.Reflowed Moved st d s') (what : String)
    (hk : s.kind.isStructural = false ∨ s.kind = .indent) :
    ParseProblem.Alike Moved ⟨.expected what s.current.kind s.current.text, some s.current.location⟩
      ⟨.expected what s'.current.kind s'.current.text, some s'.current.location⟩ := by
  obtain ⟨e, l, l', -, -, htokens, -⟩ := h.exists_tokens
  refine .expected what ?_ (fun hword => h.current_eq hword) ?_
  · rcases hk with hk | hk
    · exact congrArg _ (h.current_eq hk)
    · exact hk.trans ((h.kind_iff (.inr rfl)).mp hk).symm
  · rcases hk with hk | hk
    · exact h.current_eq hk ▸ h.placed hk
    · exact (htokens.indent_cases hk).2.1

namespace Parser

/-- What a parser does in two texts: it succeeds in both with the same answer, or it fails in both
with the same problem. -/
inductive Alike (Moved : Position → Position → Prop) (d : Nat)
    (Q : ParserState → ParserState → Prop) :
    EStateM.Result ParseProblem ParserState α → EStateM.Result ParseProblem ParserState α → Prop
  | ok {t t' : ParserState} (a : α) (after : Q t t') : Alike Moved d Q (.ok a t) (.ok a t')
  | error {e e' : ParseProblem} {t t' : ParserState} (problem : e.Alike Moved e')
      (after : t.Somewhere Moved d t') : Alike Moved d Q (.error e t) (.error e' t')

variable {P P' Q Q' R : Nat → ParserState → ParserState → Prop} {p yes no : Parser α}
  {f : α → Parser β}

/-- From states as before, the parser does the same in two texts and leaves states as after. -/
def Reflows (Moved : Position → Position → Prop) (P Q : Nat → ParserState → ParserState → Prop)
    (p : Parser α) : Prop :=
  ∀ ⦃d : Nat⦄ ⦃s s' : ParserState⦄, P d s s' → Alike Moved d (Q d) (p s) (p s')

/-- A parser of words, from where the condition holds to a place within the line. -/
abbrev StaysInside (Moved : Position → Position → Prop) (K : ParserState → Prop) (p : Parser α) :
    Prop :=
  Reflows Moved (On Moved .inside K) (On Moved .inside fun _ => True) p

/-- A parser for a line with the block below it, from where the condition holds. -/
abbrev ReflowsLine (Moved : Position → Position → Prop) (K : ParserState → Prop) (p : Parser α) :
    Prop :=
  Reflows Moved (On Moved .inside K) (On Moved .between fun _ => True) p

namespace Reflows

theorem mono (h : Reflows Moved P Q p) (hP : ∀ d s s', P' d s s' → P d s s')
    (hQ : ∀ d s s', Q d s s' → Q' d s s') : Reflows Moved P' Q' p := by
  intro d s s' hs
  have hp := h (hP d s s' hs)
  generalize p s = left at hp ⊢
  generalize p s' = right at hp ⊢
  cases hp with
  | ok a after => exact .ok a (hQ d _ _ after)
  | error problem after => exact .error problem after

theorem restrict {K' : ParserState → Prop} (h : Reflows Moved (On Moved st K) Q p)
    (hK : ∀ s, K' s → K s) : Reflows Moved (On Moved st K') Q p :=
  h.mono (fun _ _ _ hs => ⟨hs.1, hK _ hs.2⟩) fun _ _ _ hs => hs

theorem any (h : Reflows Moved (On Moved st fun _ => True) Q p) :
    Reflows Moved (On Moved st K) Q p := h.restrict fun _ _ => trivial

/-- It may be forgotten where the states are. -/
theorem somewhere (h : Reflows Moved P (On Moved st K) p) : Reflows Moved P (Somewhere Moved) p :=
  h.mono (fun _ _ _ hs => hs) fun _ _ _ hs => ⟨st, hs.1⟩

/-- What is known of the answer may be used behind the parser. -/
theorem bindOk (h : Reflows Moved P Q p)
    (h' : ∀ a, (∃ s t, p s = .ok a t) → Reflows Moved Q R (f a)) : Reflows Moved P R (p >>= f) := by
  intro d s s' hs
  have hp := h hs
  generalize hleft : p s = left at hp
  generalize hright : p s' = right at hp
  cases hp with
  | ok a after =>
    rw [bind_of_ok f hleft, bind_of_ok f hright]
    exact h' a ⟨s, _, hleft⟩ after
  | error problem after =>
    rw [bind_of_error f hleft, bind_of_error f hright]
    exact .error problem after

theorem bind (h : Reflows Moved P Q p) (h' : ∀ a, Reflows Moved Q R (f a)) :
    Reflows Moved P R (p >>= f) := h.bindOk fun a _ => h' a

theorem ret (a : α) : Reflows Moved P P (pure a) := fun _ _ _ hs => .ok a hs

protected theorem pure (a : α) :
    Reflows Moved (On Moved st K) (On Moved st fun _ => True) (pure a) :=
  fun _ _ _ hs => .ok a ⟨hs.1, trivial⟩

protected theorem ite {c : Prop} [Decidable c] (hyes : c → Reflows Moved P Q yes)
    (hno : ¬c → Reflows Moved P Q no) : Reflows Moved P Q (if c then yes else no) := by
  split_ifs with hc
  · exact hyes hc
  · exact hno hc

/-- Something else was needed than the next token of a line. -/
theorem unexpected (what : String) :
    Reflows Moved (On Moved .inside K) Q (unexpected what : Parser α) := by
  rintro d s s' ⟨hs, -⟩
  obtain ⟨e, l, l', -, -, htokens, -⟩ := hs.exists_tokens
  exact .error
    (.expected what (htokens.kind_eq rfl) (fun hk => hs.current_eq hk) htokens.meets) ⟨_, hs⟩

theorem failHere (cause : Token → ParseCause) (hK : ∀ s, K s → s.kind.isStructural = false) :
    Reflows Moved (On Moved st K) Q (failHere cause : Parser α) := by
  rintro d s s' ⟨hs, hk⟩
  unfold Parser.failHere
  have hplace := hs.placed (hK s hk)
  rw [← hs.current_eq (hK s hk)]
  exact .error (.located hplace _) ⟨_, hs⟩

theorem fail (cause : ParseCause) {location : Location} (h : Moved location.start location.start) :
    Reflows Moved (On Moved st K) Q (fail cause location : Parser α) :=
  fun _ _ _ hs => .error (.located h cause) ⟨_, hs.1⟩

theorem report (cause : ParseCause) {location : Location}
    (h : Moved location.start location.start) :
    Reflows Moved (On Moved st K) (On Moved st fun _ => True) (report cause location) :=
  fun _ _ _ hs => .ok () ⟨hs.1.report (.located h cause), trivial⟩

theorem ofNode (node : Except NodeError α) {location : Location}
    (h : Moved location.start location.start) :
    Reflows Moved (On Moved st K) (On Moved st fun _ => True) (ofNode node location) := by
  cases node with
  | ok a => exact .pure a
  | error e => exact .fail _ h

theorem spanFrom (start : Position) :
    Reflows Moved (On Moved st K) (On Moved st fun _ => True) (spanFrom start) := by
  intro d s s' hs
  unfold Parser.spanFrom
  rw [hs.1.spanFrom_eq]
  exact .ok _ ⟨hs.1, trivial⟩

/-- A range begins at the place it is asked for from. -/
theorem spanFrom_placed {start : Position} {f : Location → Parser β} (hstart : Moved start start)
    (h : ∀ location : Location, Moved location.start location.start →
      Reflows Moved (On Moved st fun _ => True) Q (f location)) :
    Reflows Moved (On Moved st K) Q (Parser.spanFrom start >>= f) := by
  refine (spanFrom start).bindOk fun location ⟨s, t, hlocation⟩ => h location ?_
  obtain ⟨hlocation, -⟩ := EStateM.Result.ok.inj hlocation
  have hsame : location.start = start := by
    rw [← hlocation]
    unfold ParserState.spanFrom
    split
    · split_ifs <;> rfl
    · rfl
  rwa [hsame]

theorem spanFrom_somewhere (start : Position) :
    Reflows Moved (Somewhere Moved) (Somewhere Moved) (Parser.spanFrom start) := by
  rintro d s s' ⟨st, hs⟩
  unfold Parser.spanFrom
  rw [hs.spanFrom_eq]
  exact .ok _ ⟨st, hs⟩

theorem lineLeft : Reflows Moved (On Moved st K) (On Moved st K) lineLeft := by
  intro d s s' hs
  unfold Parser.lineLeft look
  rw [hs.1.lineLeft_eq]
  exact .ok _ hs

theorem kind {f : TokenKind → Parser β} (hst : st.endsLine = false)
    (h : ∀ k, Reflows Moved (On Moved st fun s => s.kind = k ∧ K s) Q (f k)) :
    Reflows Moved (On Moved st K) Q (kind >>= f) := by
  intro d s s' hs
  have heq : (Parser.kind >>= f) s' = f s.kind s' := by
    rw [hs.1.kind_eq hst]
    rfl
  rw [heq]
  exact h s.kind ⟨hs.1, rfl, hs.2⟩

/-- Whether a word of the kind comes next, both texts tell alike. -/
theorem check {k : TokenKind} (hk : k.isStructural = false)
    (hyes : Reflows Moved (On Moved st fun s => s.kind = k ∧ K s) Q yes)
    (hno : Reflows Moved (On Moved st K) Q no) :
    Reflows Moved (On Moved st K) Q (check k >>= fun c => if c = true then yes else no) := by
  intro d s s' hs
  have hiff := hs.1.kind_iff (.inl hk)
  rw [check_bind_apply, check_bind_apply]
  by_cases hc : s.kind = k
  · rw [if_pos hc, if_pos (hiff.mp hc)]
    exact hyes ⟨hs.1, hc, hs.2⟩
  · rw [if_neg hc, if_neg fun hc' => hc (hiff.mpr hc')]
    exact hno hs

/-- A look that only words can pass is the same where the next word is the same and the kinds of
the tokens behind it are. -/
theorem look {g : ParserState → Bool} (hg : ∀ d s s', On Moved st K d s s' → g s = g s')
    (hyes : Reflows Moved (On Moved st fun s => g s = true ∧ K s) Q yes)
    (hno : Reflows Moved (On Moved st K) Q no) :
    Reflows Moved (On Moved st K) Q (look g >>= fun c => if c = true then yes else no) := by
  intro d s s' hs
  rw [look_bind_apply, look_bind_apply, ← hg d s s' hs]
  split_ifs with hc
  · exact hyes ⟨hs.1, hc, hs.2⟩
  · exact hno hs

/-- A look at the next token in a line. Where it is no word, what follows fails for lack of one. -/
theorem peek {f : Token → Parser β} (what : String)
    (hword : ∀ t, t.isStructural = false → Moved t.start t.start →
      Reflows Moved (On Moved .inside fun s => s.current = t ∧ K s) Q (f t))
    (hnone : ∀ t s, t.isStructural = true → s.kind.isStructural = true →
      f t s = Parser.unexpected what s) :
    Reflows Moved (On Moved .inside K) Q (peek >>= f) := by
  intro d s s' hs
  change Alike Moved d (Q d) (f s.current s) (f s'.current s')
  cases hstruct : s.kind.isStructural with
  | false =>
    rw [← hs.1.current_eq hstruct]
    exact hword s.current hstruct (hs.1.placed hstruct) ⟨hs.1, rfl, hs.2⟩
  | true =>
    have hstruct' : s'.kind.isStructural = true := hs.1.kind_eq rfl ▸ hstruct
    rw [hnone _ s hstruct hstruct, hnone _ s' hstruct' hstruct']
    exact unexpected what hs

/-- A look at a word. -/
theorem peek_word {f : Token → Parser β} (hK : ∀ s, K s → s.kind.isStructural = false)
    (h : ∀ t, Moved t.start t.start →
      Reflows Moved (On Moved st fun s => s.current = t ∧ K s) Q (f t)) :
    Reflows Moved (On Moved st K) Q (Parser.peek >>= f) := by
  intro d s s' hs
  have heq : (Parser.peek >>= f) s' = f s.current s' := by
    rw [hs.1.current_eq (hK s hs.2)]
    rfl
  rw [heq]
  exact h s.current (hs.1.placed (hK s hs.2)) ⟨hs.1, rfl, hs.2⟩

/-- Passing a word where it is known to be one that nothing is captured for. -/
theorem advance (hK : ∀ s, K s → s.kind.staysInLine = true) :
    StaysInside Moved K Parser.advance := by
  rintro d s s' ⟨hs, hk⟩
  have hstays := hK s hk
  have hword := TokenKind.isStructural_of_staysInLine hstays
  have hnext := hs.advance_word hword
  rw [Stance.pass_of_staysInLine hstays] at hnext
  unfold Parser.advance
  rw [hs.current_eq hword]
  exact .ok _ ⟨hnext, trivial⟩

/-- Passing a word of a known kind. -/
theorem advance_at {k : TokenKind} (hk : k.staysInLine = true) :
    StaysInside Moved (fun s => s.kind = k ∧ K s) Parser.advance :=
  advance fun s hs => by rw [hs.1, hk]

/-- Passing a word, when something is known of the tokens behind it. -/
theorem advance_bind {J : ParserState → Prop} {f : Token → Parser β}
    (hK : ∀ s, K s → s.kind.staysInLine = true) (hnext : ∀ s, K s → J s.advance)
    (h : ∀ t, Moved t.start t.start → Reflows Moved (On Moved .inside J) Q (f t)) :
    Reflows Moved (On Moved .inside K) Q (Parser.advance >>= f) := by
  rintro d s s' ⟨hs, hk⟩
  have hword := TokenKind.isStructural_of_staysInLine (hK s hk)
  have hafter := hs.advance_word hword
  rw [Stance.pass_of_staysInLine (hK s hk)] at hafter
  have heq : (Parser.advance >>= f) s' = f s.current s'.advance := by
    rw [hs.current_eq hword]
    rfl
  rw [heq]
  exact h s.current (hs.placed hword) ⟨hafter, hnext s hk⟩

/-- Passing a word with which something may be wrong. -/
theorem advance_placed {k : TokenKind} {f : Token → Parser β} (hk : k.staysInLine = true)
    (h : ∀ t, Moved t.start t.start → Reflows Moved (On Moved .inside fun _ => True) Q (f t)) :
    Reflows Moved (On Moved .inside fun s => s.kind = k ∧ K s) Q (Parser.advance >>= f) :=
  advance_bind (fun s hs => by rw [hs.1, hk]) (fun _ _ => trivial) h

/-- Passing a word and the colon behind it. -/
theorem advance_colon {q : Parser β} (hK : ∀ s, K s → s.kind.staysInLine = true)
    (hcolon : ∀ s, K s → (s.ahead 1).kind = .colon)
    (h : Reflows Moved (On Moved .inside fun _ => True) Q q) :
    Reflows Moved (On Moved .inside K) Q
      (Parser.advance >>= fun _ => Parser.advance >>= fun _ => q) := by
  refine advance_bind (J := fun s => s.kind = .colon) hK ?_ fun _ _ => ?_
  · exact fun s hs => s.kind_advance.trans (hcolon s hs)
  · exact (advance fun s hs => by rw [hs]; rfl).bind fun _ => h

theorem eat {k : TokenKind} (hk : k.staysInLine = true)
    (hyes : Reflows Moved (On Moved .inside fun _ => True) Q yes)
    (hno : Reflows Moved (On Moved .inside K) Q no) :
    Reflows Moved (On Moved .inside K) Q (eat k >>= fun c => if c = true then yes else no) := by
  rw [eat_bind_eq]
  exact .check (TokenKind.isStructural_of_staysInLine hk) ((advance_at hk).bind fun _ => hyes) hno

theorem expect {k : TokenKind} (hk : k.staysInLine = true) (what : String) :
    StaysInside Moved K (expect k what) :=
  .check (TokenKind.isStructural_of_staysInLine hk) (advance_at hk) (.unexpected what)

/-- A needed word with which something may be wrong. -/
theorem expect_placed {k : TokenKind} {f : Token → Parser β} (hk : k.staysInLine = true)
    (what : String)
    (h : ∀ t, Moved t.start t.start → Reflows Moved (On Moved .inside fun _ => True) Q (f t)) :
    Reflows Moved (On Moved .inside K) Q (Parser.expect k what >>= f) := by
  intro d s s' hs
  have hiff := hs.1.kind_iff (.inl (TokenKind.isStructural_of_staysInLine hk))
  have hyes {s : ParserState} (hc : s.kind = k) :
      (Parser.expect k what >>= f) s = (Parser.advance >>= f) s :=
    bind_congr_left ((check_bind_apply _ _ _ s).trans (if_pos hc)) f
  have hno {s : ParserState} (hc : s.kind ≠ k) :
      (Parser.expect k what >>= f) s = (Parser.unexpected what >>= f) s :=
    bind_congr_left ((check_bind_apply _ _ _ s).trans (if_neg hc)) f
  by_cases hc : s.kind = k
  · rw [hyes hc, hyes (hiff.mp hc)]
    exact advance_placed hk h ⟨hs.1, hc, hs.2⟩
  · rw [hno hc, hno fun hc' => hc (hiff.mpr hc')]
    exact (unexpected (Q := fun _ _ _ => False) what).bind (fun _ _ _ _ hfalse => hfalse.elim) hs

theorem finishLine :
    Reflows Moved (Somewhere Moved) (On Moved .between fun _ => True) finishLine := by
  rintro d s s' ⟨st, hs⟩
  have hended {s : ParserState} (hk : s.kind = .dedent ∨ s.kind = .eof) :
      Parser.finishLine s = .ok () s := by
    unfold Parser.finishLine
    rcases hk with hk | hk <;> simp [hk]
  have hword {s : ParserState} (hk : s.kind.isStructural = false ∨ s.kind = .indent) :
      Parser.finishLine s = if s.previous = some .newline ∨ s.previous = some .dedent then .ok () s
        else Parser.unexpected "end of line" s := by
    have hne {k : TokenKind} (h : k.isStructural = true) (h' : k ≠ .indent) : s.kind ≠ k :=
      TokenKind.ne_of_beginsLine hk h h'
    unfold Parser.finishLine
    rw [if_neg (by simpa using hne rfl (by decide)),
      if_neg (by simpa using ⟨hne rfl (by decide), hne rfl (by decide)⟩)]
    simp
  have hboth (hk : s.kind.isStructural = false ∨ s.kind = .indent) :
      Alike Moved d (On Moved .between (fun _ => True) d) (Parser.finishLine s)
        (Parser.finishLine s') := by
    rw [hword hk, hword (hs.beginsLine hk), ← hs.previous_eq hk]
    split_ifs with hprevious
    · refine .ok () ⟨hs.weaken (hs.ne_captured ?_), trivial⟩
      rcases hprevious with hprevious | hprevious <;> simp [atLineStart, hprevious]
    · exact .error (hs.expected _ hk) ⟨_, hs⟩
  cases hs.next with
  | word hk => exact hboth (.inl hk)
  | indent hk => exact hboth (.inr hk)
  | newline hk hk' =>
    rw [finishLine_of_newline hk, finishLine_of_newline hk']
    exact .ok () ⟨hs.advance_newline hk hk', trivial⟩
  | dedent hst hk hk' =>
    rw [hended (.inl hk), hended (.inl hk')]
    exact .ok () ⟨hs.weaken hst, trivial⟩
  | closing hst closes closes' level =>
    have hcloses {s : ParserState} {e : Nat} (he : s.ending.kind = .eof) (h : Closing e s.tokens) :
        ∃ t, Parser.finishLine s = .ok () t ∧ s.Closes e t := by
      obtain hk | hk | ⟨hk, -⟩ := kind_of_closing h
      · exact ⟨s.advance, finishLine_of_newline hk, .advance_newline he hk h⟩
      · exact ⟨s, hended (.inl hk), .refl h⟩
      · exact ⟨s, hended (.inr hk), .refl h⟩
    obtain ⟨t, ht, hclose⟩ := hcloses hs.ending closes
    obtain ⟨t', ht', hclose'⟩ := hcloses hs.ending' closes'
    rw [ht, ht']
    exact .ok () ⟨hs.close hclose hclose' level, trivial⟩

end Reflows

end Parser

namespace LineParser

variable {line line' : LineParser α}

/-- What a line leaves behind in two texts: both have read it and gathered the same, or it has
failed in both. -/
inductive Alike (Moved : Position → Position → Prop) (d : Nat) :
    LineResult α → LineResult α → Prop
  | done {a : α} {t t' : ParserState} (after : t.Reflowed Moved .between d t') :
      Alike Moved d ⟨a, none, t⟩ ⟨a, none, t'⟩
  | failed {a : α} {e e' : ParseProblem} {t t' : ParserState} (problem : e.Alike Moved e')
      (after : t.Somewhere Moved d t') : Alike Moved d ⟨a, some e, t⟩ ⟨a, some e', t'⟩

/-- Where the condition holds at the beginning of a line, the line does the same in two texts. -/
def Reflows (Moved : Position → Position → Prop) (K : ParserState → Prop) (line : LineParser α) :
    Prop :=
  ∀ ⦃d : Nat⦄ ⦃s s' : ParserState⦄ (g : α), On Moved .inside K d s s' →
    Alike Moved d (line g s) (line g s')

namespace Reflows

theorem whole {p : α → Parser α} (h : ∀ a, (p a).ReflowsLine Moved K) :
    (whole p).Reflows Moved K := by
  intro d s s' g hs
  have hp := h g hs
  unfold LineParser.whole
  generalize p g s = left at hp
  generalize p g s' = right at hp
  cases hp with
  | ok a after => exact .done after.1
  | error problem after => exact .failed problem after

/-- What is known where both texts begin the line may be used. -/
theorem knowing {K' : ParserState → Prop} (hK : ∀ d s s', On Moved .inside K d s s' → K' s)
    (h : line.Reflows Moved K') : line.Reflows Moved K :=
  fun d s s' g hs => h g ⟨hs.1, hK d s s' hs⟩

theorem item {p : Parser α} (h : p.ReflowsLine Moved K) : (item p).Reflows Moved K :=
  whole fun items => h.bind fun a => .pure (items ++ [a])

/-- An item that has been read counts even if its line does not end behind it. -/
theorem thenFinish {p : α → Parser α}
    (h : ∀ a, Parser.Reflows Moved (On Moved .inside K) (Somewhere Moved) (p a)) :
    (thenFinish (.whole p)).Reflows Moved K := by
  intro d s s' g hs
  have hp := h g hs
  unfold LineParser.thenFinish LineParser.whole
  generalize p g s = left at hp
  generalize p g s' = right at hp
  cases hp with
  | error problem after => exact .failed problem after
  | @ok t t' a after =>
    have hfinish := Parser.Reflows.finishLine after
    dsimp only
    generalize Parser.finishLine t = left at hfinish
    generalize Parser.finishLine t' = right at hfinish
    cases hfinish with
    | ok _ after => exact .done after.1
    | error problem after => exact .failed problem after

/-- Lines of two sorts that can be told apart at their beginning. -/
theorem choose {g : ParserState → Bool} (hg : ∀ d s s', On Moved .inside K d s s' → g s = g s')
    (h : line.Reflows Moved fun s => g s = true ∧ K s) (h' : line'.Reflows Moved K) :
    LineParser.Reflows Moved K fun a s => if g s = true then line a s else line' a s := by
  intro d s s' a hs
  dsimp only
  rw [← hg d s s' hs]
  split_ifs with hc
  · exact h a ⟨hs.1, hc, hs.2⟩
  · exact h' a hs

end Reflows

end LineParser

namespace ParserState

/-- Two texts go on alike behind a line, whether it has been read or recovered from. -/
theorem Reflowed.resumed {r r' : LineResult α} (h : LineParser.Alike Moved d r r') :
    r.gathered = r'.gathered ∧ r.resumed.Reflowed Moved .between d r'.resumed := by
  cases h with
  | done after => exact ⟨rfl, after⟩
  | failed problem after =>
    obtain ⟨st, hs⟩ := after
    exact ⟨rfl, hs.recover problem⟩

/-- A loop that reads a line of two texts goes on alike behind it. -/
theorem Reflowed.exists_resumed {ρ : Type} {line : LineParser α} {run : α → ParserState → ρ}
    [line.Proceeds] [line.Consumes] (hrun : LineLoop line run)
    (hline : line.Reflows Moved fun _ => True) (h : s.Reflowed Moved st d s') (hst : st ≠ .captured)
    (hk : s.kind.isStructural = false ∨ s.kind = .indent) (hhalted : s.halted = false) (g : α) :
    ∃ a t t', run g s = run a t ∧ run g s' = run a t' ∧ t.remaining < s.remaining ∧
      t.Reflowed Moved .between d t' := by
  have hk' := h.beginsLine hk
  have hs := reads_of_beginsLine h.ending hhalted hk
  have hs' := reads_of_beginsLine h.ending' (h.halted_eq ▸ hhalted) hk'
  have hlt : (line g s).resumed.remaining < s.remaining := remaining_resumed_lt g hs.notEnd hk
  obtain ⟨hgathered, hafter⟩ := Reflowed.resumed (hline g ⟨h.inside hst hk, trivial⟩)
  refine ⟨_, _, _, hrun.resumed hs hlt, ?_, hlt, hafter⟩
  rw [hgathered]
  exact hrun.resumed hs' (remaining_resumed_lt g hs'.notEnd hk')

/-- Behind the last line a block only ends. -/
theorem Closes.runLines (line : LineParser α) {e : Nat} (he : s.ending.kind = .eof)
    (h : Closing e s.tokens) (g : α) :
    ∃ t, s.runLines line g = (g, t) ∧ s.Closes (e - 1) t := by
  have hskip := Closes.skipNewlines he h s.remaining
  have hkind := kind_skipNewlines he (Nat.le_refl s.remaining)
  have he' : (ParserState.skipNewlines s.remaining s).ending.kind = .eof := by rw [hskip.ending, he]
  unfold ParserState.runLines lines
  dsimp only
  obtain hk | hk | ⟨hk, rfl⟩ := kind_of_closing hskip.tokens
  · exact absurd hk hkind
  · obtain ⟨e, rfl, hclose⟩ := Closes.advance_dedent he' hk hskip.tokens
    rw [if_pos (by simpa using hk)]
    exact ⟨_, rfl, hskip.trans hclose⟩
  · rw [if_neg (by simp [hk]), if_pos (by simp [atEnd, hk])]
    exact ⟨_, rfl, hskip⟩

theorem runLines_of_halted {line : LineParser α} (hnewline : s.kind ≠ .newline)
    (hdedent : s.kind ≠ .dedent) (h : s.halted = true) (g : α) : s.runLines line g = (g, s) := by
  unfold runLines lines
  dsimp only
  rw [skipNewlines_of_ne hnewline, if_neg (by simpa using hdedent), if_pos (by simp [h])]

/-- Both texts go through the lines of a block alike, by induction on the tokens to come. -/
theorem Reflowed.runLines {line : LineParser α} [line.Proceeds] [line.Consumes]
    (hline : line.Reflows Moved fun _ => True) (h : s.Reflowed Moved st (d + 1) s')
    (hst : st ≠ .captured) (g : α) :
    (s.runLines line g).1 = (s'.runLines line g).1 ∧
      (s.runLines line g).2.Reflowed Moved .between d (s'.runLines line g).2 := by
  induction hremaining : s.remaining using Nat.strong_induction_on generalizing st s s' g with
  | _ remaining ih =>
  subst hremaining
  have hround (hk : s.kind.isStructural = false ∨ s.kind = .indent) :
      (s.runLines line g).1 = (s'.runLines line g).1 ∧
        (s.runLines line g).2.Reflowed Moved .between d (s'.runLines line g).2 := by
    have hk' := h.beginsLine hk
    cases hhalted : s.halted with
    | true =>
      have hne {s : ParserState} (hk : s.kind.isStructural = false ∨ s.kind = .indent) :
          s.kind ≠ .newline ∧ s.kind ≠ .dedent :=
        ⟨TokenKind.ne_of_beginsLine hk rfl (by decide),
          TokenKind.ne_of_beginsLine hk rfl (by decide)⟩
      rw [runLines_of_halted (hne hk).1 (hne hk).2 hhalted,
        runLines_of_halted (hne hk').1 (hne hk').2 (h.halted_eq ▸ hhalted)]
      obtain ⟨e, htokens, -⟩ := h.tokens
      exact ⟨rfl, { h.weaken hst with
        tokens := ⟨e, htokens.between hst, fun hs => by cases hhalted.symm.trans hs⟩ }⟩
    | false =>
      obtain ⟨a, t, t', hs, hs', hlt, hnext⟩ :=
        h.exists_resumed (lineLoop_runLines line) hline hst hk hhalted g
      rw [hs, hs']
      exact ih _ hlt hnext Stance.noConfusion _ rfl
  cases h.next with
  | word hk => exact hround (.inl hk)
  | indent hk => exact hround (.inr hk)
  | newline hk hk' =>
    have hend := atEnd_of_ne h.ending (by simp [hk])
    rw [runLines_newline hk hend, runLines_newline hk' (atEnd_of_ne h.ending' (by simp [hk']))]
    exact ih _ (advance_remaining_lt hend) (h.advance_newline hk hk')
      Stance.noConfusion g rfl
  | dedent _ hk hk' =>
    rw [runLines_dedent hk, runLines_dedent hk']
    exact ⟨rfl, h.advance_dedent hk hk'⟩
  | closing _ closes closes' level =>
    obtain ⟨t, ht, hclose⟩ := Closes.runLines line h.ending closes g
    obtain ⟨t', ht', hclose'⟩ := Closes.runLines line h.ending' closes' g
    rw [ht, ht']
    exact ⟨rfl, h.close hclose hclose' fun hs => by rw [level hs, Nat.add_sub_cancel]⟩

end ParserState

namespace Parser.Reflows

variable {line : LineParser α} [line.Proceeds] [line.Consumes]

/-- The lines of a block that has begun. -/
theorem blockLines (hline : line.Reflows Moved fun _ => True) (g : α) :
    Reflows Moved (fun d => On Moved .opened (fun _ => True) (d + 1))
      (On Moved .between fun _ => True) (blockLines line g) := by
  rintro d s s' ⟨hs, -⟩
  obtain ⟨hgathered, hafter⟩ := hs.runLines hline nofun g
  rw [blockLines_eq, blockLines_eq, ← ParserState.runLines, ← ParserState.runLines, ← hgathered]
  exact .ok _ ⟨hafter, trivial⟩

/-- The block below a line, if there is one. -/
theorem eatBlock (hline : line.Reflows Moved fun _ => True) (g : α) :
    Reflows Moved (On Moved .between fun _ => True) (On Moved .between fun _ => True)
      (Parser.eat .indent >>= fun c => if c = true then Parser.blockLines line g else pure g) := by
  rintro d s s' ⟨hs, -⟩
  have hiff := hs.kind_iff (k := .indent) (.inr rfl)
  rw [eat_bind_eq, check_bind_apply, check_bind_apply]
  by_cases hk : s.kind = .indent
  · rw [if_pos hk, if_pos (hiff.mp hk)]
    exact blockLines hline g ⟨hs.advance_indent hk, trivial⟩
  · rw [if_neg hk, if_neg fun hk' => hk (hiff.mpr hk')]
    exact .ok g ⟨hs, trivial⟩

/-- The end of a line and the block below it. -/
theorem block (hline : line.Reflows Moved fun _ => True) (g : α) :
    (block line g).ReflowsLine Moved K :=
  (finishLine.mono (fun _ _ _ hs => ⟨_, hs.1⟩) fun _ _ _ hs => hs).bind fun _ => eatBlock hline g

/-- A line that ends behind its last word. -/
theorem finish (a : α) : (Parser.finishLine >>= fun _ => pure a).ReflowsLine Moved K :=
  (finishLine.mono (fun _ _ _ hs => ⟨_, hs.1⟩) fun _ _ _ hs => hs).bind fun _ => .pure a

end Parser.Reflows

end AgentScript
