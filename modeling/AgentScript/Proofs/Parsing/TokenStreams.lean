import AgentScript.Proofs.Parsing.Course

/-!
# Token streams stay among their tokens

A stream is moved by advancing and by going back to a marker, which may have been taken on another
stream. Whatever moves follow each other, the position stays in the list: every look ahead shows a
token of it, what is remembered are tokens before the position, and going back to a marker of the
stream itself restores it. The state of a parse is such a stream cut at its position: wherever a
parse leads, it sees what the stream of its tokens shows.
-/
namespace AgentScript

namespace TokenStream

/-- The operations that move a stream; all others only look at it. -/
inductive Move
  | advance
  /-- The marker may be that of another stream. -/
  | reset (m : Marker)

def move (s : TokenStream) : Move → TokenStream
  | .advance => s.advance.2
  | .reset m => s.reset m

def moved (s : TokenStream) (moves : List Move) : TokenStream := moves.foldl move s

/-- The tokens before the position. -/
def passed (s : TokenStream) : List Token := s.tokens.take s.position

variable {s : TokenStream}

/-- The list ends with the end of input, and the position is that of one of its tokens. -/
structure InBounds (s : TokenStream) : Prop where
  ending : ∃ last, s.tokens.getLast? = some last ∧ last.kind = .eof
  position_le : s.position ≤ s.lastIndex

theorem inBounds_ofTokens (tokens : List Token) : (ofTokens tokens).InBounds :=
  ⟨Token.getLast?_terminated tokens, Nat.zero_le _⟩

theorem tokens_move (s : TokenStream) (m : Move) : (s.move m).tokens = s.tokens := by
  cases m with
  | advance =>
    unfold move advance
    dsimp only
    split <;> rfl
  | reset m => rfl

theorem InBounds.move (h : s.InBounds) (m : Move) : (s.move m).InBounds := by
  have htokens := s.tokens_move m
  refine ⟨htokens ▸ h.ending, ?_⟩
  rw [lastIndex, htokens]
  cases m with
  | advance =>
    change s.advance.2.position ≤ s.lastIndex
    unfold TokenStream.advance
    dsimp only
    split
    · next hbefore => exact hbefore
    · exact h.position_le
  | reset m => exact Nat.min_le_right _ _

theorem tokens_moved (s : TokenStream) (moves : List Move) : (s.moved moves).tokens = s.tokens := by
  induction moves generalizing s with
  | nil => rfl
  | cons m moves ih => exact (ih (s.move m)).trans (s.tokens_move m)

theorem InBounds.moved (h : s.InBounds) (moves : List Move) : (s.moved moves).InBounds := by
  induction moves generalizing s with
  | nil => exact h
  | cons m moves ih => exact ih (h.move m)

theorem InBounds.lastIndex_lt (h : s.InBounds) : s.lastIndex < s.tokens.length := by
  obtain ⟨last, hlast, -⟩ := h.ending
  have hpos : 0 < s.tokens.length := List.length_pos_of_mem (List.mem_of_getLast? hlast)
  unfold lastIndex
  omega

/-- Looking ahead shows a token of the list. -/
theorem InBounds.getElem?_peek (h : s.InBounds) (offset : Nat) :
    s.tokens[min (s.position + offset) s.lastIndex]? = some (s.peek offset) := by
  have hindex : min (s.position + offset) s.lastIndex < s.tokens.length :=
    Nat.lt_of_le_of_lt (Nat.min_le_right _ _) h.lastIndex_lt
  rw [peek, get, List.getD_eq_getElem?_getD, List.getElem?_eq_getElem hindex, Option.getD_some]

/-- The sum of two 64-bit numbers, or the greatest of these where the sum is beyond it. -/
def saturatingSum (a b : UInt64) : UInt64 := if a + b < a then .ofNat (limit64 - 1) else a + b

/-- The place that a look ahead goes to, in 64-bit numbers. -/
def wordIndex (position offset lastIndex : UInt64) : UInt64 :=
  if saturatingSum position offset ≤ lastIndex then saturatingSum position offset else lastIndex

theorem toNat_saturatingSum (a b : UInt64) :
    (saturatingSum a b).toNat = min (a.toNat + b.toNat) (limit64 - 1) := by
  have ha := a.toNat_lt
  have hb := b.toNat_lt
  unfold saturatingSum limit64
  split <;> next h =>
    rw [UInt64.lt_iff_toNat_lt, UInt64.toNat_add] at h
    simp
    omega

theorem toNat_wordIndex (position offset lastIndex : UInt64) :
    (wordIndex position offset lastIndex).toNat =
      min (position.toNat + offset.toNat) lastIndex.toNat := by
  have hlast := lastIndex.toNat_lt
  have hsum := toNat_saturatingSum position offset
  unfold wordIndex
  unfold limit64 at hsum
  split <;> next h =>
    rw [UInt64.le_iff_toNat_le] at h
    omega

/-- What is shown by looking does not depend on whether the place is computed in 64-bit numbers. -/
theorem InBounds.getElem?_wordIndex (h : s.InBounds) (hsize : s.tokens.length ≤ limit64)
    (offset : UInt64) :
    s.tokens[(wordIndex (.ofNat s.position) offset (.ofNat s.lastIndex)).toNat]? =
      some (s.peek offset.toNat) := by
  have hlast := h.lastIndex_lt
  have hposition := h.position_le
  have hsize : s.tokens.length ≤ UInt64.size := hsize
  rw [toNat_wordIndex, UInt64.toNat_ofNat_of_lt' (by omega), UInt64.toNat_ofNat_of_lt' (by omega)]
  exact h.getElem?_peek _

theorem InBounds.getElem?_advance (h : s.InBounds) :
    s.tokens[s.position]? = some s.advance.1 := by
  have hcurrent := h.getElem?_peek 0
  rwa [Nat.add_zero, Nat.min_eq_left h.position_le] at hcurrent

theorem advance_of_lt (h : s.position < s.lastIndex) :
    s.advance.2 = { s with position := s.position + 1 } := if_pos h

theorem advance_of_last (h : s.position = s.lastIndex) : s.advance.2 = s :=
  if_neg (h ▸ Nat.lt_irrefl _)

theorem InBounds.previous_eq (h : s.InBounds) : s.previous? = s.passed.getLast? := by
  have hlast := h.lastIndex_lt
  have hposition := h.position_le
  have hlength : s.passed.length = s.position := by
    rw [passed, List.length_take, Nat.min_eq_left (by omega)]
  unfold previous?
  split
  · next hzero => simp [passed, hzero]
  · next hzero =>
    rw [List.getLast?_eq_getElem?, hlength, passed, List.getElem?_take_of_lt (by omega)]

theorem lastSignificant_eq (s : TokenStream) :
    s.lastSignificant? = (s.passed.filter fun t => !t.isStructural).getLast? := by
  rw [lastSignificant?, ← List.head?_filter, List.filter_reverse, List.head?_reverse]
  rfl

/-- What a stream shows. -/
structure Shows (s : TokenStream) : Prop where
  /-- A look ahead shows a token of the list, behind its end the last one. -/
  peek : ∀ offset, s.tokens[min (s.position + offset) s.lastIndex]? = some (s.peek offset)
  /-- The place of that token can be computed in 64-bit numbers, whatever the offset is. -/
  peekWord : s.tokens.length ≤ limit64 → ∀ offset : UInt64,
    s.tokens[(wordIndex (.ofNat s.position) offset (.ofNat s.lastIndex)).toNat]? =
      some (s.peek offset.toNat)
  /-- Advancing answers with the token at the position. -/
  advance : s.tokens[s.position]? = some s.advance.1
  moves : s.position < s.lastIndex → s.advance.2 = { s with position := s.position + 1 }
  stays : s.position = s.lastIndex → s.advance.2 = s
  /-- What is remembered are tokens that have been passed. -/
  previous : s.previous? = s.passed.getLast?
  lastSignificant : s.lastSignificant? = (s.passed.filter fun t => !t.isStructural).getLast?

theorem InBounds.shows (h : s.InBounds) : s.Shows where
  peek := h.getElem?_peek
  peekWord := h.getElem?_wordIndex
  advance := h.getElem?_advance
  moves := advance_of_lt
  stays := advance_of_last
  previous := h.previous_eq
  lastSignificant := s.lastSignificant_eq

/-- Going back to a marker of the stream undoes all moves since. -/
theorem InBounds.reset_mark (h : s.InBounds) (later : List Move) :
    (s.moved later).reset s.mark = s := by
  have htokens := s.tokens_moved later
  have hposition : min s.position s.lastIndex = s.position := Nat.min_eq_left h.position_le
  unfold reset lastIndex
  rw [htokens]
  exact congrArg (TokenStream.mk s.tokens) hposition

/-- Whatever tokens a stream is made of and however it is moved, also to markers of other streams,
its list is kept and ends with the end of input, its position is that of a token, every look shows
the token that it should, and going back to a marker taken on the stream restores it. -/
theorem streams_inBounds (tokens : List Token) (moves : List Move) :
    let s := (ofTokens tokens).moved moves
    s.tokens = Token.terminated tokens ∧ s.InBounds ∧ s.Shows ∧
      ∀ later : List Move, (s.moved later).reset s.mark = s := by
  have h : ((ofTokens tokens).moved moves).InBounds := (inBounds_ofTokens tokens).moved moves
  exact ⟨tokens_moved _ _, h, h.shows, h.reset_mark⟩

end TokenStream

namespace TokenStream

variable {s : TokenStream} {t : Token} {later : List Token}

/-- What has been passed after a move is what had been passed before, and the token there. -/
theorem passed_succ (h : s.tokens.drop s.position = t :: later) :
    (⟨s.tokens, s.position + 1⟩ : TokenStream).passed = s.passed ++ [t] := by
  change s.tokens.take (s.position + 1) = s.tokens.take s.position ++ [t]
  rw [List.take_add, h, List.take_succ_cons, List.take_zero]

end TokenStream

namespace ParserState

open TokenStream

/-- The state knows of the tokens passed what a stream remembers, and the tokens to come are those
from the position of the stream on. -/
structure ReadsFrom (p : ParserState) (s : TokenStream) : Prop where
  previous : p.previous = s.previous?.map (·.kind)
  lastEnd : p.lastEnd = s.lastSignificant?.map (·.stop)
  toCome : p.tokens = s.tokens.drop s.position

theorem readsFrom_ofTokens (tokens : List Token) (cap : Nat) :
    (ofTokens tokens cap).ReadsFrom (.ofTokens tokens) where
  previous := rfl
  lastEnd := rfl
  toCome := by
    have hne := Token.terminated_ne_nil tokens
    change (Token.terminated tokens).dropLast ++ [(Token.terminated tokens).getLastD _] =
      Token.terminated tokens
    rw [List.getLastD_eq_getLast?, List.getLast?_eq_some_getLast hne]
    exact List.dropLast_concat_getLast hne

variable {p q : ParserState} {s : TokenStream}

theorem ReadsFrom.advance (h : p.ReadsFrom s) (hs : s.InBounds) :
    p.advance.ReadsFrom s.advance.2 := by
  have htoCome := h.toCome
  have hlength := congrArg List.length h.toCome
  have hlast : s.lastIndex = s.tokens.length - 1 := rfl
  have hbelow := hs.lastIndex_lt
  rw [List.length_drop, tokens, List.length_append, List.length_singleton] at hlength
  unfold ParserState.advance
  split
  · next hrest =>
    rw [hrest, List.length_nil] at hlength
    rw [advance_of_last (by omega)]
    exact h
  · next t rest hrest =>
    rw [hrest, List.length_cons] at hlength
    rw [tokens, hrest] at htoCome
    have hmoved : s.advance.2 = ⟨s.tokens, s.position + 1⟩ := advance_of_lt (by omega)
    have hpassed : s.advance.2.passed = s.passed ++ [t] := hmoved ▸ passed_succ htoCome.symm
    constructor
    case previous =>
      have hnext : s.advance.2.InBounds := hs.move .advance
      rw [hnext.previous_eq, hpassed, List.getLast?_concat]
      rfl
    case lastEnd =>
      rw [lastSignificant_eq, hpassed, List.filter_append]
      cases hlayout : t.isStructural <;> simp [hlayout, h.lastEnd, lastSignificant_eq]
    case toCome =>
      rw [hmoved]
      change rest ++ [p.ending] = s.tokens.drop (s.position + 1)
      rw [← List.tail_drop, ← htoCome]
      rfl

theorem ReadsFrom.report (h : p.ReadsFrom s) (problem : ParseProblem) :
    (p.report problem).ReadsFrom s := by
  unfold ParserState.report
  split
  · exact h
  · exact ⟨h.previous, h.lastEnd, h.toCome⟩

theorem getElem?_ahead (p : ParserState) (offset : Nat) :
    p.tokens[min offset p.rest.length]? = some (p.ahead offset) := by
  unfold tokens ahead
  rw [List.getD_eq_getElem?_getD]
  by_cases hinside : offset < p.rest.length
  · rw [Nat.min_eq_left (Nat.le_of_lt hinside), List.getElem?_append_left hinside,
      List.getElem?_eq_getElem hinside, Option.getD_some]
  · rw [Nat.min_eq_right (by omega), List.getElem?_concat_length,
      List.getElem?_eq_none (by omega), Option.getD_none]

/-- Looking ahead, the state sees what the stream shows. -/
theorem ReadsFrom.ahead_eq (h : p.ReadsFrom s) (hs : s.InBounds) (offset : Nat) :
    p.ahead offset = s.peek offset := by
  have hlength := congrArg List.length h.toCome
  have hlast : s.lastIndex = s.tokens.length - 1 := rfl
  rw [List.length_drop, tokens, List.length_append, List.length_singleton] at hlength
  have hplace : s.position + min offset p.rest.length = min (s.position + offset) s.lastIndex := by
    omega
  have hahead := p.getElem?_ahead offset
  rw [h.toCome, List.getElem?_drop, hplace, hs.getElem?_peek] at hahead
  exact (Option.some.inj hahead).symm

/-- Wherever a parse leads, its state reads from the stream of its tokens, moved on. -/
theorem Leads.exists_moved (h : p.Leads q) (hp : p.ReadsFrom s) (hs : s.InBounds) :
    ∃ moves, q.ReadsFrom (s.moved moves) := by
  induction h with
  | refl => exact ⟨[], hp⟩
  | @advance t _ ih =>
    obtain ⟨moves, ht⟩ := ih
    have hnext := ht.advance (hs.moved moves)
    refine ⟨moves ++ [.advance], ?_⟩
    rw [moved, List.foldl_append]
    exact hnext
  | report _ problem ih =>
    obtain ⟨moves, ht⟩ := ih
    exact ⟨moves, ht.report problem⟩

/-- So every look of a parse is a look at the stream. -/
theorem Leads.exists_stream {tokens : List Token} {cap : Nat} (h : (ofTokens tokens cap).Leads q) :
    ∃ moves, q.ReadsFrom ((TokenStream.ofTokens tokens).moved moves) ∧
      ∀ offset, q.ahead offset = ((TokenStream.ofTokens tokens).moved moves).peek offset := by
  have hs := inBounds_ofTokens tokens
  obtain ⟨moves, hq⟩ := h.exists_moved (readsFrom_ofTokens tokens cap) hs
  exact ⟨moves, hq, hq.ahead_eq (hs.moved moves)⟩

end ParserState

end AgentScript
