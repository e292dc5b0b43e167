import AgentScript.Grammar.File
import Mathlib.Tactic.Common

/-!
# The course of a parse

Parsing only ever passes tokens and reports problems. A state leads to another if a parse
can get from the one to the other, so whatever passing and reporting keep holds wherever a
parse leads. Looking at the tokens to come never changes the state.
-/
namespace AgentScript

namespace TokenKind

variable {k k' : TokenKind}

/-- A word is no layout token. -/
theorem ne_of_isStructural (h : k.isStructural = false) (h' : k'.isStructural = true) : k ≠ k' := by
  rintro rfl
  exact nomatch h'.symm.trans h

/-- What a line may begin with, a word or a block, is no other layout token. -/
theorem ne_of_beginsLine (h : k.isStructural = false ∨ k = .indent) (h' : k'.isStructural = true)
    (hindent : k' ≠ .indent) : k ≠ k' := by
  rcases h with h | rfl
  · exact ne_of_isStructural h h'
  · exact hindent.symm

end TokenKind

namespace ParserState

@[simp] theorem advance_ending (s : ParserState) : s.advance.ending = s.ending := by
  unfold advance
  split <;> rfl

@[simp] theorem advance_problems (s : ParserState) : s.advance.problems = s.problems := by
  unfold advance
  split <;> rfl

@[simp] theorem advance_cap (s : ParserState) : s.advance.cap = s.cap := by
  unfold advance
  split <;> rfl

@[simp] theorem advance_rest (s : ParserState) : s.advance.rest = s.rest.tail := by
  unfold advance
  split <;> simp_all

@[simp] theorem report_ending (s : ParserState) (p : ParseProblem) :
    (s.report p).ending = s.ending := by
  unfold report
  split <;> rfl

@[simp] theorem report_cap (s : ParserState) (p : ParseProblem) : (s.report p).cap = s.cap := by
  unfold report
  split <;> rfl

/-- Without a cap no parse is halted. -/
theorem halted_of_uncapped {s : ParserState} (h : s.cap = 0) : s.halted = false := by
  simp [halted, h]

/-- The second state comes out of the first by passing tokens and reporting problems. -/
inductive Leads (s : ParserState) : ParserState → Prop
  | refl : Leads s s
  | advance {t : ParserState} (h : Leads s t) : Leads s t.advance
  | report {t : ParserState} (h : Leads s t) (p : ParseProblem) : Leads s (t.report p)

namespace Leads

variable {s t u : ParserState}

protected theorem trans (h : s.Leads t) (h' : t.Leads u) : s.Leads u := by
  induction h' with
  | refl => exact h
  | advance _ ih => exact ih.advance
  | report _ p ih => exact ih.report p

theorem rest_isSuffix (h : s.Leads t) : t.rest <:+ s.rest := by
  induction h with
  | refl => exact List.suffix_refl _
  | advance _ ih =>
    rw [advance_rest]
    exact (List.tail_suffix _).trans ih
  | report _ p ih => simpa using ih

theorem remaining_le (h : s.Leads t) : t.remaining ≤ s.remaining := h.rest_isSuffix.length_le

theorem ending_eq (h : s.Leads t) : t.ending = s.ending := by
  induction h with
  | refl => rfl
  | advance _ ih => simpa using ih
  | report _ p ih => simpa using ih

/-- Where no token has been passed, the rest is the same. -/
theorem rest_eq_of_remaining_eq (h : s.Leads t) (heq : t.remaining = s.remaining) :
    t.rest = s.rest := h.rest_isSuffix.eq_of_length heq

end Leads

/-- Behind the next token stands the one after it. -/
theorem current_advance (s : ParserState) : s.advance.current = s.ahead 1 := by
  unfold current ahead advance
  cases hr : s.rest with
  | nil => simp [hr]
  | cons t rest => simp

theorem kind_advance (s : ParserState) : s.advance.kind = (s.ahead 1).kind := by
  rw [kind, current_advance]

/-- The tokens to come with the end of input. -/
def tokens (s : ParserState) : List Token := s.rest ++ [s.ending]

section

variable {s : ParserState} {x y : Token} {l : List Token}

theorem current_of_tokens (h : s.tokens = x :: l) : s.current = x := by
  unfold tokens at h
  unfold current ahead
  cases hr : s.rest with
  | nil =>
    rw [hr] at h
    cases h
    rfl
  | cons a rest =>
    rw [hr] at h
    cases h
    rfl

theorem kind_of_tokens (h : s.tokens = x :: l) : s.kind = x.kind := by
  rw [kind, current_of_tokens h]

theorem ahead_one_of_tokens (h : s.tokens = x :: y :: l) : s.ahead 1 = y := by
  unfold tokens at h
  unfold ahead
  cases hr : s.rest with
  | nil => simp [hr] at h
  | cons a rest =>
    cases rest with
    | nil =>
      rw [hr] at h
      cases h
      rfl
    | cons c rest =>
      rw [hr] at h
      cases h
      rfl

/-- A token before the end of input can be passed. -/
theorem advance_of_tokens (he : s.ending.kind = .eof) (h : s.tokens = x :: l) (hx : x.kind ≠ .eof) :
    s.advance.tokens = l ∧ s.advance.previous = some x.kind ∧
      s.advance.lastEnd = if x.isStructural then s.lastEnd else some x.stop := by
  unfold tokens at h ⊢
  unfold advance
  cases hr : s.rest with
  | nil =>
    rw [hr] at h
    cases h
    exact absurd he hx
  | cons a rest =>
    rw [hr] at h
    cases h
    exact ⟨rfl, rfl, rfl⟩

theorem exists_tokens (s : ParserState) : ∃ l, s.tokens = s.current :: l := by
  cases ht : s.tokens with
  | nil => simp [tokens] at ht
  | cons x l => exact ⟨l, by rw [current_of_tokens ht]⟩

theorem atEnd_of_ne (he : s.ending.kind = .eof) (hk : s.kind ≠ .eof) : s.atEnd = false := by
  refine Bool.eq_false_iff.mpr fun hend => hk ?_
  have hrest : s.rest = [] := by simpa [atEnd, hk] using hend
  have htokens : s.tokens = [s.ending] := by rw [tokens, hrest, List.nil_append]
  rw [kind_of_tokens htokens, he]

end

theorem problems_report (s : ParserState) (p : ParseProblem) :
    (s.report p).problems = if s.halted then s.problems else s.problems.push p := by
  unfold report
  split_ifs <;> rfl

theorem tokens_report (s : ParserState) (p : ParseProblem) : (s.report p).tokens = s.tokens := by
  unfold report tokens
  split <;> rfl

/-- A parse of tokens that end properly begins with them. -/
theorem tokens_ofTokens {body : List Token} {last : Token} (hlast : last.kind = .eof) (cap : Nat) :
    (ofTokens (body ++ [last]) cap).tokens = body ++ [last] := by
  have hterminated : Token.terminated (body ++ [last]) = body ++ [last] :=
    Token.terminated_of_eof List.getLast?_concat hlast
  have hrest : (ofTokens (body ++ [last]) cap).rest = body := by
    change (Token.terminated (body ++ [last])).dropLast = body
    rw [hterminated, List.dropLast_concat]
  have hending : (ofTokens (body ++ [last]) cap).ending = last := by
    change (Token.terminated (body ++ [last])).getLastD _ = last
    rw [hterminated, List.getLastD_concat]
  rw [tokens, hrest, hending]

theorem Leads.tokens_isSuffix {s t : ParserState} (h : s.Leads t) : t.tokens <:+ s.tokens := by
  obtain ⟨passed, hpassed⟩ := h.rest_isSuffix
  refine ⟨passed, ?_⟩
  rw [tokens, tokens, h.ending_eq, ← hpassed, List.append_assoc]

/-- Where nothing has been passed, the next token is the same. -/
theorem Leads.current_eq {s t : ParserState} (h : s.Leads t) (hrest : t.rest = s.rest) :
    t.current = s.current := by
  rw [current, current, ahead, ahead, hrest, h.ending_eq]

theorem leads_advance (s : ParserState) : s.Leads s.advance := .advance .refl

theorem leads_report (s : ParserState) (p : ParseProblem) : s.Leads (s.report p) := .report .refl p

theorem leads_skipLevels (fuel depth : Nat) (s : ParserState) :
    s.Leads (skipLevels fuel depth s) := by
  induction fuel generalizing depth s with
  | zero => exact .refl
  | succ fuel ih =>
    cases depth with
    | zero => exact .refl
    | succ depth =>
      unfold skipLevels
      split_ifs
      · exact .refl
      · split
        · exact s.leads_advance.trans (ih _ _)
        · exact s.leads_advance.trans (ih _ _)
        · exact s.leads_advance.trans (ih _ _)

theorem leads_skipBlock (s : ParserState) : s.Leads s.skipBlock := by
  unfold skipBlock
  split_ifs
  · exact s.leads_advance.trans (leads_skipLevels _ _ _)
  · exact .refl

theorem leads_skipLine (moved : Bool) (fuel : Nat) (s : ParserState) :
    s.Leads (skipLine moved fuel s) := by
  induction fuel generalizing moved s with
  | zero => exact .refl
  | succ fuel ih =>
    unfold skipLine
    split
    · exact .refl
    · exact .refl
    · exact s.leads_skipBlock
    · exact s.leads_advance.trans (leads_skipBlock _)
    · split_ifs
      · exact .refl
      · exact s.leads_advance.trans (ih _ _)

/-- Skipping reports nothing. -/
theorem problems_skipLevels (fuel depth : Nat) (s : ParserState) :
    (skipLevels fuel depth s).problems = s.problems := by
  induction fuel generalizing depth s with
  | zero => rfl
  | succ fuel ih =>
    cases depth with
    | zero => rfl
    | succ depth =>
      unfold skipLevels
      split_ifs
      · rfl
      · split <;> rw [ih, advance_problems]

theorem problems_skipBlock (s : ParserState) : s.skipBlock.problems = s.problems := by
  unfold skipBlock
  split_ifs
  · rw [problems_skipLevels, advance_problems]
  · rfl

theorem problems_skipLine (moved : Bool) (fuel : Nat) (s : ParserState) :
    (skipLine moved fuel s).problems = s.problems := by
  induction fuel generalizing moved s with
  | zero => rfl
  | succ fuel ih =>
    unfold skipLine
    split
    · rfl
    · rfl
    · exact problems_skipBlock s
    · rw [problems_skipBlock, advance_problems]
    · split_ifs
      · rfl
      · rw [ih, advance_problems]

theorem problems_skipNewlines (fuel : Nat) (s : ParserState) :
    (skipNewlines fuel s).problems = s.problems := by
  induction fuel generalizing s with
  | zero => rfl
  | succ fuel ih =>
    unfold skipNewlines
    split_ifs
    · rw [ih, advance_problems]
    · rfl

theorem leads_recover (s : ParserState) (p : ParseProblem) : s.Leads (s.recover p) :=
  (s.leads_report p).trans (leads_skipLine _ _ _)

theorem skipNewlines_of_ne {s : ParserState} (hk : s.kind ≠ .newline) (fuel : Nat) :
    skipNewlines fuel s = s := by
  cases fuel with
  | zero => rfl
  | succ fuel => rw [skipNewlines, if_neg (by simpa using hk)]

theorem leads_skipNewlines (fuel : Nat) (s : ParserState) : s.Leads (skipNewlines fuel s) := by
  induction fuel generalizing s with
  | zero => exact .refl
  | succ fuel ih =>
    unfold skipNewlines
    split_ifs
    · exact s.leads_advance.trans (ih _)
    · exact .refl

end ParserState

open ParserState

namespace Parser

variable {α β : Type}

/-- The state that a parser leaves, whether it succeeds or not. -/
def after (p : Parser α) (s : ParserState) : ParserState :=
  match p s with
  | .ok _ t => t
  | .error _ t => t

/-- The parser only passes tokens and reports problems. -/
class Proceeds (p : Parser α) : Prop where
  leads : ∀ s : ParserState, s.Leads (p.after s)

theorem leads_of_ok (p : Parser α) [h : Proceeds p] {s t : ParserState} {a : α}
    (heq : p s = .ok a t) : s.Leads t := by
  have := h.leads s
  rwa [after, heq] at this

theorem leads_of_error (p : Parser α) [h : Proceeds p] {s t : ParserState} {e : ParseProblem}
    (heq : p s = .error e t) : s.Leads t := by
  have := h.leads s
  rwa [after, heq] at this

/-- A parser followed by another succeeds where both do. -/
theorem bind_eq_ok {p : Parser α} {f : α → Parser β} {s u : ParserState} {b : β} :
    (p >>= f) s = .ok b u ↔ ∃ a t, p s = .ok a t ∧ f a t = .ok b u := by
  change (EStateM.bind p f) s = _ ↔ _
  unfold EStateM.bind
  cases h : p s with
  | ok a t => simp
  | error e t => simp

theorem bind_of_ok {p : Parser α} (f : α → Parser β) {s t : ParserState} {a : α}
    (h : p s = .ok a t) : (p >>= f) s = f a t := by
  change (EStateM.bind p f) s = _
  rw [EStateM.bind, h]

theorem bind_of_error {p : Parser α} (f : α → Parser β) {s t : ParserState} {e : ParseProblem}
    (h : p s = .error e t) : (p >>= f) s = .error e t := by
  change (EStateM.bind p f) s = _
  rw [EStateM.bind, h]

theorem ofNode_eq_ok {node : Except NodeError α} {location : Location} {s t : ParserState} {a : α} :
    ofNode node location s = .ok a t ↔ node = .ok a ∧ t = s := by
  cases node with
  | ok b => simp [ofNode, Pure.pure, EStateM.pure, eq_comm]
  | error e => simp [ofNode, fail]

theorem isStructural_of_isWordlike {k : TokenKind} (h : k.isWordlike = true) :
    k.isStructural = false := by
  cases k with
  | indent => exact nomatch h
  | dedent => exact nomatch h
  | newline => exact nomatch h
  | eof => exact nomatch h
  | _ => rfl

theorem isStructural_of_ofToken? {t : Token} {o : Operand} (h : Operand.ofToken? t = some o) :
    t.kind.isStructural = false := by
  unfold Operand.ofToken? at h
  split at h
  · next hk =>
    rw [hk]
    rfl
  · next hk =>
    rw [hk]
    rfl
  · split_ifs at h with hword
    exact isStructural_of_isWordlike hword

theorem Proceeds.bind {p : Parser α} {f : α → Parser β} [h : Proceeds p]
    (h' : ∀ a, Proceeds (f a)) : Proceeds (p >>= f) := by
  constructor
  intro s
  cases heq : p s with
  | ok a t =>
    rw [after, bind_of_ok f heq]
    exact (p.leads_of_ok heq).trans ((h' a).leads t)
  | error e t =>
    rw [after, bind_of_error f heq]
    exact p.leads_of_error heq

instance proceeds_bind {p : Parser α} {f : α → Parser β} [Proceeds p]
    [h : ∀ a, Proceeds (f a)] : Proceeds (p >>= f) := .bind h

instance proceeds_ite {c : Prop} [Decidable c] {p q : Parser α} [h : Proceeds p]
    [h' : Proceeds q] : Proceeds (if c then p else q) := by
  split_ifs
  · exact h
  · exact h'

instance proceeds_pure (a : α) : Proceeds (pure a : Parser α) := ⟨fun _ => .refl⟩

instance proceeds_look (f : ParserState → α) : Proceeds (look f) := ⟨fun _ => .refl⟩

instance proceeds_peek : Proceeds peek := ⟨fun _ => .refl⟩

instance proceeds_kind : Proceeds kind := ⟨fun _ => .refl⟩

instance proceeds_check (k : TokenKind) : Proceeds (check k) := ⟨fun _ => .refl⟩

instance proceeds_checkAhead (offset : Nat) (k : TokenKind) : Proceeds (checkAhead offset k) :=
  ⟨fun _ => .refl⟩

instance proceeds_spanFrom (start : Position) : Proceeds (spanFrom start) := ⟨fun _ => .refl⟩

instance proceeds_remaining : Proceeds remaining := proceeds_look _

instance proceeds_lineLeft : Proceeds lineLeft := proceeds_look _

instance proceeds_advance : Proceeds advance := ⟨ParserState.leads_advance⟩

instance proceeds_eat (k : TokenKind) : Proceeds (eat k) := by
  constructor
  intro s
  unfold after eat
  split_ifs
  · exact s.leads_advance
  · exact .refl

instance proceeds_fail (cause : ParseCause) (location : Location) :
    Proceeds (fail cause location : Parser α) := ⟨fun _ => .refl⟩

instance proceeds_failHere (cause : Token → ParseCause) : Proceeds (failHere cause : Parser α) :=
  ⟨fun _ => .refl⟩

instance proceeds_unexpected (what : String) : Proceeds (unexpected what : Parser α) :=
  ⟨fun _ => .refl⟩

instance proceeds_report (cause : ParseCause) (location : Location) :
    Proceeds (report cause location) := ⟨fun s => s.leads_report _⟩

instance proceeds_ofNode (node : Except NodeError α) (location : Location) :
    Proceeds (ofNode node location) := by
  cases node with
  | ok a => exact proceeds_pure a
  | error e => exact proceeds_fail _ _

instance proceeds_finishLine : Proceeds finishLine := by
  constructor
  intro s
  unfold after finishLine
  split_ifs
  · exact s.leads_advance
  · exact .refl
  · exact .refl
  · exact .refl

end Parser

/-- Whether it fails or not, the line only passes tokens and reports problems. -/
class LineParser.Proceeds {α : Type} (line : LineParser α) : Prop where
  leads : ∀ (gathered : α) (s : ParserState), s.Leads (line gathered s).state

namespace LineParser

variable {α : Type}

theorem whole_of_ok {p : α → Parser α} {gathered a : α} {s t : ParserState}
    (h : p gathered s = .ok a t) : whole p gathered s = ⟨a, none, t⟩ := by
  rw [whole, h]

theorem whole_of_error {p : α → Parser α} {gathered : α} {e : ParseProblem} {s t : ParserState}
    (h : p gathered s = .error e t) : whole p gathered s = ⟨gathered, some e, t⟩ := by
  rw [whole, h]

theorem item_of_ok {p : Parser α} {items : List α} {a : α} {s t : ParserState}
    (h : p s = .ok a t) : item p items s = ⟨items ++ [a], none, t⟩ :=
  whole_of_ok (by rw [Parser.bind_of_ok _ h]; rfl)

theorem item_of_error {p : Parser α} {items : List α} {e : ParseProblem} {s t : ParserState}
    (h : p s = .error e t) : item p items s = ⟨items, some e, t⟩ :=
  whole_of_error (Parser.bind_of_error _ h)

instance proceeds_whole {p : α → Parser α} [h : ∀ a, Parser.Proceeds (p a)] :
    Proceeds (whole p) := by
  constructor
  intro gathered s
  have hleads := (h gathered).leads s
  unfold whole
  unfold Parser.after at hleads
  cases heq : p gathered s with
  | ok a t => rwa [heq] at hleads
  | error e t => rwa [heq] at hleads

instance proceeds_item {p : Parser α} [Parser.Proceeds p] : Proceeds (item p) := proceeds_whole

/-- Behind a line that has been read its end is. -/
theorem thenFinish_of_done {line : LineParser α} {gathered a : α} {s t : ParserState}
    (h : line gathered s = ⟨a, none, t⟩) :
    thenFinish line gathered s = whole (fun a => Parser.finishLine >>= fun _ => pure a) a t := by
  cases heq : Parser.finishLine t with
  | ok u v =>
    have hthen : thenFinish line gathered s = ⟨a, none, v⟩ := by simp only [thenFinish, h, heq]
    exact hthen.trans (whole_of_ok (Parser.bind_of_ok _ heq)).symm
  | error e v =>
    have hthen : thenFinish line gathered s = ⟨a, some e, v⟩ := by simp only [thenFinish, h, heq]
    exact hthen.trans (whole_of_error (Parser.bind_of_error _ heq)).symm

theorem thenFinish_of_failed {line : LineParser α} {gathered a : α} {e : ParseProblem}
    {s t : ParserState} (h : line gathered s = ⟨a, some e, t⟩) :
    thenFinish line gathered s = ⟨a, some e, t⟩ := by
  rw [thenFinish, h]

instance proceeds_thenFinish {line : LineParser α} [h : Proceeds line] :
    Proceeds (thenFinish line) := by
  constructor
  intro gathered s
  have hline := h.leads gathered s
  have hfinish := Parser.proceeds_finishLine.leads (line gathered s).state
  unfold thenFinish
  unfold Parser.after at hfinish
  dsimp only
  split
  · exact hline
  · split
    · next heq =>
      rw [heq] at hfinish
      exact hline.trans hfinish
    · next heq =>
      rw [heq] at hfinish
      exact hline.trans hfinish

end LineParser

namespace ParserState

variable {α : Type} (line : LineParser α) [h : line.Proceeds]

omit h in
/-- A round recovers from a failed line, and passes a token if nothing else does. -/
theorem lineRound_state (gathered : α) (s : ParserState) :
    ∃ after, (line gathered s).state.Leads after ∧ (s.lineRound line gathered).2 =
      if after.remaining == s.remaining && after.kind != .dedent then after.advance else after := by
  cases hproblem : (line gathered s).problem with
  | none => exact ⟨(line gathered s).state, .refl, by simp only [lineRound, hproblem]⟩
  | some p =>
    exact ⟨(line gathered s).state.recover p, leads_recover _ _, by simp only [lineRound, hproblem]⟩

omit h in
theorem leads_lineRound_line (gathered : α) (s : ParserState) :
    (line gathered s).state.Leads (s.lineRound line gathered).2 := by
  obtain ⟨after, hafter, hround⟩ := lineRound_state line gathered s
  rw [hround]
  split_ifs
  · exact hafter.advance
  · exact hafter

theorem leads_lineRound (gathered : α) (s : ParserState) :
    s.Leads (s.lineRound line gathered).2 :=
  (h.leads gathered s).trans (leads_lineRound_line line gathered s)

theorem leads_lines (fuel : Nat) (gathered : α) (s : ParserState) :
    s.Leads (s.lines line fuel gathered).2 := by
  induction fuel generalizing gathered s with
  | zero => exact .refl
  | succ fuel ih =>
    unfold lines
    dsimp only
    have hskip := s.leads_skipNewlines s.remaining
    split_ifs
    · exact hskip.advance
    · exact hskip
    · exact hskip.trans ((leads_lineRound line gathered _).trans (ih _ _))

end ParserState

namespace Parser

variable {α : Type}

theorem blockLines_eq (line : LineParser α) (gathered : α) (s : ParserState) :
    blockLines line gathered s = .ok (s.lines line (s.remaining + 1) gathered).1
      (s.lines line (s.remaining + 1) gathered).2 := rfl

instance proceeds_blockLines {line : LineParser α} [line.Proceeds] (gathered : α) :
    Proceeds (blockLines line gathered) := by
  constructor
  intro s
  rw [after, blockLines_eq]
  exact s.leads_lines line _ gathered

instance proceeds_block {line : LineParser α} [line.Proceeds] (gathered : α) :
    Proceeds (block line gathered) := by
  unfold block
  infer_instance

end Parser

end AgentScript
