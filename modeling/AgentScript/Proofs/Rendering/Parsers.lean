import AgentScript.Proofs.Parsing.Building
import AgentScript.Proofs.Rendering.States

/-!
# Parsers of rendered tokens

A parser mirrors another if it reads from the rendered tokens what the other reads from the
tokens, wherever a condition holds before it. The condition is needed where a token is passed
without a look at its kind, since the end of input must not be passed, and where the text of a
token is compared with a word, since the text of a line end is rendered.
-/
namespace AgentScript

open Rendered (render)
open Unplaced (render_unplaced)

variable {α β : Type} {r : Rendering} {beyond : List Token} {P Q : ParserState → Prop}

/-- The next token is neither the end of a line nor the end of input. -/
structure ParserState.OnLine (s : ParserState) : Prop where
  ne_eof : s.kind ≠ .eof
  ne_newline : s.kind ≠ .newline

namespace Parser

/-- An answer of a parser, rendered with the state behind it. -/
def renderedResult [Rendered α] (r : Rendering) (beyond : List Token) :
    EStateM.Result ParseProblem ParserState α → EStateM.Result ParseProblem ParserState α
  | .ok a s => .ok (render r a) (s.rendered r beyond)
  | .error e s => .error (render r e) (s.rendered r beyond)

/-- Where `P` holds, the second parser reads from the rendered tokens what the first reads from
the tokens themselves. -/
structure Mirrors [Rendered α] (r : Rendering) (beyond : List Token) (P : ParserState → Prop)
    (p p' : Parser α) : Prop where
  reads : ∀ s : ParserState, s.Closed → P s →
    p' (s.rendered r beyond) = renderedResult r beyond (p s)

section

variable [Rendered α] [Rendered β] {p p' q q' : Parser α} {f f' : α → Parser β}

theorem Mirrors.mono (h : Mirrors r beyond Q p p') (hPQ : ∀ s, P s → Q s) :
    Mirrors r beyond P p p' := ⟨fun s hs hP => h.reads s hs (hPQ s hP)⟩

/-- What the first parser answers is known of the state behind it. -/
theorem Mirrors.bindOk [Proceeds p] (hp : Mirrors r beyond P p p')
    (hf : ∀ s a t, P s → p s = .ok a t → Mirrors r beyond (· = t) (f a) (f' (render r a))) :
    Mirrors r beyond P (p >>= f) (p' >>= f') := by
  constructor
  intro s hs hP
  have hreads := hp.reads s hs hP
  cases heq : p s with
  | ok a t =>
    rw [heq] at hreads
    rw [bind_of_ok f heq, bind_of_ok f' hreads]
    exact (hf s a t hP heq).reads t (hs.leads (p.leads_of_ok heq)) rfl
  | error e t =>
    rw [heq] at hreads
    rw [bind_of_error f heq, bind_of_error f' hreads]
    rfl

theorem Mirrors.any (h : Mirrors r beyond (fun _ => True) p p') : Mirrors r beyond P p p' :=
  h.mono fun _ _ => trivial

theorem Mirrors.bind [Proceeds p] (hp : Mirrors r beyond P p p')
    (hf : ∀ a, Mirrors r beyond (fun _ => True) (f a) (f' (render r a))) :
    Mirrors r beyond P (p >>= f) (p' >>= f') :=
  hp.bindOk fun _ a _ _ _ => (hf a).any

theorem Mirrors.pure (a : α) : Mirrors r beyond P (pure a : Parser α) (pure (render r a)) :=
  ⟨fun _ _ _ => rfl⟩

theorem Mirrors.ite {c : Prop} [Decidable c] (hyes : c → Mirrors r beyond P p p')
    (hno : ¬ c → Mirrors r beyond P q q') :
    Mirrors r beyond P (if c then p else q) (if c then p' else q') := by
  split_ifs with hc
  · exact hyes hc
  · exact hno hc

/-- An answer without positions is passed on as it is. -/
theorem Mirrors.fixed [Unplaced α] [Proceeds p] (hp : Mirrors r beyond P p p')
    (hf : ∀ a, Mirrors r beyond (fun _ => True) (f a) (f' a)) :
    Mirrors r beyond P (p >>= f) (p' >>= f') :=
  hp.bind fun a => by rw [render_unplaced]; exact hf a

theorem Mirrors.pureFixed [Unplaced α] (a : α) :
    Mirrors r beyond P (Pure.pure a : Parser α) (Pure.pure a) :=
  ⟨fun _ _ _ => congrArg (EStateM.Result.ok · _) (render_unplaced r a).symm⟩

theorem Mirrors.seen {g : ParserState → α}
    (hg : ∀ s : ParserState, s.Closed → P s → g (s.rendered r beyond) = render r (g s)) :
    Mirrors r beyond P (look g) (look g) :=
  ⟨fun s hs hP => congrArg (EStateM.Result.ok · _) (hg s hs hP)⟩

/-- What is seen from a state is known from there on. -/
theorem Mirrors.look {g : ParserState → α}
    (hg : ∀ s : ParserState, s.Closed → P s → g (s.rendered r beyond) = render r (g s))
    (hf : ∀ a, Mirrors r beyond (fun s => P s ∧ g s = a) (f a) (f' (render r a))) :
    Mirrors r beyond P (look g >>= f) (Parser.look g >>= f') := by
  constructor
  intro s hs hP
  change f' (g (s.rendered r beyond)) (s.rendered r beyond) = renderedResult r beyond (f (g s) s)
  rw [hg s hs hP]
  exact (hf (g s)).reads s hs ⟨hP, rfl⟩

end

variable [Rendered α] [Rendered β] {p p' q q' : Parser α}

theorem Mirrors.peek {f f' : Token → Parser β}
    (hf : ∀ t, Mirrors r beyond (fun s => P s ∧ s.current = t) (f t) (f' (render r t))) :
    Mirrors r beyond P (peek >>= f) (Parser.peek >>= f') :=
  .look (fun _ _ _ => ParserState.current_rendered) hf

theorem Mirrors.kind {f f' : TokenKind → Parser β}
    (hf : ∀ k, Mirrors r beyond (fun s => P s ∧ s.kind = k) (f k) (f' k)) :
    Mirrors r beyond P (kind >>= f) (Parser.kind >>= f') := by
  constructor
  intro s hs hP
  change f' (s.rendered r beyond).kind (s.rendered r beyond) = renderedResult r beyond (f s.kind s)
  rw [ParserState.kind_rendered]
  exact (hf s.kind).reads s hs ⟨hP, rfl⟩

/-- A choice by what is seen from the state. -/
theorem Mirrors.choose {g : ParserState → Bool}
    (hg : ∀ s : ParserState, s.Closed → P s → g (s.rendered r beyond) = g s)
    (hyes : Mirrors r beyond (fun s => P s ∧ g s = true) p p') (hno : Mirrors r beyond P q q') :
    Mirrors r beyond P (Parser.look g >>= fun b => if b = true then p else q)
      (Parser.look g >>= fun b => if b = true then p' else q') := by
  constructor
  intro s hs hP
  change (if g (s.rendered r beyond) = true then p' else q') (s.rendered r beyond) =
    renderedResult r beyond ((if g s = true then p else q) s)
  rw [hg s hs hP]
  cases hb : g s with
  | true => exact hyes.reads s hs ⟨hP, hb⟩
  | false => exact hno.reads s hs hP

/-- A choice by the kind of the next token. -/
theorem Mirrors.check {k : TokenKind} (hyes : Mirrors r beyond (fun s => P s ∧ s.kind = k) p p')
    (hno : Mirrors r beyond P q q') :
    Mirrors r beyond P (check k >>= fun b => if b = true then p else q)
      (Parser.check k >>= fun b => if b = true then p' else q') := by
  refine .choose (fun _ _ _ => ?_) (hyes.mono fun s hs => ⟨hs.1, eq_of_beq hs.2⟩) hno
  rw [ParserState.kind_rendered]

/-- A choice by the kind of the token after the next one. -/
theorem Mirrors.checkNext {k : TokenKind} (hP : ∀ s, P s → s.kind ≠ .eof)
    (hyes : Mirrors r beyond (fun s => P s ∧ (s.ahead 1).kind = k) p p')
    (hno : Mirrors r beyond P q q') :
    Mirrors r beyond P (checkAhead 1 k >>= fun b => if b = true then p else q)
      (checkAhead 1 k >>= fun b => if b = true then p' else q') := by
  refine .choose (fun s hs h => ?_) (hyes.mono fun s hs => ⟨hs.1, eq_of_beq hs.2⟩) hno
  rw [hs.kind_ahead_one (hP s h)]

theorem Mirrors.spanFrom {p : Position} :
    Mirrors r beyond P (spanFrom p) (Parser.spanFrom (render r p)) :=
  ⟨fun s _ _ => congrArg (EStateM.Result.ok · _) (s.spanFrom_rendered p)⟩

theorem Mirrors.lineLeft {f f' : Nat → Parser β}
    (hf : ∀ n, Mirrors r beyond P (f n) (f' n)) :
    Mirrors r beyond P (lineLeft >>= f) (Parser.lineLeft >>= f') :=
  .look (fun _ hs _ => hs.lineLeft_rendered) fun n => (hf n).mono fun _ hs => hs.1

theorem Mirrors.advance (hP : ∀ s, P s → s.kind ≠ .eof) :
    Mirrors r beyond P advance Parser.advance := by
  constructor
  intro s hs h
  change EStateM.Result.ok (s.rendered r beyond).current (s.rendered r beyond).advance = _
  rw [ParserState.current_rendered, hs.advance_rendered (hP s h)]
  rfl

/-- The text of a word is not changed. -/
theorem Mirrors.advance_word {f f' : Token → Parser β} (hP : ∀ s, P s → s.OnLine)
    (hf : ∀ t, (render r t).text = t.text →
      Mirrors r beyond (fun _ => True) (f t) (f' (render r t))) :
    Mirrors r beyond P (Parser.advance >>= f) (Parser.advance >>= f') := by
  refine (Mirrors.advance fun s h => (hP s h).ne_eof).bindOk fun s t u h heq => ?_
  cases heq
  exact (hf _ (Token.text_render (hP s h).ne_newline)).any

theorem Mirrors.eat {k : TokenKind} (hk : k ≠ .eof) :
    Mirrors r beyond P (eat k) (Parser.eat k) := by
  constructor
  intro s hs _
  unfold Parser.eat
  rw [ParserState.kind_rendered]
  split_ifs with h
  · rw [hs.advance_rendered (by rwa [eq_of_beq h])]
    rfl
  · rfl

theorem Mirrors.finishLine : Mirrors r beyond P finishLine Parser.finishLine := by
  constructor
  intro s hs _
  unfold Parser.finishLine
  rw [ParserState.kind_rendered, ParserState.previous_rendered]
  split_ifs with hnewline
  · rw [hs.advance_rendered (by simp [eq_of_beq hnewline])]
    rfl
  · rfl
  · rfl
  · change EStateM.Result.error _ _ = EStateM.Result.error _ _
    rw [ParserState.current_rendered]
    rfl

theorem Mirrors.failHere {cause : Token → ParseCause}
    (h : ∀ s, P s → cause (render r s.current) = render r (cause s.current)) :
    Mirrors r beyond P (failHere cause : Parser α) (Parser.failHere cause) := by
  constructor
  intro s _ hP
  change EStateM.Result.error (ParseProblem.mk (cause (s.rendered r beyond).current) _) _ = _
  rw [ParserState.current_rendered, h s hP]
  rfl

theorem Mirrors.unexpected {what : String} :
    Mirrors r beyond P (unexpected what : Parser α) (Parser.unexpected what) :=
  .failHere fun _ _ => rfl

theorem Mirrors.fail {cause : ParseCause} {l : Location} :
    Mirrors r beyond P (fail cause l : Parser α) (Parser.fail (render r cause) (render r l)) :=
  ⟨fun _ _ _ => rfl⟩

theorem Mirrors.report {cause : ParseCause} {l : Location} :
    Mirrors r beyond P (report cause l) (Parser.report (render r cause) (render r l)) :=
  ⟨fun _ _ _ => congrArg (EStateM.Result.ok ()) (ParserState.report_rendered ⟨cause, some l⟩)⟩

theorem Mirrors.ofNode {node node' : Except NodeError α} {l : Location}
    (h : node' = node.map (render r)) :
    Mirrors r beyond P (ofNode node l) (Parser.ofNode node' (render r l)) := by
  subst h
  cases node with
  | ok a => exact .pure a
  | error e => exact .fail

theorem Mirrors.expect {k : TokenKind} (hk : k ≠ .eof) {what : String} :
    Mirrors r beyond P (expect k what) (Parser.expect k what) :=
  .check (.advance fun _ h => by rwa [h.2]) .unexpected

/-- The text of an expected word is not changed. -/
theorem Mirrors.expect_word {k : TokenKind} (hk : k ≠ .eof) (hk' : k ≠ .newline) {what : String}
    {f f' : Token → Parser β} (hf : ∀ t, (render r t).text = t.text →
      Mirrors r beyond (fun _ => True) (f t) (f' (render r t))) :
    Mirrors r beyond P (Parser.expect k what >>= f) (Parser.expect k what >>= f') := by
  refine (Mirrors.expect hk).bindOk fun s t u _ heq => ?_
  obtain ⟨hkind, rfl, rfl⟩ := expect_eq_ok.mp heq
  exact (hf _ (Token.text_render (by rwa [← ParserState.kind, hkind]))).any

end Parser

/-- What a line leaves behind, rendered with it. -/
def LineResult.rendered [Rendered α] (r : Rendering) (beyond : List Token) (l : LineResult α) :
    LineResult α := ⟨render r l.gathered, render r l.problem, l.state.rendered r beyond⟩

namespace LineParser

/-- Where `P` holds, the line is read from the rendered tokens as from the tokens themselves. -/
structure Mirrors [Rendered α] (r : Rendering) (beyond : List Token) (P : ParserState → Prop)
    (line : LineParser α) : Prop where
  reads : ∀ (gathered : α) (s : ParserState), s.Closed → P s →
    line (render r gathered) (s.rendered r beyond) = (line gathered s).rendered r beyond

variable [Rendered α] {line line' : LineParser α}

theorem Mirrors.whole {p : α → Parser α}
    (h : ∀ a, Parser.Mirrors r beyond P (p a) (p (render r a))) :
    Mirrors r beyond P (whole p) := by
  constructor
  intro gathered s hs hP
  unfold LineParser.whole
  rw [(h gathered).reads s hs hP]
  cases p gathered s <;> rfl

theorem Mirrors.item {p : Parser α} [Parser.Proceeds p] (h : Parser.Mirrors r beyond P p p) :
    Mirrors r beyond P (item p) := by
  refine .whole fun items => .bind h fun a => ?_
  rw [render_concat]
  exact .pure _

theorem Mirrors.thenFinish [hline : line.Proceeds] (h : Mirrors r beyond P line) :
    Mirrors r beyond P (thenFinish line) := by
  constructor
  intro gathered s hs hP
  have hclosed := hs.leads (hline.leads gathered s)
  have hreads := h.reads gathered s hs hP
  rcases hl : line gathered s with ⟨a, problem, t⟩
  rw [hl] at hclosed hreads
  cases problem with
  | some e =>
    rw [thenFinish_of_failed hl, thenFinish_of_failed hreads]
    rfl
  | none =>
    rw [thenFinish_of_done hl, thenFinish_of_done hreads]
    have hfinish : LineParser.Mirrors r beyond (fun _ => True)
        (LineParser.whole fun a : α => Parser.finishLine >>= fun _ => pure a) :=
      .whole fun a => .bind .finishLine fun _ => .pure a
    exact hfinish.reads a t hclosed trivial

/-- Lines of two sorts, told apart by the tokens to come. -/
theorem Mirrors.choose {g : ParserState → Bool}
    (hg : ∀ s : ParserState, s.Closed → P s → g (s.rendered r beyond) = g s)
    (h : Mirrors r beyond (fun s => P s ∧ g s = true) line) (h' : Mirrors r beyond P line') :
    LineParser.Mirrors r beyond P fun a s => if g s = true then line a s else line' a s := by
  constructor
  intro a s hs hP
  rw [hg s hs hP]
  split_ifs with hchoice
  · exact h.reads a s hs ⟨hP, hchoice⟩
  · exact h'.reads a s hs hP

end LineParser

namespace ParserState

variable [Rendered α] {line : LineParser α} [hproceeds : line.Proceeds] {s : ParserState}

/-- One round. A line without progress costs a token in both parses, and it is not the end. -/
theorem Closed.lineRound_rendered (hs : s.Closed) (hon : s.OnLine)
    (h : LineParser.Mirrors r beyond OnLine line) (gathered : α) :
    (s.rendered r beyond).lineRound line (render r gathered) =
      (render r (s.lineRound line gathered).1,
        (s.lineRound line gathered).2.rendered r beyond) := by
  have hleads := hproceeds.leads gathered s
  have hread := h.reads gathered s hs hon
  unfold lineRound
  rw [hread]
  generalize line gathered s = l at hleads
  obtain ⟨a, problem, t⟩ := l
  have hforced {u : ParserState} (hu : s.Leads u) :
      (if (u.rendered r beyond).remaining == (s.rendered r beyond).remaining &&
          (u.rendered r beyond).kind != .dedent then (u.rendered r beyond).advance
        else u.rendered r beyond) =
      (if u.remaining == s.remaining && u.kind != .dedent then u.advance
        else u).rendered r beyond := by
    have hsame : (u.remaining + beyond.length == s.remaining + beyond.length) =
        (u.remaining == s.remaining) := by simp
    rw [remaining_rendered, remaining_rendered, kind_rendered, hsame]
    split_ifs with hstuck
    · have hrest := hu.rest_eq_of_remaining_eq (by simpa using (Bool.and_eq_true_iff.mp hstuck).1)
      apply (hs.leads hu).advance_rendered
      rw [kind, hu.current_eq hrest]
      exact hon.ne_eof
    · rfl
  cases problem with
  | none => exact congrArg (Prod.mk _) (hforced hleads)
  | some p =>
    have hrecover := hforced (hleads.trans (leads_recover t p))
    rw [← (hs.leads hleads).recover_rendered p] at hrecover
    exact congrArg (Prod.mk _) hrecover

/-- The lines of a block, by induction on the bound. -/
theorem Closed.lines_rendered (hs : s.Closed) (h : LineParser.Mirrors r beyond OnLine line)
    (fuel : Nat) (gathered : α) :
    (s.rendered r beyond).lines line fuel (render r gathered) =
      (render r (s.lines line fuel gathered).1,
        (s.lines line fuel gathered).2.rendered r beyond) := by
  induction fuel generalizing gathered s with
  | zero => rfl
  | succ fuel ih =>
    have hskip : (s.rendered r beyond).skipNewlines (s.rendered r beyond).remaining =
        (s.skipNewlines s.remaining).rendered r beyond :=
      hs.skipNewlines_rendered (Nat.le_refl _) (by simp)
    have hclosed := hs.leads (s.leads_skipNewlines s.remaining)
    have hnewline := hs.kind_skipNewlines_ne (Nat.le_refl _)
    unfold lines
    dsimp only
    rw [hskip, kind_rendered, hclosed.atEnd_rendered, halted_rendered]
    split_ifs with hdedent hend
    · rw [hclosed.advance_rendered (by simp [eq_of_beq hdedent])]
    · rfl
    · have hne : (s.skipNewlines s.remaining).kind ≠ .eof := by
        intro heof
        rw [hclosed.atEnd, heof] at hend
        exact hend rfl
      rw [hclosed.lineRound_rendered ⟨hne, hnewline⟩ h]
      exact ih (hclosed.leads (leads_lineRound line _ _)) _

end ParserState

namespace Parser

variable [Rendered α] {line : LineParser α} [line.Proceeds]

theorem Mirrors.blockLines (h : LineParser.Mirrors r beyond ParserState.OnLine line)
    (gathered : α) :
    Mirrors r beyond P (blockLines line gathered) (Parser.blockLines line (render r gathered)) := by
  constructor
  intro s hs _
  have hbound : (s.rendered r beyond).lines line ((s.rendered r beyond).remaining + 1)
      (render r gathered) = (s.rendered r beyond).lines line (s.remaining + beyond.length + 1)
        (render r gathered) := by rw [ParserState.remaining_rendered]
  have hfuel : s.lines line (s.remaining + beyond.length + 1) gathered =
      s.lines line (s.remaining + 1) gathered :=
    ParserState.lines_congr (fun _ _ _ => rfl) (by omega) (by omega)
  rw [blockLines_eq, blockLines_eq, hbound, hs.lines_rendered h, hfuel]
  rfl

theorem Mirrors.block (h : LineParser.Mirrors r beyond ParserState.OnLine line) (gathered : α) :
    Mirrors r beyond P (block line gathered) (Parser.block line (render r gathered)) := by
  refine .bind .finishLine fun _ => .bind (.eat nofun) fun begun => ?_
  exact .ite (fun _ => .blockLines h gathered) fun _ => .pure gathered

end Parser

end AgentScript
