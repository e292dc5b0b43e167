import AgentScript.Proofs.Parsing.FileLines
import AgentScript.Proofs.Shapes.Parsers

/-!
# Answers between states

What a parser answers with may depend on where it begins and on what is found behind it. A property
of the states before that lasts as a parse goes on is at hand for every part of a parser, and so is
a property of the states behind it that has held all along if it holds in the end.
-/
namespace AgentScript

open ParserState

/-- A property of states that stays as a parse goes on. -/
class Enduring (S : ParserState → Prop) : Prop where
  leads : ∀ {s t : ParserState}, S s → s.Leads t → S t

/-- A property of states that has held all along if it holds in the end. -/
class Unbroken (C : ParserState → Prop) : Prop where
  leads : ∀ {s t : ParserState}, s.Leads t → C t → C s

instance unbroken_true : Unbroken fun _ => True := ⟨fun _ _ => trivial⟩

variable {S K C : ParserState → Prop}

namespace Parser

variable {α β : Type} {P : α → Prop} {Q : β → Prop}

/-- Between such states, what the parser answers with has the property. -/
def YieldsBetween (S C : ParserState → Prop) (P : α → Prop) (p : Parser α) : Prop :=
  ∀ ⦃s t : ParserState⦄ ⦃a : α⦄, S s → p s = .ok a t → C t → P a

theorem Yields.between {p : Parser α} (h : Yields P p) : YieldsBetween S C P p :=
  fun _ _ _ _ heq _ => h heq

theorem YieldsBetween.restrict {p : Parser α} (h : YieldsBetween S C P p) (hK : ∀ s, K s → S s) :
    YieldsBetween K C P p :=
  fun s _ _ hs => h (hK s hs)

/-- The state is the one before the next token. -/
theorem YieldsBetween.peek_bind {f : Token → Parser β}
    (h : ∀ t, YieldsBetween (fun s => S s ∧ s.current = t) C Q (f t)) :
    YieldsBetween S C Q (peek >>= f) :=
  fun s _ _ hs heq => h s.current ⟨hs, rfl⟩ heq

/-- The state is one before a token of the kind. -/
theorem YieldsBetween.kind_bind {f : TokenKind → Parser β}
    (h : ∀ k, YieldsBetween (fun s => S s ∧ s.kind = k) C Q (f k)) :
    YieldsBetween S C Q (kind >>= f) :=
  fun s _ _ hs heq => h s.kind ⟨hs, rfl⟩ heq

theorem YieldsBetween.ite {c : Prop} [Decidable c] {p q : Parser α} (hp : YieldsBetween S C P p)
    (hq : YieldsBetween S C P q) : YieldsBetween S C P (if c then p else q) := by
  split_ifs
  · exact hp
  · exact hq

section

variable [Unbroken C]

/-- Behind the parser its state need not be known any more. -/
theorem YieldsBetween.thenYields {p : Parser α} {f : α → Parser β} [∀ a, Proceeds (f a)]
    (h : YieldsBetween S C P p) (hf : ∀ a, P a → Yields Q (f a)) :
    YieldsBetween S C Q (p >>= f) := by
  intro s u b hs heq hu
  obtain ⟨a, t, ha, hb⟩ := bind_eq_ok.mp heq
  exact hf a (h hs ha (Unbroken.leads ((f a).leads_of_ok hb) hu)) hb

theorem YieldsBetween.map {p : Parser α} {f : α → β} (h : YieldsBetween S C P p)
    (hf : ∀ a, P a → Q (f a)) : YieldsBetween S C Q (p >>= fun a => Pure.pure (f a)) :=
  h.thenYields fun a ha => .pure (hf a ha)

end

variable [Enduring S]

/-- A part whose answer does not matter. -/
theorem YieldsBetween.skip {p : Parser α} [Proceeds p] {f : α → Parser β}
    (hf : ∀ a, YieldsBetween S C Q (f a)) : YieldsBetween S C Q (p >>= f) := by
  intro s u b hs heq hu
  obtain ⟨a, t, ha, hb⟩ := bind_eq_ok.mp heq
  exact hf a (Enduring.leads hs (p.leads_of_ok ha)) hb hu

variable [Unbroken C]

theorem YieldsBetween.bind {p : Parser α} [Proceeds p] {f : α → Parser β} [∀ a, Proceeds (f a)]
    (h : YieldsBetween S C P p) (hf : ∀ a, P a → YieldsBetween S C Q (f a)) :
    YieldsBetween S C Q (p >>= f) := by
  intro s u b hs heq hu
  obtain ⟨a, t, ha, hb⟩ := bind_eq_ok.mp heq
  have ht := Unbroken.leads ((f a).leads_of_ok hb) hu
  exact hf a (h hs ha ht) (Enduring.leads hs (p.leads_of_ok ha)) hb hu

theorem YieldsBetween.eachAfter {item : Parser α} [Proceeds item] (h : YieldsBetween S C P item)
    (separator : TokenKind) (fuel : Nat) :
    YieldsBetween S C (fun l => ∀ a ∈ l, P a) (eachAfter separator item fuel) := by
  induction fuel with
  | zero => exact (Yields.pure (List.forall_mem_nil _)).between
  | succ fuel ih =>
    refine .skip fun _ => .ite ?_ (Yields.pure (List.forall_mem_nil _)).between
    exact h.bind fun a ha => ih.map fun rest hrest => List.forall_mem_cons.mpr ⟨ha, hrest⟩

theorem ItemLoop.yieldsBetween {close : TokenKind} {item : Parser α} [Proceeds item]
    {run : Nat → Parser (List α)} (hrun : ItemLoop close item run) (h : YieldsBetween S C P item)
    (fuel : Nat) : YieldsBetween S C (fun l => ∀ a ∈ l, P a) (run fuel) := by
  induction fuel with
  | zero =>
    rw [hrun.zero]
    exact (Yields.pure (List.forall_mem_nil _)).between
  | succ fuel ih =>
    rw [hrun.succ]
    have := hrun.proceeds fuel
    refine .skip fun _ => .ite (Yields.pure (List.forall_mem_nil _)).between ?_
    refine h.bind fun a ha => .skip fun _ => .ite ?_ ?_
    · exact ih.map fun rest hrest => List.forall_mem_cons.mpr ⟨ha, hrest⟩
    · exact (Yields.pure (List.forall_mem_singleton.mpr ha)).between

theorem YieldsBetween.separated {item : Parser α} [Proceeds item] (h : YieldsBetween S C P item)
    (separator : TokenKind) :
    YieldsBetween S C (fun l => ∀ a ∈ l, P a) (separated separator item item) :=
  h.bind fun _ ha => YieldsBetween.map (.skip fun _ => h.eachAfter separator _) fun _ hrest =>
    List.forall_mem_cons.mpr ⟨ha, hrest⟩

end Parser

namespace LineParser

variable {α : Type} {P : α → Prop} {line other : LineParser α} {gathered : α} {s : ParserState}

/-- Between such states, the line keeps the property of what has been gathered, whether it fails or
not. -/
def KeepsBetween (S C : ParserState → Prop) (P : α → Prop) (line : LineParser α) : Prop :=
  ∀ ⦃gathered : α⦄ ⦃s : ParserState⦄, S s → P gathered → C (line gathered s).resumed →
    P (line gathered s).gathered

theorem keepsBetween_whole [Unbroken C] {p : α → Parser α}
    (h : ∀ a, P a → Parser.YieldsBetween S C P (p a)) : KeepsBetween S C P (whole p) := by
  intro gathered s hs hP hC
  cases heq : p gathered s with
  | ok a t =>
    rw [whole_of_ok heq] at hC ⊢
    exact h gathered hP hs heq hC
  | error e t =>
    rw [whole_of_error heq]
    exact hP

theorem keepsBetween_item [Unbroken C] {P : α → Prop} {p : Parser α}
    (h : Parser.YieldsBetween S C P p) : KeepsBetween S C (fun l => ∀ a ∈ l, P a) (item p) :=
  keepsBetween_whole fun _ hl => h.map fun _ ha => forall_mem_concat hl ha

/-- A line whose form is seen at its beginning. -/
theorem KeepsBetween.choose (h : line.KeepsBetween S C P) (h' : other.KeepsBetween S C P)
    (sees : ParserState → Bool) :
    KeepsBetween S C P fun gathered s =>
      if sees s = true then line gathered s else other gathered s := by
  intro gathered s hs hP
  dsimp only
  split_ifs
  · exact h hs hP
  · exact h' hs hP

/-- Nothing is gathered at the end of a line. -/
theorem gathered_thenFinish (line : LineParser α) (gathered : α) (s : ParserState) :
    (thenFinish line gathered s).gathered = (line gathered s).gathered := by
  unfold thenFinish
  dsimp only
  split
  · rfl
  · split <;> rfl

theorem leads_thenFinish_resumed (line : LineParser α) (gathered : α) (s : ParserState) :
    (line gathered s).resumed.Leads (thenFinish line gathered s).resumed := by
  cases heq : line gathered s with
  | mk a problem t =>
    cases problem with
    | some e =>
      rw [thenFinish_of_failed heq]
      exact .refl
    | none =>
      rw [thenFinish_of_done heq]
      exact (proceeds_whole.leads a t).trans (leads_resumed _)

theorem KeepsBetween.thenFinish [Unbroken C] (h : line.KeepsBetween S C P) :
    KeepsBetween S C P (thenFinish line) := by
  intro gathered s hs hP hC
  rw [gathered_thenFinish]
  exact h hs hP (Unbroken.leads (leads_thenFinish_resumed line gathered s) hC)

theorem KeepsBetween.lines [line.Proceeds] [Enduring S] [Unbroken C] (h : line.KeepsBetween S C P)
    (fuel : Nat) (hs : S s) (hP : P gathered) (hC : C (s.lines line fuel gathered).2) :
    P (s.lines line fuel gathered).1 := by
  induction fuel generalizing gathered s with
  | zero => exact hP
  | succ fuel ih =>
    unfold ParserState.lines at hC ⊢
    dsimp only at hC ⊢
    have hskip := s.leads_skipNewlines s.remaining
    generalize s.skipNewlines s.remaining = s' at hskip hC ⊢
    have hs' := Enduring.leads hs hskip
    split_ifs at hC ⊢
    · exact hP
    · exact hP
    · have hround := Unbroken.leads (leads_lines line fuel _ _) hC
      have hresumed := Unbroken.leads (leads_lineRound_resumed line gathered s') hround
      exact ih (Enduring.leads hs' (leads_lineRound line gathered s')) (h hs' hP hresumed) hC

end LineParser

namespace Parser

variable {α : Type} {P : α → Prop} [Enduring S] [Unbroken C] {line : LineParser α} [line.Proceeds]
  {gathered : α}

theorem yieldsBetween_blockLines (h : line.KeepsBetween S C P) (hP : P gathered) :
    YieldsBetween S C P (blockLines line gathered) := by
  intro s t a hs heq ht
  rw [blockLines_eq] at heq
  cases heq
  exact h.lines _ hs hP ht

theorem yieldsBetween_block (h : line.KeepsBetween S C P) (hP : P gathered) :
    YieldsBetween S C P (block line gathered) :=
  .skip fun _ => .skip fun _ => .ite (yieldsBetween_blockLines h hP) (Yields.pure hP).between

/-- Lines that each add an item of a certain form. -/
theorem YieldsBetween.itemBlock {P : α → Prop} {p : Parser α} [Proceeds p]
    (h : YieldsBetween S C P p) : YieldsBetween S C (fun l => ∀ a ∈ l, P a) (block (.item p) []) :=
  yieldsBetween_block (LineParser.keepsBetween_item h) (List.forall_mem_nil _)

end Parser

section

variable {P : Agent → Prop} {f : FileParts} {s : ParserState}

/-- The agent that a file has so far has the property. -/
def FileParts.AgentHas (P : Agent → Prop) (f : FileParts) : Prop := ∀ a ∈ f.agent, P a

variable (hagent : Parser.YieldsBetween (fun s => S s ∧ s.kind = .keyword (.opening .agent)) C P
  Parser.agent)

include hagent

namespace FileParts

theorem AgentHas.readItem (h : f.AgentHas P) (hs : S s) (hC : C (f.readItem s).2) :
    (f.readItem s).1.AgentHas P := by
  unfold FileParts.readItem at hC ⊢
  split at hC
  · exact h
  · unfold readImport at hC ⊢
    dsimp only at hC ⊢
    split <;> exact h
  · next hk =>
    unfold readAgent at hC ⊢
    dsimp only at hC ⊢
    cases heq : Parser.agent s with
    | error e t => exact h
    | ok a t =>
      rw [heq] at hC
      dsimp only at hC ⊢
      cases hold : f.agent with
      | some b =>
        rintro _ ⟨⟩
        exact h b hold
      | none =>
        rw [hold] at hC
        rintro _ ⟨⟩
        exact hagent ⟨hs, hk⟩ heq hC
  · exact h
  · exact h

theorem AgentHas.readItems [Enduring S] [Unbroken C] (h : f.AgentHas P) (fuel : Nat) (hs : S s)
    (hC : C (f.readItems fuel s).2) : (f.readItems fuel s).1.AgentHas P := by
  induction fuel generalizing f s with
  | zero => exact h
  | succ fuel ih =>
    rw [readItems_succ] at hC ⊢
    split_ifs at hC ⊢
    · exact h
    · have hnext := Unbroken.leads (leads_readItems fuel _ _) hC
      have hitem : (f.readItem s).2.Leads (f.nextItem s).2 := by
        unfold nextItem
        split_ifs
        · exact leads_advance _
        · exact .refl
      exact ih (h.readItem hagent hs (Unbroken.leads hitem hnext))
        (Enduring.leads hs (leads_nextItem f s)) hC

end FileParts

/-- What holds of every agent that is read between such states holds of the agent of a file. -/
theorem ParsedFile.agent_between [Enduring S] [Unbroken C] (hs : S s) (hC : C (read s).2) :
    ∀ tree ∈ (read s).1, ∀ a ∈ tree.agent, P a := by
  have hempty : FileParts.empty.AgentHas P := forall_mem_none
  have hparts := hempty.readItems hagent s.remaining hs
  unfold read at hC ⊢
  dsimp only at hC ⊢
  generalize FileParts.empty.readItems s.remaining s = read at hparts hC ⊢
  split_ifs at hC ⊢ with hrecognized hmissing
  · rintro _ ⟨⟩
    exact hparts (Unbroken.leads (leads_report _ _) hC)
  · rintro _ ⟨⟩
    exact hparts hC
  · exact forall_mem_none

end

end AgentScript
