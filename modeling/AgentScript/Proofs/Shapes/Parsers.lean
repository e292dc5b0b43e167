import AgentScript.Grammar.Value
import AgentScript.Proofs.Parsing.Proceeding

/-!
# What parsers answer with

A property of what a parser answers with follows from properties of what its parts answer with,
wherever in the tokens it begins. A line either keeps a property of what has been gathered or fails
and leaves it, so the lines of a block keep it however many of them fail and wherever they stop.
-/
namespace AgentScript

section

variable {α β : Type} {P : α → Prop} {Q : β → Prop}

theorem forall_mem_none : ∀ a ∈ (none : Option α), P a := fun _ h => nomatch h

theorem forall_mem_concat {l : List α} {a : α} (hl : ∀ x ∈ l, P x) (ha : P a) :
    ∀ x ∈ l ++ [a], P x :=
  List.forall_mem_append.mpr ⟨hl, List.forall_mem_singleton.mpr ha⟩

/-- Parts of two sorts, all of which have the property of their sort. -/
structure EachHas (P : α → Prop) (Q : β → Prop) (parts : List α × List β) : Prop where
  first : ∀ a ∈ parts.1, P a
  second : ∀ b ∈ parts.2, Q b

theorem eachHas_nil : EachHas P Q ([], []) := ⟨List.forall_mem_nil _, List.forall_mem_nil _⟩

theorem EachHas.addFirst {parts : List α × List β} (h : EachHas P Q parts) {a : α} (ha : P a) :
    EachHas P Q (parts.1 ++ [a], parts.2) := ⟨forall_mem_concat h.first ha, h.second⟩

theorem EachHas.addSecond {parts : List α × List β} (h : EachHas P Q parts) {b : β} (hb : Q b) :
    EachHas P Q (parts.1, parts.2 ++ [b]) := ⟨h.first, forall_mem_concat h.second hb⟩

end

namespace Parser

variable {α β : Type} {P : α → Prop} {Q : β → Prop}

/-- Whatever the parser answers with has the property. -/
def Yields (P : α → Prop) (p : Parser α) : Prop :=
  ∀ ⦃s t : ParserState⦄ ⦃a : α⦄, p s = .ok a t → P a

theorem Yields.pure {a : α} (h : P a) : Yields P (pure a) := by
  intro s t b heq
  cases heq
  exact h

theorem Yields.bind {p : Parser α} {f : α → Parser β} (h : Yields P p)
    (hf : ∀ a, P a → Yields Q (f a)) : Yields Q (p >>= f) := by
  intro s u b heq
  obtain ⟨a, t, ha, hb⟩ := bind_eq_ok.mp heq
  exact hf a (h ha) hb

/-- A part whose answer does not matter. -/
theorem Yields.skip {p : Parser α} {f : α → Parser β} (hf : ∀ a, Yields Q (f a)) :
    Yields Q (p >>= f) := by
  intro s u b heq
  obtain ⟨a, t, -, hb⟩ := bind_eq_ok.mp heq
  exact hf a hb

theorem Yields.ite {c : Prop} [Decidable c] {p q : Parser α} (hp : Yields P p) (hq : Yields P q) :
    Yields P (if c then p else q) := by
  split_ifs
  · exact hp
  · exact hq

theorem Yields.map {p : Parser α} {f : α → β} (h : Yields P p) (hf : ∀ a, P a → Q (f a)) :
    Yields Q (p >>= fun a => Pure.pure (f a)) :=
  h.bind fun a ha => .pure (hf a ha)

theorem yields_failHere (cause : Token → ParseCause) : Yields P (failHere cause) := by
  rintro _ _ _ ⟨⟩

theorem yields_fail (cause : ParseCause) (l : Location) : Yields P (fail cause l) := by
  rintro _ _ _ ⟨⟩

theorem yields_unexpected (what : String) : Yields P (unexpected what) := yields_failHere _

theorem yields_ofNode {node : Except NodeError α} (h : ∀ a, node = .ok a → P a) (l : Location) :
    Yields P (ofNode node l) := by
  cases node with
  | ok a => exact .pure (h a rfl)
  | error e => exact yields_fail _ _

/-- Whatever the parser answers with before a token of the kind has the property. -/
def YieldsAt (k : TokenKind) (P : α → Prop) (p : Parser α) : Prop :=
  ∀ ⦃s t : ParserState⦄ ⦃a : α⦄, s.kind = k → p s = .ok a t → P a

theorem Yields.at {p : Parser α} (h : Yields P p) (k : TokenKind) : YieldsAt k P p :=
  fun _ _ _ _ heq => h heq

theorem yields_kind {f : TokenKind → Parser α} (h : ∀ k, YieldsAt k P (f k)) :
    Yields P (kind >>= f) := fun s _ _ heq => h s.kind rfl heq

theorem yieldsAt_advance {k : TokenKind} {f : Token → Parser α}
    (h : ∀ t : Token, t.kind = k → Yields P (f t)) : YieldsAt k P (advance >>= f) :=
  fun s _ _ hk heq => h s.current hk heq

theorem Yields.eachAfter {item : Parser α} (h : Yields P item) (separator : TokenKind)
    (fuel : Nat) : Yields (fun l => ∀ a ∈ l, P a) (eachAfter separator item fuel) := by
  induction fuel with
  | zero => exact .pure (List.forall_mem_nil _)
  | succ fuel ih =>
    refine .skip fun _ => .ite ?_ (.pure (List.forall_mem_nil _))
    exact h.bind fun a ha => ih.map fun rest hrest => List.forall_mem_cons.mpr ⟨ha, hrest⟩

theorem ItemLoop.yields {close : TokenKind} {item : Parser α} {run : Nat → Parser (List α)}
    (hrun : ItemLoop close item run) (h : Yields P item) (fuel : Nat) :
    Yields (fun l => ∀ a ∈ l, P a) (run fuel) := by
  induction fuel with
  | zero =>
    rw [hrun.zero]
    exact .pure (List.forall_mem_nil _)
  | succ fuel ih =>
    rw [hrun.succ]
    refine .skip fun _ => .ite (.pure (List.forall_mem_nil _)) ?_
    refine h.bind fun a ha => .skip fun _ => .ite ?_ ?_
    · exact ih.map fun rest hrest => List.forall_mem_cons.mpr ⟨ha, hrest⟩
    · exact .pure (List.forall_mem_singleton.mpr ha)

theorem Yields.followers {item : Parser α} (h : Yields P item) (separator : TokenKind) :
    Yields (fun l => ∀ a ∈ l, P a) (followers separator item) :=
  .skip fun _ => h.eachAfter separator _

theorem Yields.separated {item : Parser α} (h : Yields P item) (separator : TokenKind) :
    Yields (fun l => l ≠ [] ∧ ∀ a ∈ l, P a) (separated separator item item) :=
  h.bind fun _ ha => (h.followers separator).map fun _ hrest =>
    ⟨List.cons_ne_nil _ _, List.forall_mem_cons.mpr ⟨ha, hrest⟩⟩

end Parser

namespace LineParser

variable {α β : Type} {P : α → Prop}

/-- The line keeps the property of what has been gathered, whether it fails or not. -/
def Keeps (P : α → Prop) (line : LineParser α) : Prop :=
  ∀ ⦃gathered : α⦄ (s : ParserState), P gathered → P (line gathered s).gathered

theorem keeps_whole {p : α → Parser α} (h : ∀ a, P a → Parser.Yields P (p a)) :
    Keeps P (whole p) := by
  intro gathered s hP
  unfold whole
  split
  · next heq => exact h gathered hP heq
  · exact hP

/-- A line whose form is seen at its beginning. -/
theorem Keeps.choose {line other : LineParser α} (h : line.Keeps P) (h' : other.Keeps P)
    (sees : ParserState → Bool) :
    Keeps P fun gathered s => if sees s = true then line gathered s else other gathered s := by
  intro gathered s hP
  dsimp only
  split_ifs
  · exact h s hP
  · exact h' s hP

theorem Keeps.thenFinish {line : LineParser α} (h : line.Keeps P) : Keeps P (thenFinish line) := by
  intro gathered s hP
  have hline := h s hP
  unfold LineParser.thenFinish
  dsimp only
  split
  · exact hline
  · split <;> exact hline

theorem keeps_item {p : Parser α} (h : Parser.Yields P p) :
    Keeps (fun l => ∀ a ∈ l, P a) (item p) :=
  keeps_whole fun _ hl => h.map fun _ ha => forall_mem_concat hl ha

theorem Keeps.lines {line : LineParser α} (h : line.Keeps P) (fuel : Nat) {gathered : α}
    (s : ParserState) (hP : P gathered) : P (s.lines line fuel gathered).1 := by
  induction fuel generalizing gathered s with
  | zero => exact hP
  | succ fuel ih =>
    unfold ParserState.lines
    dsimp only
    split_ifs
    · exact hP
    · exact hP
    · exact ih _ (h _ hP)

end LineParser

namespace Parser

variable {α : Type} {P : α → Prop} {line : LineParser α}

theorem yields_blockLines (h : line.Keeps P) {gathered : α} (hP : P gathered) :
    Yields P (blockLines line gathered) := by
  intro s t a heq
  have ha : (s.lines line (s.remaining + 1) gathered).1 = a := (EStateM.Result.ok.inj heq).1
  exact ha ▸ h.lines _ s hP

theorem yields_block (h : line.Keeps P) {gathered : α} (hP : P gathered) :
    Yields P (block line gathered) :=
  .skip fun _ => .skip fun _ => .ite (yields_blockLines h hP) (.pure hP)

theorem yields_itemLines {line : LineParser (List α)} (h : line.Keeps fun l => ∀ a ∈ l, P a) :
    Yields (fun l => ∀ a ∈ l, P a) (blockLines line []) :=
  yields_blockLines h (List.forall_mem_nil _)

/-- Lines that each add an item of a certain form. -/
theorem Yields.itemBlock {p : Parser α} (h : Yields P p) :
    Yields (fun l => ∀ a ∈ l, P a) (block (.item p) []) :=
  yields_block (LineParser.keeps_item h) (List.forall_mem_nil _)

end Parser

end AgentScript
