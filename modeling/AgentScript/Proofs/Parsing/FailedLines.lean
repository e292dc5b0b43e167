import AgentScript.Document
import AgentScript.Proofs.Parsing.Course
import Mathlib.Logic.Relation

/-!
# What a failed line leaves behind

A line that adds its part as a whole adds nothing when it fails. Two lines add a part before they
have to end: an item of a block list counts as soon as its value is read, and the description of a
card as soon as its string is. Where such a line goes on behind its part it is reported, and the
part stays.
-/
namespace AgentScript

open AgentScript.Parser

namespace LineParser

variable {α : Type} {line part : LineParser α} {gathered : α} {s : ParserState} {p : ParseProblem}

/-- A failed line leaves what has been gathered as it was. -/
def AllOrNothing (line : LineParser α) : Prop :=
  ∀ ⦃gathered : α⦄ ⦃s : ParserState⦄ ⦃p : ParseProblem⦄, (line gathered s).problem = some p →
    (line gathered s).gathered = gathered

theorem allOrNothing_whole (p : α → Parser α) : AllOrNothing (whole p) := by
  intro gathered s e h
  cases heq : p gathered s with
  | ok a t =>
    rw [whole_of_ok heq] at h
    cases h
  | error e t => rw [whole_of_error heq]

theorem allOrNothing_item (p : Parser α) : AllOrNothing (item p) := allOrNothing_whole _

/-- A line whose form is seen at its beginning. -/
theorem AllOrNothing.choose {other : LineParser α} (h : line.AllOrNothing)
    (h' : other.AllOrNothing) (sees : ParserState → Bool) :
    AllOrNothing fun gathered s => if sees s = true then line gathered s else other gathered s := by
  intro gathered s p
  dsimp only
  split_ifs
  · exact fun hp => h hp
  · exact fun hp => h' hp

/-- The line has not ended behind its part, which was read. -/
structure EndsBadly (part : LineParser α) (gathered : α) (s : ParserState) (p : ParseProblem) :
    Prop where
  read : (part gathered s).problem = none
  goesOn : ∃ t, finishLine (part gathered s).state = .error p t

theorem AllOrNothing.thenFinish (h : part.AllOrNothing)
    (hp : (thenFinish part gathered s).problem = some p) :
    (thenFinish part gathered s).gathered = gathered ∨
      EndsBadly part gathered s p ∧
        (thenFinish part gathered s).gathered = (part gathered s).gathered := by
  have hpart : ∀ e, (part gathered s).problem = some e → (part gathered s).gathered = gathered :=
    fun _ he => h he
  cases heq : part gathered s with
  | mk a problem t =>
    rw [heq] at hpart
    cases problem with
    | some e =>
      rw [thenFinish_of_failed heq]
      exact .inl (hpart e rfl)
    | none =>
      rw [thenFinish_of_done heq] at hp ⊢
      cases hfinish : finishLine t with
      | ok u v =>
        rw [whole_of_ok (bind_of_ok _ hfinish)] at hp
        cases hp
      | error e v =>
        rw [whole_of_error (bind_of_error _ hfinish)] at hp ⊢
        cases hp
        exact .inr ⟨⟨by rw [heq], v, by rw [heq]; exact hfinish⟩, rfl⟩

end LineParser

namespace Parser

/-- The value of an item of a block list behind its dash. -/
def dashedItem (value : Parser Value) : LineParser (List Value) :=
  .item do
    let _ ← expect .dash "'-' list item"
    value

/-- The description of a card with its key. -/
def description : LineParser CardParts :=
  .whole fun c => do
    let _ ← advance
    let _ ← advance
    let description ← takeString "card description"
    return { c with description := some description }

/-- The lines of the blocks of a file, by what is in them. -/
inductive BlockLine : ∀ {α : Type}, LineParser α → Prop
  | listItem (depth : Nat) : BlockLine (listLine (valueWithin depth))
  | dictionaryEntry (depth : Nat) : BlockLine (dictionaryLine (valueWithin depth))
  | rule : BlockLine (.item flowRule)
  | whenClause : BlockLine (.item whenClause)
  | suggestion : BlockLine (.item suggestion)
  | card : BlockLine cardLine
  | carousel : BlockLine carouselLine
  | definition : BlockLine definitionLine
  | message : BlockLine (.item message)
  | mappedRow : BlockLine (.item mappedRow)
  | settings : BlockLine settingsLine
  | agentPart : BlockLine (.whole agentPart)

/-- The lines of blocks that add a part before they end. -/
inductive AddsEarly : ∀ {α : Type}, LineParser α → LineParser α → Prop
  | listItem (depth : Nat) :
      AddsEarly (listLine (valueWithin depth)) (dashedItem (valueWithin depth))
  | description : AddsEarly cardLine description

variable {α : Type} {line : LineParser α} {gathered : α} {s : ParserState} {p : ParseProblem}

/-- What a failed line leaves behind: nothing, or a part that it has added early. -/
inductive LeftBy (line : LineParser α) (gathered : α) (s : ParserState) (p : ParseProblem) : Prop
  | nothing (same : (line gathered s).gathered = gathered)
  | part {part : LineParser α} (early : AddsEarly line part) (ends : part.EndsBadly gathered s p)
      (added : (line gathered s).gathered = (part gathered s).gathered)

theorem allOrNothing_settingsLine : settingsLine.AllOrNothing :=
  .choose (LineParser.allOrNothing_whole _) (LineParser.allOrNothing_whole _) _

theorem allOrNothing_definitionLine : definitionLine.AllOrNothing :=
  .choose (LineParser.allOrNothing_whole _)
    (.choose (LineParser.allOrNothing_whole _) (LineParser.allOrNothing_whole _) _) _

theorem leftBy_cardLine {c : CardParts} (hp : (cardLine c s).problem = some p) :
    LeftBy cardLine c s p := by
  by_cases hdescription : startsWith "description" s = true
  · have hline : cardLine c s = LineParser.thenFinish description c s := if_pos hdescription
    rw [hline] at hp
    rcases (LineParser.allOrNothing_whole _).thenFinish hp with hsame | ⟨hends, hadded⟩
    · exact .nothing (hline ▸ hsame)
    · exact .part .description hends (hline ▸ hadded)
  · unfold cardLine at hp
    rw [if_neg hdescription] at hp
    refine .nothing ?_
    unfold cardLine
    rw [if_neg hdescription]
    exact LineParser.allOrNothing_whole _ hp

theorem leftBy_blockLine (h : BlockLine line) (hp : (line gathered s).problem = some p) :
    LeftBy line gathered s p := by
  cases h with
  | listItem depth =>
    rcases (LineParser.allOrNothing_item _).thenFinish hp with hsame | ⟨hends, hadded⟩
    · exact .nothing hsame
    · exact .part (.listItem depth) hends hadded
  | card => exact leftBy_cardLine hp
  | dictionaryEntry => exact .nothing (LineParser.allOrNothing_item _ hp)
  | rule | whenClause | suggestion | message | mappedRow =>
    exact .nothing (LineParser.allOrNothing_item _ hp)
  | carousel | agentPart => exact .nothing (LineParser.allOrNothing_whole _ hp)
  | settings => exact .nothing (allOrNothing_settingsLine hp)
  | definition => exact .nothing (allOrNothing_definitionLine hp)

/-- A line that is read adds to what has been gathered, and so does the part of one that is not. -/
inductive Contributes (line : LineParser α) : α → α → Prop
  | line {gathered : α} {s : ParserState} (read : (line gathered s).problem = none) :
      Contributes line gathered (line gathered s).gathered
  | part {gathered : α} {s : ParserState} {p : ParseProblem} {part : LineParser α}
      (early : AddsEarly line part) (ends : part.EndsBadly gathered s p) :
      Contributes line gathered (part gathered s).gathered

theorem reflTransGen_lineRound (h : BlockLine line) :
    Relation.ReflTransGen (Contributes line) gathered (s.lineRound line gathered).1 := by
  change Relation.ReflTransGen _ gathered (line gathered s).gathered
  cases hp : (line gathered s).problem with
  | none => exact .single (.line hp)
  | some p =>
    cases leftBy_blockLine h hp with
    | nothing same => rw [same]
    | part early ends added =>
      rw [added]
      exact .single (.part early ends)

/-- Whatever lines of a block fail, what it gathers is put together from the lines that are read and
the parts that are added early. -/
theorem reflTransGen_lines (h : BlockLine line) (fuel : Nat) :
    Relation.ReflTransGen (Contributes line) gathered (s.lines line fuel gathered).1 := by
  induction fuel generalizing gathered s with
  | zero => exact .refl
  | succ fuel ih =>
    unfold ParserState.lines
    dsimp only
    split_ifs
    · exact .refl
    · exact .refl
    · exact (reflTransGen_lineRound h).trans ih

/-- A failed line of a block adds nothing but an item of a block list or the description of a card,
where only the line behind it does not end; so what a block gathers comes from these and from the
lines that are read. -/
theorem BlockLine.failedLines (h : BlockLine line) :
    (∀ ⦃gathered : α⦄ ⦃s : ParserState⦄ ⦃p : ParseProblem⦄, (line gathered s).problem = some p →
      LeftBy line gathered s p) ∧
    ∀ (fuel : Nat) (gathered : α) (s : ParserState),
      Relation.ReflTransGen (Contributes line) gathered (s.lines line fuel gathered).1 :=
  ⟨fun _ _ _ hp => leftBy_blockLine h hp, fun fuel _ _ => reflTransGen_lines h fuel⟩

/-- Of `- 1 2` the item is left. -/
theorem BlockLine.failedLines_listItem :
    let s := ParserState.ofTokens (TokenizedText.ofSource "- 1 2").tokens 0
    let line := listLine (valueWithin 1)
    ∃ p, (line [] s).problem = some p ∧ LeftBy line [] s p ∧
      Relation.ReflTransGen (Contributes line) [] (s.lines line 4 []).1 := by
  intro s line
  have hfails : (line [] s).problem.isSome = true := by decide +kernel
  obtain ⟨p, hp⟩ := Option.isSome_iff_exists.mp hfails
  have hlines := BlockLine.failedLines (.listItem 1)
  exact ⟨p, hp, hlines.1 hp, hlines.2 4 [] s⟩

/-- The item of `- 1 2` and the description of `description: "a" b` stay, though the lines fail. -/
theorem not_allOrNothing_blockLine :
    ¬ (listLine (valueWithin 1)).AllOrNothing ∧ ¬ cardLine.AllOrNothing := by
  constructor
  · intro h
    let s := ParserState.ofTokens (TokenizedText.ofSource "- 1 2").tokens 0
    have hfails : (listLine (valueWithin 1) [] s).problem.isSome = true := by decide +kernel
    have hadds : (listLine (valueWithin 1) [] s).gathered.isEmpty = false := by decide +kernel
    obtain ⟨p, hp⟩ := Option.isSome_iff_exists.mp hfails
    rw [h hp] at hadds
    cases hadds
  · intro h
    let s := ParserState.ofTokens (TokenizedText.ofSource "description: \"a\" b").tokens 0
    have hfails : (cardLine .empty s).problem.isSome = true := by decide +kernel
    have hadds : (cardLine .empty s).gathered.description = some "a" := by decide +kernel
    obtain ⟨p, hp⟩ := Option.isSome_iff_exists.mp hfails
    rw [h hp] at hadds
    cases hadds

end Parser

end AgentScript
