import AgentScript.Proofs.Reading.RoundForm
import AgentScript.Proofs.Writing.Words
import Mathlib.Data.List.Forall2

/-!
# Reading what was written

A piece of text is read as certain tokens if reading it takes rounds that add just these
tokens and no fault, whatever text comes after it. What may come after it, and what the
layout has to be before it, is said of every word and mark; texts that are read follow each
other as long as each allows the next.
-/
namespace AgentScript

/-- What a token can be. -/
abbrev TokenForm := Token → Prop

namespace TokenForm

def ofKind (kind : TokenKind) : TokenForm := fun t => t.kind = kind

/-- A token of one of the kinds with the text. -/
def spelled (kinds : TokenKind → Prop) (text : String) : TokenForm := fun t =>
  kinds t.kind ∧ t.text = text

/-- Any word. -/
def word (text : String) : TokenForm := spelled (·.isWordlike = true) text

end TokenForm

/-- The tokens are of the forms, one by one. -/
def Token.Match (tokens : List Token) (forms : List TokenForm) : Prop :=
  List.Forall₂ (fun t form => form t) tokens forms

theorem Token.Match.split {tokens : List Token} {forms forms' : List TokenForm}
    (h : Token.Match tokens (forms ++ forms')) :
    ∃ first second, tokens = first ++ second ∧ Token.Match first forms ∧
      Token.Match second forms' :=
  ⟨_, _, (List.take_append_drop forms.length tokens).symm, List.forall₂_take_append _ _ _ h,
    List.forall₂_drop_append _ _ _ h⟩

namespace Cursor

theorem previous_advance {c : Cursor} {text rest : List Char} (h : c.rest = text ++ rest) :
    (c.advance text.length).previous = text.getLast?.or c.previous := by
  induction text generalizing c with
  | nil => rfl
  | cons x text ih =>
    rw [List.length_cons, advance_succ_of_rest_cons h, ih rfl, List.getLast?_cons]
    cases text.getLast? <;> rfl

end Cursor

/-- The pieces divide the text into tokens of the forms and blanks between them. -/
inductive Divides : List Piece → List Char → List TokenForm → Prop
  | nil : Divides [] [] []
  | skip {pieces text forms} (blank : List Char) (h : Divides pieces text forms) :
    Divides (.skip blank.length :: pieces) (blank ++ text) forms
  | token {pieces text forms kind} {form : TokenForm} (lexeme : List Char)
    (hform : ∀ p q, form ⟨kind, String.ofList lexeme, p, q⟩) (h : Divides pieces text forms) :
    Divides (.token kind lexeme.length :: pieces) (lexeme ++ text) (form :: forms)

theorem Divides.single {kind : TokenKind} {form : TokenForm} {lexeme : List Char}
    (hform : ∀ p q, form ⟨kind, String.ofList lexeme, p, q⟩) :
    Divides [.token kind lexeme.length] lexeme [form] := by
  simpa using Divides.token lexeme hform .nil

theorem Divides.mark {kind : TokenKind} {form : TokenForm} {c : Char}
    (hform : ∀ p q, form ⟨kind, String.ofList [c], p, q⟩) :
    Divides [.token kind 1] [c] [form] := .single hform

namespace Transcript

/-- The text has been passed; the tokens of it have been added, and no fault. -/
structure Gains (t t' : Transcript) (text : List Char) (forms : List TokenForm) : Prop where
  rest : t.cursor.rest = text ++ t'.cursor.rest
  previous : t'.cursor.previous = text.getLast?.or t.cursor.previous
  tokens : ∃ added, t'.tokens.toList = t.tokens.toList ++ added ∧ Token.Match added forms
  faults : t'.faults = t.faults

namespace Gains

variable {t t' t'' : Transcript} {text text' : List Char} {forms forms' : List TokenForm}

protected theorem refl (t : Transcript) : t.Gains t [] [] :=
  ⟨rfl, rfl, ⟨[], by simp, .nil⟩, rfl⟩

protected theorem trans (h : t.Gains t' text forms) (h' : t'.Gains t'' text' forms') :
    t.Gains t'' (text ++ text') (forms ++ forms') := by
  obtain ⟨added, hadded, hforms⟩ := h.tokens
  obtain ⟨added', hadded', hforms'⟩ := h'.tokens
  refine ⟨?_, ?_, ⟨added ++ added', ?_, List.rel_append hforms hforms'⟩, h'.faults.trans h.faults⟩
  · rw [h.rest, h'.rest, List.append_assoc]
  · rw [h'.previous, h.previous, List.getLast?_append, Option.or_assoc]
  · rw [hadded', hadded, List.append_assoc]

end Gains

theorem gains_skip {t : Transcript} {blank rest : List Char} (h : t.cursor.rest = blank ++ rest) :
    t.Gains (t.extend (.skip blank.length)) blank [] := by
  refine ⟨?_, Cursor.previous_advance h, ⟨[], by simp [extend], .nil⟩, rfl⟩
  simp [extend, Cursor.advance_rest, h]

theorem gains_token {t : Transcript} {kind : TokenKind} {form : TokenForm}
    {lexeme rest : List Char} (h : t.cursor.rest = lexeme ++ rest)
    (hform : ∀ p q, form ⟨kind, String.ofList lexeme, p, q⟩) :
    t.Gains (t.extend (.token kind lexeme.length)) lexeme [form] := by
  refine ⟨?_, Cursor.previous_advance h, ⟨_, Array.toList_push, .cons ?_ .nil⟩, rfl⟩
  · simp [extend, Cursor.advance_rest, h]
  · simpa [h] using hform _ _

theorem gains_extendAll {t : Transcript} {pieces : List Piece} {text rest : List Char}
    {forms : List TokenForm} (hdivides : Divides pieces text forms)
    (h : t.cursor.rest = text ++ rest) : t.Gains (t.extendAll pieces) text forms := by
  induction hdivides generalizing t with
  | nil => exact .refl t
  | skip blank _ ih =>
    rw [List.append_assoc] at h
    have hfirst := gains_skip h
    exact hfirst.trans (ih (List.append_cancel_left (hfirst.rest.symm.trans h)))
  | token lexeme hform _ ih =>
    rw [List.append_assoc] at h
    have hfirst := gains_token h hform
    exact hfirst.trans (ih (List.append_cancel_left (hfirst.rest.symm.trans h)))

end Transcript

namespace Reading

/-- Rounds that pass the text and add the tokens of it lead from one reading to the other. -/
structure Yields (r r' : Reading) (text : List Char) (forms : List TokenForm) : Prop where
  rounds : ∃ n, rounds n r = r'
  gains : r.transcript.Gains r'.transcript text forms

namespace Yields

variable {r r' r'' : Reading} {text text' : List Char} {forms forms' : List TokenForm}

protected theorem refl (r : Reading) : r.Yields r [] [] := ⟨⟨0, rfl⟩, .refl _⟩

protected theorem trans (h : r.Yields r' text forms) (h' : r'.Yields r'' text' forms') :
    r.Yields r'' (text ++ text') (forms ++ forms') := by
  obtain ⟨m, hm⟩ := h.rounds
  obtain ⟨n, hn⟩ := h'.rounds
  exact ⟨⟨m + n, by rw [rounds_add, hm, hn]⟩, h.gains.trans h'.gains⟩

theorem rest_eq (h : r.Yields r' text forms) {rest : List Char} (hr : r.rest = text ++ rest) :
    r'.rest = rest := List.append_cancel_left (h.gains.rest.symm.trans hr)

end Yields

theorem yields_round {r : Reading} {next : Round} {text rest : List Char} {forms : List TokenForm}
    (hnext : Round.next r.layout r.transcript.cursor = next) (hr : r.rest = text ++ rest)
    (hne : r.rest ≠ []) (h : Divides next.pieces text forms) :
    r.Yields ⟨next.layout, r.transcript.extendAll next.pieces⟩ text forms := by
  subst hnext
  refine ⟨⟨1, ?_⟩, Transcript.gains_extendAll h hr⟩
  rw [rounds, if_neg (by simpa using hne)]
  rfl

end Reading

/-- From every layout with `P`, behind a character with `before` and before a text with
`follow`, the text is read as tokens of the forms, and the layout then has `Q`. -/
def ReadsAs (P : Layout → Prop) (before : Option Char → Prop) (text : List Char)
    (forms : List TokenForm) (Q : Layout → Prop) (follow : List Char → Prop) : Prop :=
  ∀ ⦃r : Reading⦄ ⦃rest : List Char⦄, P r.layout → before r.transcript.cursor.previous →
    r.rest = text ++ rest → follow rest → ∃ r', r.Yields r' text forms ∧ Q r'.layout

/-- Nothing is asked of what stands before or after a text. -/
abbrev Anything {α : Type} : α → Prop := fun _ => True

namespace ReadsAs

variable {P Q R : Layout → Prop} {before before' : Option Char → Prop} {text text' : List Char}
  {forms forms' : List TokenForm} {follow follow' : List Char → Prop}

theorem nil (before : Option Char → Prop) (follow : List Char → Prop) :
    ReadsAs P before [] [] P follow :=
  fun r _ hP _ _ _ => ⟨r, .refl r, hP⟩

theorem append (h : ReadsAs P before text forms Q follow)
    (h' : ReadsAs Q before' text' forms' R follow')
    (hbefore : ∀ p, before p → before' (text.getLast?.or p))
    (hfollow : ∀ rest, follow' rest → follow (text' ++ rest)) :
    ReadsAs P before (text ++ text') (forms ++ forms') R follow' := by
  intro r rest hP hb hr hf
  rw [List.append_assoc] at hr
  obtain ⟨r', hyields, hQ⟩ := h hP hb hr (hfollow rest hf)
  have hb' : before' r'.transcript.cursor.previous := by
    rw [hyields.gains.previous]
    exact hbefore _ hb
  obtain ⟨r'', hyields', hR⟩ := h' hQ hb' (hyields.rest_eq hr) hf
  exact ⟨r'', hyields.trans hyields', hR⟩

end ReadsAs

/-- Within a line as deep as the innermost level: the open levels, the open brackets and what holds
of the mode in force, beyond which nothing outlasts the line. -/
structure Layout.InLine (levels : List Nat) (brackets : List Bracket) (modes : Mode → Prop)
    (l : Layout) : Prop where
  within : l.atLineStart = false
  width_eq : l.lineWidth = levels.headD 0
  levels_eq : l.levels = levels
  brackets_eq : l.brackets.map Prod.fst = brackets
  leaves : l.modes.endLine = .initial
  mode : modes l.modes.current

namespace Layout.InLine

variable {levels : List Nat} {brackets : List Bracket} {modes modes' : Mode → Prop} {l : Layout}

theorem beginsLine_eq (h : l.InLine levels brackets modes) : l.beginsLine = false := by
  simp [beginsLine, h.within]

theorem mono (h : l.InLine levels brackets modes) (hmodes : ∀ m, modes m → modes' m) :
    l.InLine levels brackets modes' :=
  { h with mode := hmodes _ h.mode }

end Layout.InLine

/-- A text that one round within a line reads. -/
theorem readsAs_of_within {levels : List Nat} {brackets : List Bracket} {modes : Mode → Prop}
    {Q : Layout → Prop} {before : Option Char → Prop} {follow : List Char → Prop}
    {forms : List TokenForm} {c : Char} {text : List Char}
    (h : ∀ l prev p rest, l.InLine levels brackets modes → before prev → follow rest →
      ∃ next : Round, Round.within l prev p c (c :: text ++ rest) = next ∧
        Divides next.pieces (c :: text) forms ∧ Q next.layout) :
    ReadsAs (Layout.InLine levels brackets modes) before (c :: text) forms Q follow := by
  intro r rest hl hb hr hf
  obtain ⟨next, hnext, hdivides, hlayout⟩ :=
    h r.layout r.transcript.cursor.previous r.transcript.cursor.position rest hl hb hf
  have hround : Round.next r.layout r.transcript.cursor = next :=
    (Round.next_within hl.beginsLine_eq hr).trans hnext
  exact ⟨_, Reading.yields_round hround hr (by simp [hr]) hdivides, hlayout⟩

/-- In every line and within any brackets the text is read as tokens of the forms, if the mode in
force is one of the first; then it is one of the others. -/
def WithinLine (modes : Mode → Prop) (before : Option Char → Prop) (text : List Char)
    (forms : List TokenForm) (modes' : Mode → Prop) (follow : List Char → Prop) : Prop :=
  ∀ levels brackets, ReadsAs (Layout.InLine levels brackets modes) before text forms
    (Layout.InLine levels brackets modes') follow

namespace WithinLine

variable {modes modes' modes'' : Mode → Prop} {before before' : Option Char → Prop}
  {text text' : List Char} {form form' : TokenForm} {forms forms' : List TokenForm}
  {follow follow' : List Char → Prop}

theorem nil : WithinLine modes before [] [] modes follow := fun _ _ => .nil _ _

theorem append (h : WithinLine modes before text forms modes' follow)
    (h' : WithinLine modes' before' text' forms' modes'' follow')
    (hbefore : ∀ p, before p → before' (text.getLast?.or p))
    (hfollow : ∀ rest, follow' rest → follow (text' ++ rest)) :
    WithinLine modes before (text ++ text') (forms ++ forms') modes'' follow' :=
  fun levels brackets => (h levels brackets).append (h' levels brackets) hbefore hfollow

/-- What is read in more places is read in fewer. -/
theorem around (h : WithinLine modes before text forms modes' follow)
    (hbefore : ∀ p, before' p → before p) (hfollow : ∀ rest, follow' rest → follow rest) :
    WithinLine modes before' text forms modes' follow' :=
  fun levels brackets _ _ hl hb hr hf => h levels brackets hl (hbefore _ hb) hr (hfollow _ hf)

/-- What is read in more modes is read in fewer. -/
theorem narrow (h : WithinLine modes before text forms modes' follow)
    (hmodes : ∀ m, modes'' m → modes m) : WithinLine modes'' before text forms modes' follow :=
  fun levels brackets _ _ hl => h levels brackets (hl.mono hmodes)

/-- Less can be known of the mode behind a text. -/
theorem widen (h : WithinLine modes before text forms modes' follow)
    (hmodes : ∀ m, modes' m → modes'' m) : WithinLine modes before text forms modes'' follow := by
  intro levels brackets r rest hl hb hr hf
  obtain ⟨r', hyields, hl'⟩ := h levels brackets hl hb hr hf
  exact ⟨r', hyields, hl'.mono hmodes⟩

/-- What is read in each of the modes. -/
theorem of_mode (h : ∀ m, modes m → WithinLine (· = m) before text forms modes' follow) :
    WithinLine modes before text forms modes' follow :=
  fun levels brackets _ _ hl => h _ hl.mode levels brackets { hl with mode := rfl }

/-- What is read as something is read as anything that this is. -/
theorem imp (h : WithinLine modes before text [form] modes' follow)
    (himp : ∀ t, form t → form' t) : WithinLine modes before text [form'] modes' follow := by
  intro levels brackets r rest hl hb hr hf
  obtain ⟨r', hyields, hl'⟩ := h levels brackets hl hb hr hf
  obtain ⟨added, hadded, hforms⟩ := hyields.gains.tokens
  refine ⟨r', ⟨hyields.rounds, { hyields.gains with tokens := ⟨added, hadded, ?_⟩ }⟩, hl'⟩
  cases hforms with
  | cons hform hnil => exact .cons (himp _ hform) hnil

/-- A token that leaves the layout as it is. -/
theorem single {c : Char} {kind : TokenKind}
    (h : ∀ l prev p rest, modes l.modes.current → before prev → follow rest →
      Round.within l prev p c (c :: text ++ rest) = ⟨[.token kind (c :: text).length], l⟩)
    (hform : ∀ p q, form ⟨kind, String.ofList (c :: text), p, q⟩) :
    WithinLine modes before (c :: text) [form] modes follow :=
  fun _ _ => readsAs_of_within fun l prev p rest hl hb hf =>
    ⟨_, h l prev p rest hl.mode hb hf, .single hform, hl⟩

end WithinLine

end AgentScript
