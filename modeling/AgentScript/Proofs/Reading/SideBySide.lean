import AgentScript.Proofs.Reading.Composites
import AgentScript.Proofs.Reading.PhysicalLines

/-!
# Readings side by side

Two readings that stand on the same line before the same text read the same from there on, however
they came there: the columns and offsets that they have reached and the places of the brackets that
are open make no difference to any round.
-/
namespace AgentScript

open CharClass Lexeme

/-- The layout without the places of its brackets. -/
def Layout.unplaced (l : Layout) : Layout :=
  { l with brackets := l.brackets.map fun b => (b.1, .origin) }

namespace Layout

theorem unplaced_unplaced (l : Layout) : l.unplaced.unplaced = l.unplaced := by
  simp [unplaced, Function.comp_def]

theorem isEmpty_unplaced (l : Layout) : l.unplaced.brackets.isEmpty = l.brackets.isEmpty := by
  simp [unplaced]

theorem beginsLine_unplaced (l : Layout) : l.unplaced.beginsLine = l.beginsLine := by
  rw [beginsLine, isEmpty_unplaced]
  rfl

end Layout

namespace Round

/-- The round without the places of brackets. -/
def unplaced (r : Round) : Round := ⟨r.pieces, r.layout.unplaced⟩

variable (l : Layout)

theorem endLine_unplaced (n : Nat) : endLine l.unplaced n = (endLine l n).unplaced := by
  unfold endLine
  rw [l.isEmpty_unplaced]
  split_ifs <;> rfl

theorem beginLine_unplaced (text : List Char) :
    beginLine l.unplaced text = (beginLine l text).unplaced := by
  unfold beginLine
  split_ifs <;> rfl

theorem thenEndLine_unplaced (ps : List Piece) :
    thenEndLine ps l.unplaced = (thenEndLine ps l).unplaced := by
  rw [thenEndLine, endLine_unplaced]
  rfl

theorem afterColon_unplaced (rest : List Char) :
    afterColon l.unplaced rest = (afterColon l rest).unplaced := by
  unfold afterColon
  dsimp only [Layout.unplaced, Layout.popModeIf]
  split_ifs <;> rfl

theorem colon_unplaced (previous : Option Char) (text : List Char) :
    colon l.unplaced previous text = (colon l previous text).unplaced := by
  unfold colon
  rw [afterColon_unplaced]
  split_ifs <;> rfl

theorem dash_unplaced (text : List Char) : dash l.unplaced text = (dash l text).unplaced := by
  unfold dash
  split
  · rfl
  · rfl
  · split_ifs <;> rfl

theorem properWord_unplaced (text : List Char) :
    properWord l.unplaced text = (properWord l text).unplaced := by
  unfold properWord
  dsimp only [Layout.unplaced]
  split <;> rfl

theorem word_unplaced (text : List Char) : word l.unplaced text = (word l text).unplaced := by
  unfold word
  dsimp only [Layout.unplaced]
  split_ifs <;> rfl

theorem bar_unplaced (c : Char) (text : List Char) :
    bar l.unplaced c text = (bar l c text).unplaced := by
  unfold bar
  split
  · rfl
  · split_ifs
    · exact thenEndLine_unplaced l _
    · rfl
    · rfl

theorem embeddedCode_unplaced (text : List Char) :
    embeddedCode l.unplaced text = (embeddedCode l text).unplaced := by
  unfold embeddedCode
  split
  · rfl
  · rfl
  · exact thenEndLine_unplaced l _

theorem closeBracket_unplaced (b : Bracket) :
    closeBracket l.unplaced b = (closeBracket l b).unplaced := by
  obtain ⟨start, width, levels, modes, brackets⟩ := l
  cases brackets <;> rfl

/-- Two rounds that are the same but for the places of brackets. -/
def Alike (a b : Round) : Prop := b.unplaced = a.unplaced

theorem alike_of_eq {a b : Round} (h : b = a.unplaced) : Alike a b := by
  rw [Alike, h]
  exact congrArg (Round.mk a.pieces) a.layout.unplaced_unplaced

theorem within_alike (previous : Option Char) (p p' : Position) (c : Char) (text : List Char) :
    Alike (within l previous p c text) (within l.unplaced previous p' c text) := by
  have hsame (ps : List Piece) : Alike ⟨ps, l⟩ ⟨ps, l.unplaced⟩ := alike_of_eq rfl
  refine within_related l l.unplaced previous previous p p' c text text ?space ?lineBreak ?comment
    ?string ?tag ?code ?bar ?colon ?dash ?opening ?closing ?mark ?number ?proper ?word ?other
  case space => exact fun _ => hsame _
  case lineBreak => exact fun _ => alike_of_eq (endLine_unplaced l _)
  case comment => exact fun _ => hsame _
  case string => exact fun _ => hsame _
  case tag => exact fun _ => hsame _
  case code => exact fun _ => alike_of_eq (embeddedCode_unplaced l _)
  case bar => exact alike_of_eq (bar_unplaced l c _)
  case colon => exact fun _ => alike_of_eq (colon_unplaced l _ _)
  case dash => exact fun _ => alike_of_eq (dash_unplaced l _)
  case opening =>
    intro b _
    simp [Alike, openBracket, unplaced, Layout.openBracket, Layout.unplaced]
  case closing => exact fun b _ => alike_of_eq (closeBracket_unplaced l b)
  case mark => exact fun _ _ => hsame _
  case number => exact fun _ => hsame _
  case proper => exact fun _ => alike_of_eq (properWord_unplaced l _)
  case word => exact fun _ => alike_of_eq (word_unplaced l _)
  case other => exact hsame _

/-- The places of brackets make no difference to what is read. -/
theorem next_alike {l l' : Layout} {c c' : Cursor} (hl : l'.unplaced = l.unplaced)
    (hrest : c'.rest = c.rest) (hprevious : c.rest ≠ [] → c'.previous = c.previous) :
    Alike (next l c) (next l' c') := by
  have hbegins : l'.beginsLine = l.beginsLine := by
    rw [← Layout.beginsLine_unplaced, hl, Layout.beginsLine_unplaced]
  unfold next
  rw [hrest]
  cases hx : c.rest with
  | nil => exact congrArg (Round.mk []) hl
  | cons x rest =>
    dsimp only
    rw [hbegins, hprevious (by simp [hx])]
    refine ite_related (fun _ => ?_) ?_
    · rw [Alike, ← beginLine_unplaced, hl, beginLine_unplaced]
    · have hold := within_alike l c.previous c.position c.position x (x :: rest)
      have hnew := within_alike l' c.previous c'.position c.position x (x :: rest)
      rw [hl] at hnew
      exact hnew.symm.trans hold

end Round

/-- Two cursors on the same line before the same text. -/
structure Cursor.Abreast (c c' : Cursor) : Prop where
  rest : c'.rest = c.rest
  tracker : c.tracker.Level c'.tracker
  previous : c.rest ≠ [] → c'.previous = c.previous

/-- Tokens of the same kind and text on the same lines. -/
structure Token.OnSameLines (t t' : Token) : Prop where
  kind : t'.kind = t.kind
  text : t'.text = t.text
  start : t'.start.line = t.start.line
  stop : t'.stop.line = t.stop.line

theorem Token.OnSameLines.refl (t : Token) : t.OnSameLines t := ⟨rfl, rfl, rfl, rfl⟩

theorem Token.map_kind_of_onSameLines {ts ts' : List Token}
    (h : List.Forall₂ OnSameLines ts ts') : ts'.map kind = ts.map kind := by
  induction h with
  | nil => rfl
  | cons ht _ ih => rw [List.map_cons, List.map_cons, ht.kind, ih]

namespace Cursor

variable {c c' : Cursor}

/-- What holds of two cursors before the same text and outlasts every character holds wherever
both have passed as many. -/
theorem advance_related {R : Cursor → Cursor → Prop} (hrest : ∀ c c', R c c' → c'.rest = c.rest)
    (hread : ∀ c c' x rest, R c c' →
      R ⟨rest, c.tracker.step x, some x⟩ ⟨rest, c'.tracker.step x, some x⟩)
    (h : R c c') (n : Nat) : R (c.advance n) (c'.advance n) := by
  induction n generalizing c c' with
  | zero => exact h
  | succ n ih =>
    cases hx : c.rest with
    | nil =>
      rw [advance_of_rest_nil hx, advance_of_rest_nil ((hrest c c' h).trans hx)]
      exact h
    | cons x rest =>
      rw [advance_succ_of_rest_cons hx, advance_succ_of_rest_cons ((hrest c c' h).trans hx)]
      exact ih (hread c c' x rest h)

/-- Such cursors cut out tokens of the same kinds and texts. -/
theorem tokens_related {R : Cursor → Cursor → Prop} {T : Token → Token → Prop}
    (hrest : ∀ c c', R c c' → c'.rest = c.rest)
    (hadvance : ∀ c c', R c c' → ∀ n, R (c.advance n) (c'.advance n))
    (htoken : ∀ c c', R c c' → ∀ kind text n,
      T ⟨kind, text, c.position, (c.advance n).position⟩
        ⟨kind, text, c'.position, (c'.advance n).position⟩)
    (h : R c c') (ps : List Piece) : List.Forall₂ T (c.tokens ps) (c'.tokens ps) := by
  induction ps generalizing c c' with
  | nil => exact .nil
  | cons p ps ih =>
    cases p with
    | skip n => exact ih (hadvance c c' h n)
    | fault cause n => exact ih h
    | token kind n =>
      rw [tokens, tokens, hrest c c' h]
      exact .cons (htoken c c' h _ _ n) (ih (hadvance c c' h n))

theorem Abreast.advance (h : c.Abreast c') (n : Nat) : (c.advance n).Abreast (c'.advance n) :=
  advance_related (fun _ _ h => h.rest)
    (fun _ _ x _ h => ⟨rfl, h.tracker.read [x], fun _ => rfl⟩) h n

theorem Abreast.tokens (h : c.Abreast c') (ps : List Piece) :
    List.Forall₂ Token.OnSameLines (c.tokens ps) (c'.tokens ps) :=
  tokens_related (fun _ _ h => h.rest) (fun _ _ h => h.advance)
    (fun _ _ h _ _ n => ⟨rfl, rfl, h.tracker.line, (h.advance n).tracker.line⟩) h ps

end Cursor

namespace Reading

/-- Two readings on the same line before the same text, in layouts that agree but for places. -/
structure Abreast (r r' : Reading) : Prop where
  layout : r'.layout.unplaced = r.layout.unplaced
  cursor : r.transcript.cursor.Abreast r'.transcript.cursor

/-- The two readings have read the same in addition, on the same lines. -/
def ReadAlike (r r' s s' : Reading) : Prop :=
  ∃ new new', s.transcript.tokens.toList = r.transcript.tokens.toList ++ new ∧
    s'.transcript.tokens.toList = r'.transcript.tokens.toList ++ new' ∧
    List.Forall₂ Token.OnSameLines new new'

variable {r r' : Reading}

theorem Abreast.round (h : r.Abreast r') :
    r.round.Abreast r'.round ∧ ReadAlike r r' r.round r'.round := by
  obtain ⟨hpieces, hlayout⟩ := Round.mk.inj
    (Round.next_alike h.layout h.cursor.rest h.cursor.previous)
  refine ⟨⟨hlayout, ?_⟩, _, _, r.tokens_round, r'.tokens_round, ?_⟩
  · rw [cursor_round, cursor_round, hpieces]
    exact h.cursor.advance _
  · rw [hpieces]
    exact h.cursor.tokens _

/-- What stands side by side stays so, and reads the same. -/
theorem Abreast.rounds (h : r.Abreast r') (k : Nat) :
    (rounds k r).Abreast (rounds k r') ∧ ReadAlike r r' (rounds k r) (rounds k r') := by
  induction k generalizing r r' with
  | zero => exact ⟨h, [], [], by simp [Reading.rounds], by simp [Reading.rounds], .nil⟩
  | succ k ih =>
    by_cases hend : r.rest.isEmpty
    · have hend' : r'.rest.isEmpty := (congrArg List.isEmpty h.cursor.rest).trans hend
      rw [rounds_of_rest_isEmpty hend, rounds_of_rest_isEmpty hend']
      exact ⟨h, [], [], by simp, by simp, .nil⟩
    · have hmore : ¬ r'.rest.isEmpty := fun hend' =>
        hend ((congrArg List.isEmpty h.cursor.rest).symm.trans hend')
      obtain ⟨hround, new, new', hnew, hnew', hsame⟩ := h.round
      obtain ⟨hrounds, later, later', hlater, hlater', hsame'⟩ := ih hround
      rw [Reading.rounds, Reading.rounds, if_neg hend, if_neg hmore]
      refine ⟨hrounds, new ++ later, new' ++ later', ?_, ?_, List.rel_append hsame hsame'⟩
      · rw [hlater, hnew, List.append_assoc]
      · rw [hlater', hnew', List.append_assoc]

end Reading

end AgentScript
