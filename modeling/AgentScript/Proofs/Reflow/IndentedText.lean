import AgentScript.Proofs.LineEnds.Scanners
import AgentScript.Proofs.Reflow.Rounds
import Mathlib.Order.Monotone.Basic

/-!
# Texts that are indented otherwise

What an indentation does to the open levels is told by which of the widths around it exceed which,
so it does the same to other widths in the same order. Within a line the widths of the line and of
the levels make no difference, unless a block is captured.

The blanks at the beginning of every line are replaced by others, as many as a function tells from
their number. Behind them a line stays as it is, and so do the line breaks.
-/
namespace AgentScript

open CharClass Lexeme

variable {f : Nat → Nat}

namespace Reindent

/-- Widths in the same order open and close the same levels. -/
theorem ofWidth_map (hf : StrictMono f) (hzero : f 0 = 0) (levels : List Nat) (width : Nat) :
    ofWidth (levels.map f) (f width) =
      ⟨(ofWidth levels width).levels.map f, (ofWidth levels width).opens,
        (ofWidth levels width).closes, (ofWidth levels width).consistent⟩ := by
  have hhead (levels : List Nat) : (levels.map f).headD 0 = f (levels.headD 0) := by
    cases levels with
    | nil => exact hzero.symm
    | cons level levels => rfl
  have hexceeding : ((levels.map f).takeWhile (f width < ·)).length =
      (levels.takeWhile (width < ·)).length := by
    rw [List.takeWhile_map, List.length_map]
    simp [Function.comp_def, hf.lt_iff_lt]
  have hlanding (n : Nat) : ((levels.map f).drop n).headD 0 = f ((levels.drop n).headD 0) := by
    rw [← List.map_drop, hhead]
  unfold ofWidth
  dsimp only
  rw [hexceeding, hhead, hlanding]
  simp only [hf.lt_iff_lt, hf.injective.eq_iff, ← List.map_drop]
  split_ifs
  · rfl
  · simp [hf.injective.eq_iff]
  · simp [hf.injective.eq_iff]

end Reindent

namespace Layout

/-- The layout in the lines of another one. -/
def on (l m : Layout) : Layout := { m with modes := l.modes, brackets := l.brackets }

/-- The layout with other widths. -/
def indentedBy (f : Nat → Nat) (l : Layout) : Layout :=
  { l with lineWidth := f l.lineWidth, levels := l.levels.map f }

theorem enterLine_indentedBy (hf : StrictMono f) (hzero : f 0 = 0) (l : Layout) (width : Nat) :
    (l.indentedBy f).enterLine (f width) = (l.enterLine width).indentedBy f := by
  unfold enterLine indentedBy
  dsimp only
  rw [Reindent.ofWidth_map hf hzero]

end Layout

namespace Round

variable (l m : Layout)

theorem endLine_indentedBy (n : Nat) :
    endLine (l.indentedBy f) n = ⟨(endLine l n).pieces, (endLine l n).layout.indentedBy f⟩ := by
  unfold endLine
  change (if l.brackets.isEmpty = true then _ else _) = _
  split_ifs <;> rfl

/-- The round in the lines of another layout. -/
def on (r : Round) (m : Layout) : Round := ⟨r.pieces, r.layout.on m⟩

variable {m}

theorem colon_on (previous : Option Char) (text : List Char) :
    colon (l.on m) previous text = (colon l previous text).on m := by
  have hafter (rest : List Char) : afterColon (l.on m) rest = (afterColon l rest).on m := by
    unfold afterColon
    dsimp only [Layout.on, Layout.popModeIf]
    split_ifs <;> rfl
  unfold colon
  rw [hafter]
  split_ifs <;> rfl

theorem dash_on (text : List Char) : dash (l.on m) text = (dash l text).on m := by
  unfold dash
  split
  · rfl
  · rfl
  · split_ifs <;> rfl

theorem properWord_on (text : List Char) :
    properWord (l.on m) text = (properWord l text).on m := by
  unfold properWord
  dsimp only [Layout.on]
  split <;> rfl

theorem word_on (text : List Char) : word (l.on m) text = (word l text).on m := by
  unfold word
  dsimp only [Layout.on]
  split_ifs <;> rfl

section

variable {c : Char} {rest : List Char} (hno : ∀ k n, ¬ BeginsWithMarker (c :: rest) k n)

include hno

theorem bar_on : bar (l.on m) c (c :: rest) = (bar l c (c :: rest)).on m := by
  unfold bar
  cases hm : chompingMarker? (c :: rest) with
  | none => rfl
  | some marker =>
    dsimp only
    rw [if_neg fun hblank => hno _ _ (.multiline hm hblank),
      if_neg fun hblank => hno _ _ (.multiline hm hblank)]
    split_ifs <;> rfl

theorem embeddedCode_on (hc : c = '$') :
    embeddedCode (l.on m) (c :: rest) = (embeddedCode l (c :: rest)).on m := by
  subst hc
  unfold embeddedCode
  cases hm : markerForm? ('$' :: rest) with
  | none => rfl
  | some form =>
    cases form with
    | inline => rfl
    | block => exact absurd (.code rfl hm) (hno _ _)

/-- Where no block is captured, nothing but modes and brackets makes a difference within a line,
and nothing else changes. -/
theorem within_on (hc : isLineBreak c = false) (previous : Option Char) (p : Position) :
    within (l.on m) previous p c (c :: rest) = (within l previous p c (c :: rest)).on m := by
  refine within_related (R := fun a b => a = b.on m) (l.on m) l previous previous p p c _ _ ?space
    ?lineBreak ?comment ?string ?tag ?code ?bar ?colon ?dash ?opening ?closing ?mark ?number ?proper
    ?word ?other
  case space => exact fun _ => rfl
  case lineBreak => exact fun hbreak => absurd hbreak (by simp [hc])
  case comment => exact fun _ => rfl
  case string => exact fun _ => rfl
  case tag =>
    intro _
    dsimp only [on, Layout.on]
  case code => exact fun h => embeddedCode_on l hno h
  case bar => exact bar_on l hno
  case colon => exact fun _ => colon_on l _ _
  case dash => exact fun _ => dash_on l _
  case opening => exact fun b _ => rfl
  case closing => exact fun b _ => rfl
  case mark => exact fun kind _ => rfl
  case number => exact fun _ => rfl
  case proper => exact fun _ => properWord_on l _
  case word => exact fun _ => word_on l _
  case other => rfl

theorem atLineStart_within (hc : isLineBreak c = false) (previous : Option Char) (p : Position) :
    (within l previous p c (c :: rest)).layout.atLineStart = l.atLineStart :=
  congrArg (fun r => r.layout.atLineStart) (within_on l (m := l) hno hc previous p)

theorem within_indentedBy (hc : isLineBreak c = false) (previous : Option Char) (p : Position) :
    within (l.indentedBy f) previous p c (c :: rest) =
      ⟨(within l previous p c (c :: rest)).pieces,
        (within l previous p c (c :: rest)).layout.indentedBy f⟩ := by
  have hlines := congrArg layout (within_on l (m := l) hno hc previous p)
  change (within l previous p c (c :: rest)).layout =
    (within l previous p c (c :: rest)).layout.on l at hlines
  have hother := within_on l (m := l.indentedBy f) hno hc previous p
  rw [on] at hother
  rw [hlines]
  exact hother

end

end Round

variable {text : List Char}

/-- The text with `f n` spaces in the place of the `n` spaces and tabs that every physical line
begins with. Where such blanks are being passed, their number is given. -/
def indentedBy (f : Nat → Nat) : Option Nat → List Char → List Char
  | some n, [] => List.replicate (f n) ' '
  | none, [] => []
  | some n, c :: text =>
    if isInlineSpace c then indentedBy f (some (n + 1)) text
    else List.replicate (f n) ' ' ++ c :: indentedBy f (if isLineBreak c then some 0 else none) text
  | none, c :: text => c :: indentedBy f (if isLineBreak c then some 0 else none) text

theorem drop_blankLength (text : List Char) :
    text.drop (blankLength text) = text.dropWhile isInlineSpace := drop_spanLength _ _

theorem indentedBy_some (n : Nat) (text : List Char) : indentedBy f (some n) text =
    List.replicate (f (n + blankLength text)) ' ' ++
      indentedBy f none (text.dropWhile isInlineSpace) := by
  induction text generalizing n with
  | nil => simp [indentedBy, blankLength, spanLength]
  | cons c text ih =>
    rw [indentedBy]
    split_ifs with hc hbreak
    · have hlength : blankLength (c :: text) = blankLength text + 1 := by
        simp [blankLength, spanLength, hc]
      rw [ih, hlength, List.dropWhile_cons_of_pos hc, Nat.add_right_comm, Nat.add_assoc]
    · simp [blankLength, spanLength, hc, indentedBy, hbreak]
    · simp [blankLength, spanLength, hc, indentedBy, hbreak]

/-- Where no blanks stand at the beginning of the line, none are put there. -/
theorem indentedBy_of_blankLength_eq_zero (hzero : f 0 = 0) (h : blankLength text = 0) :
    indentedBy f (some 0) text = indentedBy f none text := by
  have hdrop : text.dropWhile isInlineSpace = text := by rw [← drop_blankLength, h, List.drop_zero]
  rw [indentedBy_some, h, hdrop, Nat.add_zero, hzero]
  rfl

theorem firstLine_indentedBy (text : List Char) :
    firstLine (indentedBy f none text) = firstLine text := by
  induction text with
  | nil => rfl
  | cons c text ih =>
    cases hc : isLineBreak c with
    | true => rw [indentedBy, firstLine_break hc, firstLine_break hc]
    | false => rw [indentedBy, hc, firstLine_cons hc, firstLine_cons hc, if_neg nofun, ih]

/-- What is passed of a line is passed of the indented one. -/
theorem drop_indentedBy {n : Nat} (h : n ≤ (firstLine text).length) :
    (indentedBy f none text).drop n = indentedBy f none (text.drop n) := by
  induction n generalizing text with
  | zero => rfl
  | succ n ih =>
    cases text with
    | nil => simp [indentedBy]
    | cons c text =>
      cases hc : isLineBreak c with
      | true =>
        rw [firstLine_break hc] at h
        exact absurd h (Nat.not_succ_le_zero n)
      | false =>
        rw [firstLine_cons hc] at h
        rw [indentedBy, hc, if_neg nofun, List.drop_succ_cons, List.drop_succ_cons,
          ih (Nat.le_of_succ_le_succ h)]

theorem take_indentedBy {n : Nat} (h : n ≤ (firstLine text).length) :
    (indentedBy f none text).take n = text.take n := by
  rw [← take_firstLine h, ← take_firstLine ((firstLine_indentedBy text).symm ▸ h),
    firstLine_indentedBy]

section

variable (hf : StrictMono f) (hzero : f 0 = 0)

include hf hzero

theorem indentedBy_eq_nil_iff (st : Option Nat) (hst : st = none ∨ st = some 0) :
    indentedBy f st text = [] ↔ text = [] := by
  have hnone (text : List Char) : indentedBy f none text = [] ↔ text = [] := by
    cases text <;> simp [indentedBy]
  rcases hst with rfl | rfl
  · exact hnone text
  · rw [indentedBy_some, List.append_eq_nil_iff, hnone, List.replicate_eq_nil_iff, Nat.zero_add]
    constructor
    · rintro ⟨hwidth, hrest⟩
      have hblank : blankLength text = 0 := hf.injective (hwidth.trans hzero.symm)
      rwa [← drop_blankLength, hblank, List.drop_zero] at hrest
    · rintro rfl
      exact ⟨hzero, rfl⟩

/-- The indented text begins with a line feed only where the text does. -/
theorem head?_indentedBy (h : text.head? ≠ some '\n') :
    (indentedBy f (some 0) text).head? ≠ some '\n' := by
  rw [indentedBy_some, Nat.zero_add]
  cases hwidth : f (blankLength text) with
  | succ n => simp [List.replicate_succ]
  | zero =>
    have hblank : blankLength text = 0 := hf.injective (hwidth.trans hzero.symm)
    rw [← drop_blankLength, hblank, List.drop_zero]
    cases text with
    | nil => simp [indentedBy]
    | cons c text => simpa [indentedBy] using h

/-- A line break stays whole, and another line is indented behind it. -/
theorem indentedBy_break {c : Char} (hc : isLineBreak c = true) (text : List Char) :
    breakLength (indentedBy f none (c :: text)) = breakLength (c :: text) ∧
      (indentedBy f none (c :: text)).take (breakLength (c :: text)) =
        (c :: text).take (breakLength (c :: text)) ∧
      (indentedBy f none (c :: text)).drop (breakLength (c :: text)) =
        indentedBy f (some 0) ((c :: text).drop (breakLength (c :: text))) := by
  rw [indentedBy, if_pos hc]
  rcases eq_of_isLineBreak hc with rfl | rfl
  · exact ⟨rfl, rfl, rfl⟩
  by_cases hfeed : text.head? = some '\n'
  · obtain ⟨text, rfl⟩ : ∃ rest, text = '\n' :: rest := by
      cases text with
      | nil => exact nomatch hfeed
      | cons c text => exact ⟨text, by simpa using hfeed⟩
    have hindented : indentedBy f (some 0) ('\n' :: text) = '\n' :: indentedBy f (some 0) text := by
      rw [indentedBy, hzero]
      rfl
    rw [hindented]
    exact ⟨rfl, rfl, rfl⟩
  · have hone {text : List Char} (h : text.head? ≠ some '\n') : breakLength ('\r' :: text) = 1 := by
      cases text with
      | nil => rfl
      | cons c text => simp_all [breakLength]
    rw [hone hfeed, hone (head?_indentedBy hf hzero hfeed)]
    exact ⟨rfl, rfl, rfl⟩

omit hf hzero in
/-- What stands behind the blanks at the beginning of a line is not indented further. -/
theorem takeWhile_indentedBy (text : List Char) :
    (indentedBy f (some 0) text).takeWhile isInlineSpace =
        List.replicate (f (blankLength text)) ' ' ∧
      (indentedBy f (some 0) text).dropWhile isInlineSpace =
        indentedBy f none (text.dropWhile isInlineSpace) := by
  have hspaces : ∀ c ∈ List.replicate (f (blankLength text)) ' ', isInlineSpace c = true :=
    fun c hc => List.eq_of_mem_replicate hc ▸ rfl
  have hnext := List.head?_dropWhile_not isInlineSpace text
  rw [indentedBy_some, Nat.zero_add, List.takeWhile_append_of_pos hspaces,
    List.dropWhile_append_of_pos hspaces]
  generalize text.dropWhile isInlineSpace = rest at hnext ⊢
  cases rest with
  | nil => simp [indentedBy]
  | cons c rest =>
    have hc : isInlineSpace c = false := hnext
    simp [indentedBy, hc]

omit hf hzero in
theorem blankLength_indentedBy (text : List Char) :
    blankLength (indentedBy f (some 0) text) = f (blankLength text) := by
  rw [blankLength, spanLength, (takeWhile_indentedBy text).1, List.length_replicate, blankLength]

omit hf hzero in
theorem restIsBlank_indentedBy (text : List Char) :
    restIsBlank (indentedBy f (some 0) text) = restIsBlank text := by
  have hhead : nextSignificant? (indentedBy f (some 0) text) = nextSignificant? text := by
    rw [nextSignificant?, nextSignificant?, (takeWhile_indentedBy text).2]
    cases text.dropWhile isInlineSpace <;> rfl
  rw [restIsBlank, restIsBlank, hhead]

/-- The text behind a line and its break. -/
def behindLine (text : List Char) : List Char :=
  (text.drop (lineLength text)).drop (breakLength (text.drop (lineLength text)))

/-- Behind a line another one is indented. -/
theorem behindLine_indentedBy (text : List Char) :
    behindLine (indentedBy f (some 0) text) = indentedBy f (some 0) (behindLine text) := by
  have hline (text : List Char) : text.drop (lineLength text) =
      (text.dropWhile isInlineSpace).dropWhile fun c => !isLineBreak c := by
    have hblank : ∀ c ∈ text.takeWhile isInlineSpace, (!isLineBreak c) = true := by
      intro c hc
      have hspace : isInlineSpace c = true := List.mem_takeWhile_imp hc
      rcases Bool.or_eq_true_iff.mp hspace with h | h <;> simp [eq_of_beq h, isLineBreak]
    rw [lineLength, drop_spanLength]
    conv_lhs => rw [← List.takeWhile_append_dropWhile (p := isInlineSpace) (l := text)]
    exact List.dropWhile_append_of_pos hblank
  have hpass (text : List Char) : (indentedBy f none text).dropWhile (fun c => !isLineBreak c) =
      indentedBy f none (text.dropWhile fun c => !isLineBreak c) := by
    rw [← drop_spanLength, ← drop_spanLength, ← lineLength, ← length_firstLine,
      firstLine_indentedBy]
    exact drop_indentedBy (Nat.le_refl _)
  unfold behindLine
  rw [hline, hline text, (takeWhile_indentedBy text).2, hpass]
  have hbreak := List.head?_dropWhile_not (fun c => !isLineBreak c) (text.dropWhile isInlineSpace)
  generalize (text.dropWhile isInlineSpace).dropWhile (fun c => !isLineBreak c) = rest at hbreak ⊢
  cases rest with
  | nil => simp [indentedBy, hzero]
  | cons c rest =>
    obtain ⟨hlength, -, hdrop⟩ := indentedBy_break hf hzero (by simpa using hbreak) rest
    rw [hlength, hdrop]

end

end AgentScript
