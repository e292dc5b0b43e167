import AgentScript.Proofs.Reading.Spans
import Mathlib.Data.List.Forall2

/-!
# Physical lines

A text falls into physical lines, each with the line end behind it, which only the last line can
lack. Joined they are the text again. Lines that are joined fall apart into themselves, unless a
line feed comes to stand behind a carriage return.
-/
namespace AgentScript

open CharClass Lexeme

/-- The text of a line and the line end behind it. -/
structure PhysicalLine where
  text : List Char
  ending : List Char
deriving DecidableEq

namespace PhysicalLine

def chars (l : PhysicalLine) : List Char := l.text ++ l.ending

def join (ls : List PhysicalLine) : List Char := ls.flatMap chars

/-- The physical lines of a text. What stands behind the last line end is a line if there is
something. -/
def split : List Char → List PhysicalLine
  | [] => []
  | '\r' :: '\n' :: rest => ⟨[], ['\r', '\n']⟩ :: split rest
  | c :: rest =>
    if isLineBreak c then ⟨[], [c]⟩ :: split rest
    else
      match split rest with
      | [] => [⟨[c], []⟩]
      | l :: more => ⟨c :: l.text, l.ending⟩ :: more

/-- Nothing but spaces and tabs. -/
def isBlank (l : PhysicalLine) : Bool := l.text.all isInlineSpace

/-- The line belongs to a block below a line of width `base`. -/
def isCaptured (base : Nat) (l : PhysicalLine) : Bool := l.isBlank || base < blankLength l.text

/-- What a line can end with where `following` comes next. -/
inductive EndsWith (following : List Char) : List Char → Prop
  | feed : EndsWith following ['\n']
  | both : EndsWith following ['\r', '\n']
  | carriageReturn (alone : following.head? ≠ some '\n') : EndsWith following ['\r']
  | last (none : following = []) : EndsWith following []

/-- The line stands apart from the text that follows. -/
structure Before (l : PhysicalLine) (following : List Char) : Prop where
  unbroken : ∀ c ∈ l.text, isLineBreak c = false
  ending : EndsWith following l.ending

/-- Every line stands apart from what comes behind it. -/
def Parted : List PhysicalLine → List Char → Prop
  | [], _ => True
  | l :: more, rest => l.chars ≠ [] ∧ l.Before (join more ++ rest) ∧ Parted more rest

variable {l : PhysicalLine} {ls ls' : List PhysicalLine} {text rest following : List Char}

@[simp] theorem join_nil : join [] = [] := rfl

@[simp] theorem join_cons : join (l :: ls) = l.chars ++ join ls := rfl

@[simp] theorem join_append : join (ls ++ ls') = join ls ++ join ls' := List.flatMap_append

theorem drop_chars (l : PhysicalLine) (following : List Char) :
    (l.chars ++ following).drop (l.text.length + l.ending.length) = following := by
  simp [chars]

theorem parted_append :
    Parted (ls ++ ls') rest ↔ Parted ls (join ls' ++ rest) ∧ Parted ls' rest := by
  induction ls with
  | nil => simp [Parted]
  | cons l ls ih => simp [Parted, ih, and_assoc]

namespace Before

variable (h : l.Before following)

include h

theorem firstLine_eq : firstLine (l.chars ++ following) = l.text := by
  have htext : ∀ c ∈ l.text, (!isLineBreak c) = true := by simpa using h.unbroken
  rw [chars, List.append_assoc, firstLine, List.takeWhile_append_of_pos htext]
  obtain ⟨text, ending⟩ := l
  cases h.ending with
  | feed | both | carriageReturn => simp [isLineBreak]
  | last none => simp [none]

theorem lineLength_eq : lineLength (l.chars ++ following) = l.text.length := by
  rw [← length_firstLine, h.firstLine_eq]

theorem breakLength_eq :
    breakLength ((l.chars ++ following).drop l.text.length) = l.ending.length := by
  obtain ⟨text, ending⟩ := l
  rw [chars, List.append_assoc, List.drop_left]
  cases h.ending with
  | feed | both => simp [breakLength]
  | carriageReturn alone =>
    cases following with
    | nil => rfl
    | cons c rest =>
      have hc : c ≠ '\n' := by simpa using alone
      simp [breakLength, hc]
  | last none => simp [none, breakLength]

/-- The line comes first. -/
theorem split_eq (hne : l.chars ≠ []) : split (l.chars ++ following) = l :: split following := by
  obtain ⟨text, ending⟩ := l
  obtain ⟨hunbroken, hending⟩ := h
  induction text with
  | nil =>
    cases hending with
    | feed | both => simp [chars, split, isLineBreak]
    | carriageReturn alone =>
      cases following with
      | nil => simp [chars, split, isLineBreak]
      | cons c rest =>
        have hc : c ≠ '\n' := by simpa using alone
        simp [chars, split, isLineBreak, hc]
    | last => exact absurd rfl hne
  | cons c text ih =>
    obtain ⟨hc, htext⟩ := List.forall_mem_cons.mp hunbroken
    have hreturn : c ≠ '\r' := by rintro rfl; simp [isLineBreak] at hc
    change split (c :: (chars ⟨text, ending⟩ ++ following)) = _
    by_cases hlast : chars ⟨text, ending⟩ = []
    · obtain ⟨rfl, rfl⟩ := List.append_eq_nil_iff.mp hlast
      cases hending with
      | last none => simp [chars, none, split, hc]
    · have hrest := ih hlast htext hending
      simp [split, hreturn, hc, hrest]

end Before

theorem join_split (text : List Char) : join (split text) = text := by
  fun_induction split text with
  | case1 => rfl
  | case2 rest ih => simp [chars, ih]
  | case3 c rest _ hc ih => simp [chars, ih]
  | case4 c rest _ hc hrest ih => simpa [chars, hrest] using ih
  | case5 c rest _ hc l more hrest ih => simpa [chars, hrest] using ih

/-- The physical lines of a text stand apart. -/
theorem parted_split (text : List Char) : Parted (split text) [] := by
  fun_induction split text with
  | case1 => trivial
  | case2 rest ih => exact ⟨by simp [chars], ⟨by simp, .both⟩, ih⟩
  | case3 c rest hpair hc ih =>
    refine ⟨by simp [chars], ⟨by simp, ?_⟩, ih⟩
    rw [List.append_nil, join_split]
    rcases eq_of_isLineBreak hc with rfl | rfl
    · exact .feed
    · refine .carriageReturn fun hhead => ?_
      obtain ⟨more, rfl⟩ := List.head?_eq_some_iff.mp hhead
      exact hpair more rfl rfl
  | case4 c rest _ hc hrest ih => exact ⟨by simp [chars], ⟨by simpa using hc, .last rfl⟩, trivial⟩
  | case5 c rest _ hc l more hrest ih =>
    rw [hrest] at ih
    obtain ⟨-, hbefore, hmore⟩ := ih
    refine ⟨by simp [chars], ⟨?_, hbefore.ending⟩, hmore⟩
    exact List.forall_mem_cons.mpr ⟨by simpa using hc, hbefore.unbroken⟩

theorem ne_nil_of_isBlank (h : l.isBlank = false) : l.text ≠ [] := by
  intro hnil
  simp [isBlank, hnil] at h

theorem Before.ending_ne_nil (h : l.Before following) (hne : following ≠ []) : l.ending ≠ [] := by
  obtain ⟨text, ending⟩ := l
  cases h.ending with
  | feed | both | carriageReturn => simp
  | last none => exact absurd none hne

/-- A line in place of a captured one: the same, or, where that is not blank, one with another text
that is not blank and still deeper than `base`. -/
structure Rewrites (base : Nat) (l l' : PhysicalLine) : Prop where
  ending : l'.ending = l.ending
  text : l'.text = l.text ∨ l.isBlank = false ∧ l'.isBlank = false ∧
    base < blankLength l'.text ∧ ∀ c ∈ l'.text, isLineBreak c = false

variable {base : Nat} {l' : PhysicalLine}

theorem Rewrites.refl (base : Nat) (l : PhysicalLine) : Rewrites base l l := ⟨rfl, .inl rfl⟩

theorem Rewrites.isCaptured (h : Rewrites base l l') (hl : l.isCaptured base = true) :
    l'.isCaptured base = true := by
  rcases h.text with htext | ⟨-, -, hdeep, -⟩
  · simpa [PhysicalLine.isCaptured, isBlank, htext] using hl
  · simp [PhysicalLine.isCaptured, hdeep]

theorem isCaptured_rewrites (h : List.Forall₂ (Rewrites base) ls ls')
    (hls : ∀ l ∈ ls, l.isCaptured base = true) : ∀ l ∈ ls', l.isCaptured base = true := by
  induction h with
  | nil => exact hls
  | cons hl _ ih =>
    obtain ⟨hfirst, hmore⟩ := List.forall_mem_cons.mp hls
    exact List.forall_mem_cons.mpr ⟨hl.isCaptured hfirst, ih hmore⟩

theorem Rewrites.chars_ne_nil (h : Rewrites base l l') (hl : l.chars ≠ []) : l'.chars ≠ [] := by
  rcases h.text with htext | ⟨-, hblank, -⟩
  · simpa [chars, htext, h.ending] using hl
  · simp [chars, ne_nil_of_isBlank hblank]

/-- The line ends as before where what follows is as empty as before and no line feed. -/
theorem Before.rewrites {following' : List Char} (h : l.Before following) (hl : Rewrites base l l')
    (hnil : following = [] → following' = [])
    (hfeed : following'.head? = some '\n' → following.head? = some '\n') :
    l'.Before following' := by
  constructor
  case unbroken =>
    rcases hl.text with htext | ⟨-, -, -, hunbroken⟩
    · simpa [htext] using h.unbroken
    · exact hunbroken
  case ending =>
    obtain ⟨text, ending⟩ := l
    rw [hl.ending]
    cases h.ending with
    | feed => exact .feed
    | both => exact .both
    | carriageReturn alone => exact .carriageReturn fun hhead => alone (hfeed hhead)
    | last none => exact .last (hnil none)

/-- No line feed comes to the beginning of the text, and nothing is left of it only where nothing
was. -/
theorem join_rewrites (h : List.Forall₂ (Rewrites base) ls ls') (hls : Parted ls rest) :
    (join ls ++ rest = [] → join ls' ++ rest = []) ∧
      ((join ls' ++ rest).head? = some '\n' → (join ls ++ rest).head? = some '\n') := by
  cases h with
  | nil => exact ⟨id, id⟩
  | @cons l l' ls ls' hl _ =>
    obtain ⟨hne, hbefore, -⟩ := hls
    refine ⟨fun hnil => absurd hnil (by simp [hne]), fun hhead => ?_⟩
    rw [join_cons, List.append_assoc, List.head?_append_of_ne_nil _ (hl.chars_ne_nil hne)] at hhead
    rw [join_cons, List.append_assoc, List.head?_append_of_ne_nil _ hne]
    rcases hl.text with htext | ⟨-, hblank, -, hunbroken⟩
    · simpa [chars, htext, hl.ending] using hhead
    · rw [chars, List.head?_append_of_ne_nil _ (ne_nil_of_isBlank hblank)] at hhead
      have hfeed := hunbroken _ (List.mem_of_head? hhead)
      simp [isLineBreak] at hfeed

theorem Parted.rewrites (hls : Parted ls rest) (h : List.Forall₂ (Rewrites base) ls ls') :
    Parted ls' rest := by
  induction h with
  | nil => trivial
  | @cons l l' ls ls' hl h ih =>
    obtain ⟨hne, hbefore, hls⟩ := hls
    obtain ⟨hnil, hfeed⟩ := join_rewrites h hls
    exact ⟨hl.chars_ne_nil hne, hbefore.rewrites hl hnil hfeed, ih hls⟩

end PhysicalLine

open PhysicalLine

namespace Tracker

variable {t t' : Tracker} {l l' : PhysicalLine} {ls ls' : List PhysicalLine}
  {text rest following : List Char} {base : Nat}

/-- The tracker does not stand within a line end. -/
def Clear (t : Tracker) (text : List Char) : Prop := t.afterReturn = true → text.head? ≠ some '\n'

theorem afterReturn_read_line (h : ∀ c ∈ text, isLineBreak c = false) (hne : text ≠ [])
    (t : Tracker) : (t.read text).afterReturn = false := by
  rcases List.eq_nil_or_concat text with hnil | ⟨before, c, rfl⟩
  · exact absurd hnil hne
  · have hc : c ≠ '\r' := by
      rintro rfl
      simpa [isLineBreak] using h '\r' (by simp)
    rw [List.concat_eq_append, read_append]
    exact Cursor.afterReturn_step hc _

/-- A line is counted once, at its end. -/
theorem line_read_chars (h : l.Before following) (hne : l.ending ≠ [])
    (hclear : t.Clear (l.chars ++ following)) :
    (t.read l.chars).position.line = t.position.line + 1 ∧ (t.read l.chars).Clear following := by
  obtain ⟨text, ending⟩ := l
  obtain ⟨hunbroken, hending⟩ := h
  have hline : (t.read text).position.line = t.position.line := by
    rw [position_read_line hunbroken]
  have htext : (t.read text).Clear (ending ++ following) := by
    by_cases hnil : text = []
    · simpa [hnil, chars] using hclear
    · intro hreturn
      simp [afterReturn_read_line hunbroken hnil] at hreturn
  rw [chars, read_append]
  generalize t.read text = u at hline htext
  rw [← hline]
  cases hending with
  | feed =>
    have hreturn : u.afterReturn = false := by
      by_contra hreturn
      exact htext (by simpa using hreturn) rfl
    simp [step, hreturn, Clear]
  | both => simp [step, Clear]
  | carriageReturn alone => simpa [step, Clear] using alone
  | last => exact absurd rfl hne

theorem line_read_join (h : Parted ls rest) (hne : rest ≠ []) (hclear : t.Clear (join ls ++ rest)) :
    (t.read (join ls)).position.line = t.position.line + ls.length ∧
      (t.read (join ls)).Clear rest := by
  induction ls generalizing t with
  | nil => exact ⟨rfl, hclear⟩
  | cons l ls ih =>
    obtain ⟨-, hbefore, hls⟩ := h
    rw [join_cons, List.append_assoc] at hclear
    obtain ⟨hline, hclear⟩ := line_read_chars hbefore (hbefore.ending_ne_nil (by simp [hne])) hclear
    obtain ⟨hlines, hclear⟩ := ih hls hclear
    rw [join_cons, read_append, List.length_cons, hlines, hline]
    exact ⟨by omega, hclear⟩

/-- Two trackers on the same line. -/
structure Level (t t' : Tracker) : Prop where
  line : t'.position.line = t.position.line
  afterReturn : t'.afterReturn = t.afterReturn

theorem Level.read (h : t.Level t') (text : List Char) : (t.read text).Level (t'.read text) := by
  induction text generalizing t t' with
  | nil => exact h
  | cons c text ih =>
    refine ih ?_
    obtain ⟨hline, hreturn⟩ := h
    constructor <;> simp only [step, hreturn] <;> split_ifs <;> simp [hline]

/-- Lines in place of others are counted like them. -/
theorem Level.rewrites (h : t.Level t') (hls : Parted ls rest)
    (hrewrites : List.Forall₂ (Rewrites base) ls ls') :
    (t.read (join ls)).Level (t'.read (join ls')) := by
  induction hrewrites generalizing t t' with
  | nil => exact h
  | @cons l l' ls ls' hl _ ih =>
    obtain ⟨-, hbefore, hls⟩ := hls
    rw [join_cons, join_cons, read_append, read_append]
    refine ih ?_ hls
    rw [chars, chars, hl.ending, read_append, read_append]
    refine Level.read ?_ l.ending
    rcases hl.text with htext | ⟨hblank, hblank', -, hunbroken⟩
    · rw [htext]
      exact h.read l.text
    · have hne := ne_nil_of_isBlank hblank
      have hne' := ne_nil_of_isBlank hblank'
      constructor
      · rw [position_read_line hunbroken, position_read_line hbefore.unbroken]
        exact h.line
      · rw [afterReturn_read_line hunbroken hne', afterReturn_read_line hbefore.unbroken hne]

end Tracker

end AgentScript
