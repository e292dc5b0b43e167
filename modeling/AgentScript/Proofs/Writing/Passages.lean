import AgentScript.Text.Chomping

/-!
# Passages

A passage is a text of several lines. Written with an indentation and with blank lines behind it,
it is what a chomping makes of it: its own lines or the indented ones, and the line breaks that the
chomping keeps.
-/
namespace AgentScript

open CharClass

variable {lines : List Line} {line l : Line} {indent : List Char}

namespace Line

/-- The line moved behind an indentation; a blank line stays as it is. -/
def shifted (indent : List Char) (line : Line) : Line :=
  if line.isBlank then line else indent ++ line

theorem shifted_of_isBlank (h : line.isBlank = true) : line.shifted indent = line := by
  rw [shifted, if_pos h]

theorem shifted_of_not_isBlank (h : line.isBlank = false) :
    line.shifted indent = indent ++ line := by
  rw [shifted, if_neg (by simp [h])]

@[simp] theorem isBlank_shifted : (line.shifted indent).isBlank = line.isBlank := by
  cases h : line.isBlank with
  | true => rw [shifted_of_isBlank h, h]
  | false =>
    rw [shifted_of_not_isBlank h, isBlank, List.all_append]
    exact Bool.and_eq_false_iff.mpr (.inr h)

theorem indentation_shifted (hindent : ∀ c ∈ indent, isInlineSpace c = true)
    (h : line.isBlank = false) :
    (line.shifted indent).indentation = indent.length + line.indentation := by
  rw [shifted_of_not_isBlank h, indentation, List.takeWhile_append_of_pos hindent,
    List.length_append, indentation]

end Line

namespace Block

@[simp] theorem join_singleton (l : Line) : join [l] = l := List.intercalate_singleton

@[simp] theorem join_cons_cons (l l' : Line) (lines : List Line) :
    join (l :: l' :: lines) = l ++ '\n' :: join (l' :: lines) := by
  rw [join, List.intercalate_cons_cons, List.append_assoc, List.singleton_append, join]

/-- Blank lines at the end do not belong to the body. -/
theorem body_append_blank (h : ∃ l ∈ lines.getLast?, l.isBlank = false) {blanks : List Line}
    (hblanks : ∀ l ∈ blanks, l.isBlank = true) : body (lines ++ blanks) = lines := by
  obtain ⟨l, hl, hblank⟩ := h
  obtain ⟨front, rfl⟩ := List.getLast?_eq_some_iff.mp hl
  rw [body, List.reverse_append, List.dropWhile_append_of_pos (by simpa using hblanks),
    List.reverse_append, List.reverse_singleton, List.singleton_append,
    List.dropWhile_cons_of_neg (by simp [hblank]), ← List.singleton_append, List.reverse_append,
    List.reverse_reverse, List.reverse_singleton]

/-- The margin is the indentation of a line that is indented least. -/
theorem margin_eq (hl : l ∈ lines) (hblank : l.isBlank = false)
    (hleast : ∀ l' ∈ lines, l'.isBlank = false → l.indentation ≤ l'.indentation) :
    margin lines = l.indentation := by
  have hmin : ((lines.filter fun l => !l.isBlank).map Line.indentation).min? =
      some l.indentation := by
    rw [List.min?_eq_some_iff]
    constructor
    · exact List.mem_map_of_mem (List.mem_filter.mpr ⟨hl, by simp [hblank]⟩)
    · intro n hn
      obtain ⟨l', hl', rfl⟩ := List.mem_map.mp hn
      obtain ⟨hmem, hblank'⟩ := List.mem_filter.mp hl'
      exact hleast l' hmem (by simpa using hblank')
  rw [margin, hmin, Option.getD_some]

theorem margin_le (hl : line ∈ lines) (hblank : line.isBlank = false) :
    margin lines ≤ line.indentation :=
  List.min?_getD_le_of_mem (List.mem_map_of_mem (List.mem_filter.mpr ⟨hl, by simp [hblank]⟩))

/-- The margin is the indentation of one of the lines that are not blank. -/
theorem exists_margin (h : ∃ l ∈ lines, l.isBlank = false) :
    ∃ l ∈ lines, l.isBlank = false ∧ l.indentation = margin lines := by
  obtain ⟨l, hl, hblank⟩ := h
  have hmem : l.indentation ∈ (lines.filter fun l => !l.isBlank).map Line.indentation :=
    List.mem_map_of_mem (List.mem_filter.mpr ⟨hl, by simp [hblank]⟩)
  obtain ⟨least, hleast⟩ := Option.isSome_iff_exists.mp
    (List.isSome_min?_iff.mpr (List.ne_nil_of_mem hmem))
  obtain ⟨l', hl', heq⟩ := List.mem_map.mp (List.min?_mem hleast)
  obtain ⟨hl', hblank'⟩ := List.mem_filter.mp hl'
  refine ⟨l', hl', by simpa using hblank', ?_⟩
  rw [margin, hleast, heq, Option.getD_some]

theorem margin_map_shifted (hindent : ∀ c ∈ indent, isInlineSpace c = true)
    (h : ∃ l ∈ lines, l.isBlank = false) :
    margin (lines.map (Line.shifted indent)) = indent.length + margin lines := by
  obtain ⟨l, hl, hblank, hmargin⟩ := exists_margin h
  rw [← hmargin, ← Line.indentation_shifted hindent hblank]
  refine margin_eq (List.mem_map_of_mem hl) (by simpa using hblank) ?_
  refine List.forall_mem_map.mpr fun l' hl' hblank' => ?_
  rw [Line.isBlank_shifted] at hblank'
  have hle := margin_le hl' hblank'
  rw [Line.indentation_shifted hindent hblank, Line.indentation_shifted hindent hblank']
  omega

/-- Lines that move to the right together are dedented to the same lines. -/
theorem dedent_map_shifted (hindent : ∀ c ∈ indent, isInlineSpace c = true) :
    dedent (lines.map (Line.shifted indent)) = dedent lines := by
  unfold dedent
  rw [List.map_map]
  refine List.map_congr_left fun l hl => ?_
  rw [Function.comp_apply, Line.isBlank_shifted]
  cases hblank : l.isBlank with
  | true => rfl
  | false =>
    rw [if_neg Bool.false_ne_true, if_neg Bool.false_ne_true,
      margin_map_shifted hindent ⟨l, hl, hblank⟩, Line.shifted_of_not_isBlank hblank,
      ← List.drop_drop, List.drop_left]

end Block

namespace Writing

/-- Lines of which the last is not blank. Those that are blank are empty, and the others share no
indentation. -/
structure Passage where
  lines : List Line
  unbroken : ∀ l ∈ lines, ∀ c ∈ l, isLineBreak c = false
  empty : ∀ l ∈ lines, l.isBlank = true → l = []
  ends : ∃ l ∈ lines.getLast?, l.isBlank = false
  flush : ∃ l ∈ lines, l.isBlank = false ∧ l.indentation = 0

namespace Passage

variable (p : Passage)

def indented (columns : Nat) : List Line := p.lines.map (.shifted (List.replicate columns ' '))

/-- What the passage is for a chomping. -/
def value (chomping : Chomping) (columns blanks : Nat) : List Char :=
  match chomping with
  | .strip => Block.join p.lines
  | .clean => Block.join p.lines ++ ['\n']
  | .preserve => Block.join (p.indented columns) ++ ['\n']
  | .preserveAll => Block.join (p.indented columns) ++ ['\n'] ++ List.replicate blanks '\n'

/-- The lines as they are written. -/
def written (columns blanks : Nat) : List Line :=
  p.indented columns ++ List.replicate blanks []

variable {columns blanks : Nat} {p}

/-- A written line is empty, or it is a line of the passage behind the indentation. -/
theorem mem_written {line : Line} (h : line ∈ p.written columns blanks) :
    line = [] ∨ ∃ l ∈ p.lines, line = List.replicate columns ' ' ++ l := by
  rcases List.mem_append.mp h with h | h
  · obtain ⟨l, hl, rfl⟩ := List.mem_map.mp h
    cases hblank : l.isBlank with
    | true => exact .inl ((Line.shifted_of_isBlank hblank).trans (p.empty l hl hblank))
    | false => exact .inr ⟨l, hl, Line.shifted_of_not_isBlank hblank⟩
  · exact .inl (List.eq_of_mem_replicate h)

theorem unbroken_written {line : Line} (h : line ∈ p.written columns blanks) :
    ∀ c ∈ line, isLineBreak c = false := by
  rcases mem_written h with rfl | ⟨l, hl, rfl⟩
  · simp
  · refine List.forall_mem_append.mpr ⟨fun c hc => ?_, p.unbroken l hl⟩
    rw [List.eq_of_mem_replicate hc]
    rfl

variable (p)

theorem written_ne_nil : p.written columns blanks ≠ [] := by
  obtain ⟨l, hl, -⟩ := p.flush
  exact List.append_ne_nil_of_left_ne_nil (List.ne_nil_of_mem (List.mem_map_of_mem hl)) _

theorem body_written : Block.body (p.written columns blanks) = p.indented columns := by
  obtain ⟨l, hl, hblank⟩ := p.ends
  refine Block.body_append_blank ⟨l.shifted (List.replicate columns ' '), ?_, by simp [hblank]⟩ ?_
  · rw [indented, List.getLast?_map]
    exact Option.mem_map_of_mem _ hl
  · intro l hl
    rw [List.eq_of_mem_replicate hl]
    rfl

/-- A line of the passage has no indentation, so none is removed. -/
theorem dedent_lines : Block.dedent p.lines = p.lines := by
  obtain ⟨l, hl, hblank, hflush⟩ := p.flush
  have hmargin : Block.margin p.lines = 0 :=
    Nat.eq_zero_of_le_zero (hflush ▸ Block.margin_le hl hblank)
  rw [Block.dedent, hmargin]
  refine (List.map_congr_left fun l hl => ?_).trans (List.map_id _)
  cases hblank : l.isBlank with
  | true => exact (p.empty l hl hblank).symm
  | false => rfl

theorem dedent_indented : Block.dedent (p.indented columns) = p.lines := by
  have hspaces : ∀ c ∈ List.replicate columns ' ', isInlineSpace c = true := by
    simp [isInlineSpace]
  rw [indented, Block.dedent_map_shifted hspaces, dedent_lines]

/-- What is made of the lines that are written is what the passage is. -/
theorem fold_written (chomping : Chomping) :
    chomping.fold (p.written columns blanks) = p.value chomping columns blanks := by
  have hlines : (p.indented columns).isEmpty = false := by
    obtain ⟨l, hl, -⟩ := p.flush
    rw [indented, List.isEmpty_map, List.isEmpty_eq_false_iff_exists_mem]
    exact ⟨l, hl⟩
  have hblanks : (p.written columns blanks).length - (p.indented columns).length = blanks := by
    rw [written, List.length_append, List.length_replicate, Nat.add_sub_cancel_left]
  rw [Chomping.fold, body_written, hlines, hblanks]
  cases chomping with
  | strip => simp [Chomping.keepsIndentation, Chomping.ending, value, dedent_indented]
  | clean => simp [Chomping.keepsIndentation, Chomping.ending, value, dedent_indented]
  | preserve => simp [Chomping.keepsIndentation, Chomping.ending, value]
  | preserveAll => simp [Chomping.keepsIndentation, Chomping.ending, value]

end Passage

-- Two blank lines stand behind the passage, and one within it.
example : Chomping.preserveAll.fold
    ["      a".toList, [], "        b".toList, [], []] = "      a\n\n        b\n\n\n".toList := by
  decide +kernel

end Writing

end AgentScript
