import AgentScript.Proofs.Reading.SkippedText
import AgentScript.Proofs.Writing.Passages
import Mathlib.Data.List.DropRight
import Mathlib.Data.List.Forall2

/-!
# Chomped lines

Whatever lines a multi-line string captures, each chomping makes one text of them. The forms that
remove the shared indentation give the dedented body, which does not change when all lines move to
the right together. The others give the lines of the body as they are. Only the form that keeps all
line breaks tells how many blank lines stand at the end.
-/
namespace AgentScript

open CharClass

variable {lines : List Line} {line : Line} {indent : List Char}

namespace Line

/-- A line that is not blank is longer than its indentation, which is blank. -/
theorem indentation_lt_length (h : line.isBlank = false) : line.indentation < line.length := by
  by_contra hge
  have hall : line.takeWhile isInlineSpace = line :=
    (List.takeWhile_prefix _).eq_of_length_le (not_lt.mp hge)
  refine Bool.false_ne_true (h.symm.trans (List.all_eq_true.mpr fun c hc => ?_))
  rw [← hall] at hc
  exact isWhitespace_of_isInlineSpace (List.mem_takeWhile_imp hc)

end Line

namespace Block

theorem mem_of_mem_body (h : line ∈ body lines) : line ∈ lines :=
  (List.rdropWhile_prefix Line.isBlank lines).subset h

/-- The last line of a body is not blank. -/
theorem isBlank_getLast_body (h : line ∈ (body lines).getLast?) : line.isBlank = false := by
  rw [body, List.getLast?_reverse] at h
  have hhead := List.head?_dropWhile_not Line.isBlank lines.reverse
  rw [Option.mem_def.mp h] at hhead
  exact hhead

theorem body_eq_nil_iff : body lines = [] ↔ ∀ l ∈ lines, l.isBlank = true := by
  rw [body, List.reverse_eq_nil_iff, List.dropWhile_eq_nil_iff]
  simp

theorem body_map_shifted :
    body (lines.map (Line.shifted indent)) = (body lines).map (Line.shifted indent) := by
  have hblank : Line.isBlank ∘ Line.shifted indent = Line.isBlank := funext fun l => by simp
  rw [body, ← List.map_reverse, List.dropWhile_map, hblank, ← List.map_reverse, body]

/-- What is removed of a line that is not blank are spaces and tabs, as many as the margin. -/
theorem take_margin (hl : line ∈ lines) (hblank : line.isBlank = false) :
    (line.take (margin lines)).length = margin lines ∧
      ∀ c ∈ line.take (margin lines), isInlineSpace c = true := by
  have hle := margin_le hl hblank
  have hlength := line.indentation_lt_length hblank
  refine ⟨by rw [List.length_take]; omega, fun c hc => ?_⟩
  have hspaces : line.take line.indentation = line.takeWhile isInlineSpace :=
    (List.prefix_iff_eq_take.mp (List.takeWhile_prefix isInlineSpace)).symm
  have hmem : c ∈ line.take line.indentation := List.take_subset_take_left line hle hc
  exact List.mem_takeWhile_imp (hspaces ▸ hmem)

theorem dedentBody_map_shifted (hindent : ∀ c ∈ indent, isInlineSpace c = true) :
    dedentBody (lines.map (Line.shifted indent)) = dedentBody lines := by
  rw [dedentBody, body_map_shifted, dedent_map_shifted hindent, dedentBody]

/-- Every line with a line break behind it. -/
def closed (lines : List Line) : List Char := lines.flatMap (· ++ ['\n'])

/-- The last line stands at the end of the joined lines. -/
theorem join_concat (lines : List Line) (l : Line) : join (lines ++ [l]) = closed lines ++ l := by
  induction lines with
  | nil => simp [closed]
  | cons l' lines ih =>
    cases lines with
    | nil => simp [closed]
    | cons next lines =>
      rw [List.cons_append, List.cons_append, join_cons_cons, ← List.cons_append, ih]
      simp [closed]

theorem join_append_break (h : lines ≠ []) : join lines ++ ['\n'] = closed lines := by
  obtain ⟨front, l, rfl⟩ := (List.eq_nil_or_concat' lines).resolve_left h
  rw [join_concat]
  simp [closed]

theorem count_closed (h : ∀ l ∈ lines, '\n' ∉ l) : (closed lines).count '\n' = lines.length := by
  induction lines with
  | nil => rfl
  | cons l lines ih =>
    obtain ⟨hl, hlines⟩ := List.forall_mem_cons.mp h
    have hmore : (closed lines).count '\n' = lines.length := ih hlines
    have hcons : closed (l :: lines) = l ++ '\n' :: closed lines := by simp [closed]
    rw [hcons, List.count_append, List.count_cons_self, List.count_eq_zero_of_not_mem hl, hmore,
      Nat.zero_add, List.length_cons]

end Block

namespace Line

/-- The line without a margin of spaces and tabs. A blank line becomes empty. -/
def Dedented (margin : Nat) (line dedented : Line) : Prop :=
  if line.isBlank then dedented = [] else
    ∃ indent, line = indent ++ dedented ∧ indent.length = margin ∧
      ∀ c ∈ indent, isInlineSpace c = true

theorem drop_indentation (line : Line) :
    line.drop line.indentation = line.dropWhile isInlineSpace := Lexeme.drop_spanLength _ _

theorem indentation_drop_indentation (line : Line) :
    indentation (line.drop line.indentation) = 0 := by
  have hhead := List.head?_dropWhile_not isInlineSpace line
  rw [drop_indentation, indentation]
  cases hrest : line.dropWhile isInlineSpace with
  | nil => rfl
  | cons c rest =>
    rw [hrest] at hhead
    simp_all

theorem isBlank_drop_indentation (h : line.isBlank = false) :
    isBlank (line.drop line.indentation) = false := by
  rw [Bool.eq_false_iff] at h ⊢
  refine mt (fun hrest => ?_) h
  rw [drop_indentation] at hrest
  rw [isBlank, ← List.takeWhile_append_dropWhile (p := isInlineSpace) (l := line), List.all_append,
    Bool.and_eq_true_iff, List.all_eq_true]
  exact ⟨fun c hc => isWhitespace_of_isInlineSpace (List.mem_takeWhile_imp hc), hrest⟩

end Line

namespace Block

theorem dedent_dedented (lines : List Line) :
    List.Forall₂ (Line.Dedented (margin lines)) lines (dedent lines) := by
  refine List.forall₂_map_right_iff.mpr (List.forall₂_same.mpr fun l hl => ?_)
  cases hblank : l.isBlank with
  | true => simp [Line.Dedented, hblank]
  | false =>
    obtain ⟨hlength, hspaces⟩ := take_margin hl hblank
    simpa [Line.Dedented, hblank] using
      ⟨l.take (margin lines), (List.take_append_drop _ _).symm, hlength, hspaces⟩

/-- No more could be removed: a line is left that begins with neither space nor tab. -/
theorem exists_flush (h : ∃ l ∈ lines, l.isBlank = false) :
    ∃ l ∈ dedent lines, l.isBlank = false ∧ l.indentation = 0 := by
  obtain ⟨l, hl, hblank, hmargin⟩ := exists_margin h
  refine ⟨l.drop (margin lines), ?_, ?_, ?_⟩
  · exact List.mem_map.mpr ⟨l, hl, if_neg (by simp [hblank])⟩
  · exact hmargin ▸ Line.isBlank_drop_indentation hblank
  · exact hmargin ▸ l.indentation_drop_indentation

end Block

namespace Chomping

open Block

theorem fold_strip (lines : List Line) : strip.fold lines = join (dedentBody lines) :=
  List.append_nil _

theorem fold_clean (lines : List Line) :
    clean.fold lines = strip.fold lines ++ if body lines = [] then [] else ['\n'] := by
  rw [fold_strip]
  cases h : body lines <;> simp [fold, keepsIndentation, ending, dedentBody, h]

theorem fold_preserve (lines : List Line) : preserve.fold lines = closed (body lines) := by
  by_cases h : body lines = []
  · simp [fold, keepsIndentation, ending, h, closed, join]
  · rw [← join_append_break h]
    simp [fold, keepsIndentation, ending, h]

theorem fold_preserveAll (lines : List Line) : preserveAll.fold lines =
    closed (body lines) ++ List.replicate (lines.length - (body lines).length) '\n' := by
  rw [← fold_preserve]
  simp [fold, keepsIndentation, ending]

/-- The last line of the body is not empty when it is dedented, so the text ends with a character
of that line. -/
theorem getLast?_fold_strip (h : ∀ l ∈ lines, '\n' ∉ l) :
    (strip.fold lines).getLast? ≠ some '\n' := by
  rw [fold_strip, dedentBody]
  rcases List.eq_nil_or_concat' (body lines) with hnil | ⟨front, l, hbody⟩
  · rw [hnil]
    exact nofun
  have hlast : l ∈ (body lines).getLast? := by simp [hbody]
  have hmem : l ∈ body lines := List.mem_of_getLast? hlast
  have hblank := isBlank_getLast_body hlast
  have hline : '\n' ∉ l := h l (Block.mem_of_mem_body hmem)
  have hlength := (margin_le hmem hblank).trans_lt (l.indentation_lt_length hblank)
  have hleft : l.drop (margin (body lines)) ≠ [] := by
    rw [Ne, List.drop_eq_nil_iff]
    omega
  rw [dedent]
  nth_rewrite 2 [hbody]
  rw [List.map_append, List.map_singleton, join_concat, if_neg (by simp [hblank]),
    List.getLast?_append_of_ne_nil _ hleft]
  exact fun hbreak => hline (List.mem_of_mem_drop (List.mem_of_getLast? hbreak))

/-- A chomping without the indentation of the lines looks at the dedented body only. -/
theorem fold_map_shifted {c : Chomping} (hc : c = strip ∨ c = clean)
    (hindent : ∀ c ∈ indent, isInlineSpace c = true) :
    c.fold (lines.map (Line.shifted indent)) = c.fold lines := by
  have hstrip : strip.fold (lines.map (Line.shifted indent)) = strip.fold lines := by
    rw [fold_strip, fold_strip, dedentBody_map_shifted hindent]
  rcases hc with rfl | rfl
  · exact hstrip
  · rw [fold_clean, fold_clean, hstrip, body_map_shifted]
    simp only [List.map_eq_nil_iff]

theorem toList_apply (c : Chomping) (lines : List String) :
    (c.apply lines).toList = c.fold (lines.map String.toList) := String.toList_ofList

end Chomping

/-- The strings with a line break behind each. -/
def closedLines (lines : List String) : String := String.join (lines.map (· ++ "\n"))

theorem toList_closedLines (lines : List String) :
    (closedLines lines).toList = Block.closed (lines.map String.toList) := by
  simp [closedLines, Block.closed, String.toList_join, List.flatMap_map]

theorem toList_dedentLines (lines : List String) :
    (dedentLines lines).map String.toList = Block.dedentBody (lines.map String.toList) := by
  simp [dedentLines]

/-- What the chompings make of lines. -/
structure Chomped (lines : List String) : Prop where
  /-- `strip` joins the lines of the dedented body. -/
  strip : Chomping.strip.apply lines = "\n".intercalate (dedentLines lines)
  /-- `strip` leaves the last line open. -/
  getLast?_strip : (Chomping.strip.apply lines).toList.getLast? ≠ some '\n'
  /-- `clean` closes the last line, if there is one. -/
  clean : Chomping.clean.apply lines =
    if ∃ l ∈ lines, Line.isBlank l.toList = false then Chomping.strip.apply lines ++ "\n" else ""
  /-- `preserve` and `preserveAll` keep all lines up to the last one that is not blank as they are;
  of the blank lines behind it `preserveAll` keeps the line breaks. -/
  verbatim : ∃ body blanks, lines = body ++ blanks ∧
    (∀ l ∈ body.getLast?, Line.isBlank l.toList = false) ∧
    (∀ l ∈ blanks, Line.isBlank l.toList = true) ∧
    Chomping.preserve.apply lines = closedLines body ∧
    Chomping.preserveAll.apply lines =
      closedLines body ++ String.ofList (List.replicate blanks.length '\n')
  /-- `preserveAll` has as many line breaks as there are lines. -/
  count_preserveAll : (Chomping.preserveAll.apply lines).toList.count '\n' = lines.length
  /-- A dedented body lacks the same number of spaces and tabs on every line that is not blank. -/
  dedented : ∃ margin, List.Forall₂ (Line.Dedented margin) (Block.body (lines.map String.toList))
    ((dedentLines lines).map String.toList)
  /-- No more could be removed, since a line of a dedented body begins with no blank. -/
  flush : (∃ l ∈ lines, Line.isBlank l.toList = false) →
    ∃ l ∈ dedentLines lines, Line.isBlank l.toList = false ∧ Line.indentation l.toList = 0
  /-- `strip` and `clean` do not tell how far all lines but the blank ones are moved to the
  right. -/
  shifted : ∀ indent : String, (∀ c ∈ indent.toList, isInlineSpace c = true) →
    ∀ c, c = Chomping.strip ∨ c = Chomping.clean →
      c.apply (lines.map fun l => if Line.isBlank l.toList then l else indent ++ l) = c.apply lines

namespace Chomping

variable {strings : List String}

theorem exists_iff_body_ne_nil (strings : List String) :
    (∃ l ∈ strings, Line.isBlank l.toList = false) ↔
      Block.body (strings.map String.toList) ≠ [] := by
  rw [Ne, Block.body_eq_nil_iff]
  simp

/-- The lines of the body and the blank lines behind it. -/
theorem exists_body (strings : List String) : ∃ body blanks, strings = body ++ blanks ∧
    body.map String.toList = Block.body (strings.map String.toList) ∧
    ∀ l ∈ blanks, Line.isBlank l.toList = true := by
  refine ⟨strings.rdropWhile fun l => Line.isBlank l.toList,
    strings.rtakeWhile fun l => Line.isBlank l.toList, List.rdropWhile_append_rtakeWhile.symm, ?_,
    fun l hl => List.mem_rtakeWhile_imp (p := fun l : String => Line.isBlank l.toList) hl⟩
  rw [Block.body, ← List.map_reverse, List.dropWhile_map, ← List.map_reverse]
  rfl

theorem apply_clean (strings : List String) : clean.apply strings =
    if ∃ l ∈ strings, Line.isBlank l.toList = false then strip.apply strings ++ "\n" else "" := by
  rw [← String.toList_inj, toList_apply, fold_clean]
  by_cases hbody : Block.body (strings.map String.toList) = []
  · rw [if_pos hbody, if_neg ((exists_iff_body_ne_nil strings).not.mpr (not_not.mpr hbody)),
      fold_strip, Block.dedentBody, hbody]
    rfl
  · rw [if_neg hbody, if_pos ((exists_iff_body_ne_nil strings).mpr hbody), String.toList_append,
      toList_apply]
    rfl

theorem exists_flush_dedentLines (h : ∃ l ∈ strings, Line.isBlank l.toList = false) :
    ∃ l ∈ dedentLines strings, Line.isBlank l.toList = false ∧ Line.indentation l.toList = 0 := by
  obtain ⟨front, l, hlast⟩ := (List.eq_nil_or_concat' _).resolve_left
    ((exists_iff_body_ne_nil strings).mp h)
  have hmem : l ∈ (Block.body (strings.map String.toList)).getLast? := by simp [hlast]
  obtain ⟨d, hd, hflush⟩ := Block.exists_flush
    ⟨l, List.mem_of_getLast? hmem, Block.isBlank_getLast_body hmem⟩
  change d ∈ Block.dedentBody _ at hd
  rw [← toList_dedentLines] at hd
  obtain ⟨s, hs, rfl⟩ := List.mem_map.mp hd
  exact ⟨s, hs, hflush⟩

theorem apply_shifted {c : Chomping} (hc : c = strip ∨ c = clean) {indent : String}
    (hindent : ∀ c ∈ indent.toList, isInlineSpace c = true) :
    c.apply (strings.map fun l => if Line.isBlank l.toList then l else indent ++ l) =
      c.apply strings := by
  have hlines : (strings.map fun l => if Line.isBlank l.toList then l else indent ++ l).map
      String.toList = (strings.map String.toList).map (Line.shifted indent.toList) := by
    rw [List.map_map, List.map_map]
    refine List.map_congr_left fun l _ => ?_
    simp only [Function.comp_apply, Line.shifted]
    split_ifs <;> simp
  rw [apply, hlines, fold_map_shifted hc hindent, apply]

end Chomping

/-- Whatever lines there are, as long as no line break stands in one. -/
theorem lines_chomped (lines : List String) (h : ∀ l ∈ lines, '\n' ∉ l.toList) :
    Chomped lines := by
  have hlines : ∀ l ∈ lines.map String.toList, '\n' ∉ l := List.forall_mem_map.mpr h
  obtain ⟨body, blanks, hsplit, hbody, hblanks⟩ := Chomping.exists_body lines
  have hlength : (lines.map String.toList).length - (Block.body (lines.map String.toList)).length =
      blanks.length := by
    rw [← hbody, List.length_map, List.length_map, hsplit, List.length_append,
      Nat.add_sub_cancel_left]
  constructor
  case strip =>
    rw [← String.toList_inj, Chomping.toList_apply, Chomping.fold_strip, String.toList_intercalate,
      toList_dedentLines]
    rfl
  case getLast?_strip =>
    rw [Chomping.toList_apply]
    exact Chomping.getLast?_fold_strip hlines
  case clean => exact Chomping.apply_clean lines
  case verbatim =>
    refine ⟨body, blanks, hsplit, ?_, hblanks, ?_, ?_⟩
    · intro l hl
      have hmem : l.toList ∈ (Block.body (lines.map String.toList)).getLast? := by
        rw [← hbody, List.getLast?_map, Option.mem_def.mp hl]
        rfl
      exact Block.isBlank_getLast_body hmem
    · rw [← String.toList_inj, Chomping.toList_apply, Chomping.fold_preserve,
        toList_closedLines, hbody]
    · rw [← String.toList_inj, Chomping.toList_apply, Chomping.fold_preserveAll, hlength,
        String.toList_append, toList_closedLines, hbody, String.toList_ofList]
  case count_preserveAll =>
    have hbodyLines : ∀ l ∈ Block.body (lines.map String.toList), '\n' ∉ l :=
      fun l hl => hlines l (Block.mem_of_mem_body hl)
    rw [Chomping.toList_apply, Chomping.fold_preserveAll, hlength, List.count_append,
      Block.count_closed hbodyLines, List.count_replicate_self, ← hbody, hsplit, List.length_map,
      List.length_append]
  case dedented =>
    rw [toList_dedentLines]
    exact ⟨_, Block.dedent_dedented _⟩
  case flush => exact Chomping.exists_flush_dedentLines
  case shifted => exact fun indent hindent c hc => Chomping.apply_shifted hc hindent

/-- A no-break space makes a line blank, yet it is no indentation. -/
theorem lines_chomped_mixed : (∀ l ∈ ["\t  a", "\u00a0", "  \u00a0b", " "], '\n' ∉ l.toList) ∧
    Chomped ["\t  a", "\u00a0", "  \u00a0b", " "] :=
  ⟨by decide, lines_chomped _ (by decide)⟩

end AgentScript
