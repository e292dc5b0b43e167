import AgentScript.Proofs.Reading.CapturedBlocks
import AgentScript.Proofs.Writing.Acceptance
import AgentScript.Proofs.Writing.Erasure
import AgentScript.Proofs.Writing.Passages
import AgentScript.Proofs.Writing.Phrases

/-!
# Multi-line strings that were written

The lines below a marker are captured as they stand, one token a line, whatever they contain, as
long as they are blank or deeper than the line of the marker. The tokens are the value that the
chomping makes of the lines.
-/
namespace AgentScript

open CharClass Lexeme

namespace PhysicalLine

/-- A line with a line feed behind it. -/
def ofLine (line : Line) : PhysicalLine := ⟨line, ['\n']⟩

variable {lines : List Line}

theorem join_ofLine (h : lines ≠ []) : join (lines.map ofLine) = Block.join lines ++ ['\n'] := by
  induction lines with
  | nil => exact absurd rfl h
  | cons line more ih =>
    cases more with
    | nil => simp [ofLine, chars]
    | cons next more =>
      rw [List.map_cons, join_cons, ih (by simp), Block.join_cons_cons]
      simp [ofLine, chars]

/-- Lines without line ends in them stand apart. -/
theorem parted_ofLine (h : ∀ line ∈ lines, ∀ c ∈ line, isLineBreak c = false) (rest : List Char) :
    Parted (lines.map ofLine) rest := by
  induction lines with
  | nil => trivial
  | cons line more ih =>
    obtain ⟨hline, hmore⟩ := List.forall_mem_cons.mp h
    exact ⟨by simp [ofLine, chars], ⟨hline, .feed⟩, ih hmore⟩

/-- Captured lines are tokens with the line ends between them. -/
theorem divides_pieces {content : TokenKind} {ls : List PhysicalLine} {pieces : List Piece}
    {text : List Char} {forms : List TokenForm} (h : Divides pieces text forms) :
    Divides (ls.flatMap (PhysicalLine.pieces content) ++ pieces) (join ls ++ text)
      (ls.map (fun l => .spelled (· = content) (String.ofList l.text)) ++ forms) := by
  induction ls with
  | nil => exact h
  | cons l ls ih =>
    rw [join_cons, chars, List.append_assoc, List.append_assoc, List.map_cons, List.flatMap_cons]
    exact .token l.text (fun _ _ => ⟨rfl, rfl⟩) (.skip l.ending ih)

end PhysicalLine

open PhysicalLine

namespace Chomping

def marker : Chomping → List Char
  | strip => "|-".toList
  | clean => "|".toList
  | preserve => "+|".toList
  | preserveAll => "+|+".toList

/-- A marker begins with a bar or a plus. -/
theorem marker_eq_cons (chomping : Chomping) : ∃ c more, chomping.marker = c :: more ∧
    Significant c ∧ ∀ l previous p text, Round.within l previous p c text = Round.bar l c text := by
  cases chomping <;> exact ⟨_, _, rfl, ⟨rfl, rfl, by decide⟩, fun _ _ _ _ => rfl⟩

theorem chompingMarker?_marker (chomping : Chomping) (rest : List Char) :
    Round.chompingMarker? (chomping.marker ++ '\n' :: rest) =
      some (chomping, chomping.marker.length) := by
  cases chomping <;> rfl

end Chomping

namespace Writing

/-- What is written from the marker to the last of the lines. -/
def blockText (chomping : Chomping) (lines : List Line) : List Char :=
  chomping.marker ++ '\n' :: Block.join lines

def blockForms (chomping : Chomping) (lines : List Line) : List TokenForm :=
  .ofKind (.multiline chomping) ::
    lines.map fun line => .spelled (· = .stringContent) (String.ofList line)

/-- The marker, its line end, the captured lines and the end of the logical line. -/
def blockPieces (chomping : Chomping) (lines : List Line) : List Piece :=
  .token (.multiline chomping) chomping.marker.length :: .skip 0 :: .skip 1 ::
    ((lines.map ofLine).flatMap (pieces .stringContent) ++ [.token .newline 0])

variable {chomping : Chomping} {lines : List Line}

theorem divides_block : Divides (blockPieces chomping lines)
    (chomping.marker ++ '\n' :: join (lines.map ofLine))
    (blockForms chomping lines ++ [.ofKind .newline]) := by
  have hend : Divides [.token .newline 0] [] [.ofKind .newline] :=
    .token [] (fun _ _ => rfl) .nil
  have hlines : Divides
      ((lines.map ofLine).flatMap (pieces .stringContent) ++ [.token .newline 0])
      (join (lines.map ofLine) ++ []) _ := divides_pieces hend
  rw [List.append_nil, List.map_map] at hlines
  exact .token chomping.marker (fun _ _ => rfl) (.skip [] (.skip ['\n'] hlines))

/-- The round on a marker reads the lines that are captured below it. -/
theorem bar_marker {l : Layout} {rest : List Char} (hopen : l.brackets = [])
    (hunbroken : ∀ line ∈ lines, ∀ c ∈ line, isLineBreak c = false)
    (hcaptured : ∀ line ∈ lines, (ofLine line).isCaptured l.lineWidth = true)
    (hrest : EndsBlock l.lineWidth rest) (c : Char) :
    Round.bar l c (chomping.marker ++ '\n' :: (join (lines.map ofLine) ++ rest)) =
      ⟨blockPieces chomping lines, l.leaveLine⟩ := by
  have hblock : capturedBlock .stringContent l.lineWidth
      ('\n' :: (join (lines.map ofLine) ++ rest)) =
        .skip 0 :: .skip 1 :: (lines.map ofLine).flatMap (pieces .stringContent) :=
    capturedBlock_join (l := ⟨[], ['\n']⟩) ⟨by simp, .feed⟩ (parted_ofLine hunbroken rest)
      (by simpa using hcaptured) hrest
  have halone : restIsBlank ('\n' :: (join (lines.map ofLine) ++ rest)) = true := rfl
  rw [Round.bar, chomping.chompingMarker?_marker]
  dsimp only
  rw [List.drop_left, halone, if_pos rfl, hblock]
  simp [Round.thenEndLine, Round.endLine, hopen, blockPieces]

/-- A marker is read with the lines below it that are captured. -/
theorem readsAs_block {levels : List Nat} {modes : Mode → Prop} (hne : lines ≠ [])
    (hunbroken : ∀ line ∈ lines, ∀ c ∈ line, isLineBreak c = false)
    (hcaptured : ∀ line ∈ lines, (ofLine line).isCaptured (levels.headD 0) = true) :
    ReadsAs (Layout.InLine levels [] modes) Anything (blockText chomping lines ++ ['\n'])
      (blockForms chomping lines ++ [.ofKind .newline]) (Layout.PastLine levels)
      (EndsBlock (levels.headD 0)) := by
  -- The line end that an outline writes behind an entry is that of the last captured line.
  have htext : blockText chomping lines ++ ['\n'] =
      chomping.marker ++ '\n' :: join (lines.map ofLine) := by
    rw [join_ofLine hne, blockText, List.append_assoc, List.cons_append]
  obtain ⟨c, more, hmarker, -, hbar⟩ := chomping.marker_eq_cons
  have hcons : chomping.marker ++ '\n' :: join (lines.map ofLine) =
      c :: (more ++ '\n' :: join (lines.map ofLine)) := by rw [hmarker, List.cons_append]
  rw [htext, hcons]
  refine readsAs_of_within fun l previous p rest hl _ hrest => ?_
  have hopen : l.brackets = [] := List.map_eq_nil_iff.mp hl.brackets_eq
  refine ⟨⟨blockPieces chomping lines, l.leaveLine⟩, ?_, hcons ▸ divides_block,
    rfl, hl.levels_eq, hopen, hl.leaves⟩
  rw [← hl.width_eq] at hcaptured hrest
  rw [hbar, ← hcons, List.append_assoc, List.cons_append]
  exact bar_marker hopen hunbroken hcaptured hrest c

/-- A key with a colon, a marker behind it and the captured lines below. -/
theorem entryReadsAs_block (key : Name) {depth : Nat} (hne : lines ≠ [])
    (hunbroken : ∀ line ∈ lines, ∀ c ∈ line, isLineBreak c = false)
    (hcaptured : ∀ line ∈ lines, (ofLine line).isCaptured (2 * depth) = true) :
    EntryReadsAs depth (key.text.toList ++ (": ".toList ++ blockText chomping lines))
      (.word key.text :: .ofKind .colon :: blockForms chomping lines) (EndsBlock (2 * depth)) := by
  refine ⟨opensLine_name key _, ?_⟩
  have hopens (rest : List Char) : OpensLine (blockText chomping lines ++ ['\n'] ++ rest) := by
    obtain ⟨c, more, hmarker, hc, -⟩ := chomping.marker_eq_cons
    rw [blockText, hmarker]
    exact ⟨c, _, rfl, hc⟩
  have hblock : ReadsAs (Layout.InLine (evenLevels depth) [] (· = .booleanContext)) Anything
      (blockText chomping lines ++ ['\n']) (blockForms chomping lines ++ [.ofKind .newline])
      (Layout.PastLine (evenLevels depth)) (EndsBlock ((evenLevels depth).headD 0)) :=
    readsAs_block hne hunbroken (by rwa [headD_evenLevels])
  rw [headD_evenLevels] at hblock
  have hkey : WithinLine (· = .default) BeginsValue (key.text.toList ++ [':'])
      [.word key.text, .ofKind .colon] (· = .booleanContext)
      fun rest => rest.head? = some ' ' ∧ restIsBlank rest = false := by
    have hname := (readsAs_name key).append readsAs_colon_value (fun _ _ => trivial) fun _ _ => rfl
    refine (hname.narrow ?_).around (fun _ _ => trivial) fun _ hf => hf
    rintro m rfl
    exact Mode.naming_default
  have hvalue := (readsAs_blank (evenLevels depth) []).append hblock (fun _ _ => trivial)
    fun _ _ => trivial
  have hentry := (hkey (evenLevels depth) []).append hvalue (fun _ _ => trivial)
    fun rest _ => ⟨rfl, restIsBlank_blank (hopens rest)⟩
  simpa using hentry

/-- The lines of a passage are captured below any line that is less deep. -/
theorem Passage.isCaptured_written {p : Passage} {columns blanks width : Nat} {line : Line}
    (hdeep : width < columns) (h : line ∈ p.written columns blanks) :
    (ofLine line).isCaptured width = true := by
  rcases mem_written h with rfl | ⟨l, -, rfl⟩
  · rfl
  · have hwide : columns ≤ blankLength (List.replicate columns ' ' ++ l) := by
      rw [blankLength, spanLength, List.takeWhile_append_of_pos (by simp [isInlineSpace])]
      simp
    rw [isCaptured, Bool.or_eq_true, decide_eq_true_eq]
    exact .inr (Nat.lt_of_lt_of_le hdeep hwide)

end Writing

namespace Parser

open Writing

variable {follow : TokenKind → Prop}

/-- All tokens of a kind that follow each other are passed. -/
theorem accepts_contentLines {k : TokenKind} (hk : k.isStructural = false)
    (hfollow : ∀ k', follow k' → k' ≠ k) (texts : List String) {fuel : Nat}
    (hfuel : texts.length ≤ fuel) :
    (contentLines k fuel).Accepts (texts.map (.spelled (· = k))) follow (· = texts) := by
  induction texts generalizing fuel with
  | nil =>
    cases fuel with
    | zero => exact .pure rfl
    | succ fuel => exact .check_of_ne hfollow (.pure rfl)
  | cons text texts ih =>
    obtain ⟨fuel, rfl⟩ := Nat.exists_eq_succ_of_ne_zero (Nat.ne_zero_of_lt hfuel)
    unfold contentLines
    refine .check_of (fun _ => kind_of_heads fun _ ht => ht.1) ?_
    refine (accepts_pass (TokenForm.onLine_spelled hk)).bind fun t ht => ?_
    refine (ih (Nat.le_of_succ_le_succ hfuel)).bind_last fun rest hrest => .pure ?_
    rw [ht.2, hrest]

theorem accepts_content {k : TokenKind} (hk : k.isStructural = false)
    (hfollow : ∀ k', follow k' → k' ≠ k) (texts : List String) :
    (content k).Accepts (texts.map (.spelled (· = k))) follow (· = texts) := by
  refine .look fun s rest hs => accepts_contentLines hk hfollow texts ?_
  have hleft := hs.length_le_lineLeft fun form hform => ?_
  · rwa [List.length_map] at hleft
  · obtain ⟨text, -, rfl⟩ := List.mem_map.mp hform
    exact TokenForm.onLine_spelled hk

/-- A marker with the captured lines is the value that the chomping makes of them. -/
theorem accepts_multilineValue (chomping : Chomping) (lines : List Line) :
    value.Accepts (blockForms chomping lines) (· = .newline)
      (·.erased = .string (String.ofList (chomping.fold lines)) true (some chomping) none) := by
  refine .look fun _ _ _ => ?_
  unfold valueWithin
  refine .kind fun k hk => ?_
  rw [kind_of_heads (fun _ ht => ht) hk]
  have hforms : blockForms chomping lines = [.ofKind (.multiline chomping)] ++
      (lines.map String.ofList).map (.spelled (· = .stringContent)) := by
    rw [List.map_map]
    rfl
  rw [hforms]
  change (multilineString chomping).Accepts _ _ _
  unfold multilineString
  refine (accepts_pass (TokenForm.onLine_ofKind rfl)).bind fun t _ => ?_
  refine (accepts_content rfl (by simp) (lines.map String.ofList)).bind_last
    fun texts htexts => .spanFrom fun l => .pure ?_
  rw [htexts, Value.ofLines, Value.erased, Chomping.apply, List.map_map]
  simp [Function.comp_def]

end Parser

end AgentScript
