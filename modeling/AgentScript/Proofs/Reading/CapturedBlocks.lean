import AgentScript.Proofs.Parsing.TypeTags
import AgentScript.Proofs.Reading.PhysicalLines

/-!
# Captured blocks

Below the marker of a multi-line string or of a code block the physical lines are captured that
are blank or deeper than the logical line of the marker, one token a line. Only a round on a marker
captures anything, and it reads all of the block.
-/
namespace AgentScript

open CharClass Lexeme PhysicalLine

variable {l : PhysicalLine} {ls : List PhysicalLine} {text rest following : List Char}
  {base fuel n : Nat} {kind content : TokenKind} {c : Cursor}

namespace PhysicalLine

/-- A captured line is one token, and its end is skipped. -/
def pieces (content : TokenKind) (l : PhysicalLine) : List Piece :=
  [.token content l.text.length, .skip l.ending.length]

theorem total_pieces (content : TokenKind) (ls : List PhysicalLine) :
    Piece.total (ls.flatMap (pieces content)) = (join ls).length := by
  induction ls with
  | nil => rfl
  | cons l ls ih => simp [pieces, Piece.width, ih, chars]

/-- The tokens of captured lines carry the texts of the lines. -/
theorem tokens_pieces (h : c.rest = join ls ++ rest) :
    (c.tokens (ls.flatMap (pieces content))).map (fun t => (t.kind, t.text)) =
      ls.map fun l => (content, String.ofList l.text) := by
  induction ls generalizing c with
  | nil => rfl
  | cons l ls ih =>
    have hnext : ((c.advance l.text.length).advance l.ending.length).rest = join ls ++ rest := by
      simp [Cursor.advance_rest, h, chars]
    simp only [List.flatMap_cons, pieces, List.cons_append, List.nil_append, Cursor.tokens,
      List.map_cons, ih hnext]
    simp [h, chars]

theorem captures_chars (h : l.Before following) (base : Nat) :
    captures base (l.chars ++ following) = l.isCaptured base := by
  have hblank : (l.text.dropWhile isInlineSpace).head?.all isLineBreak = l.isBlank := by
    rw [isBlank, Bool.eq_iff_iff, List.all_eq_true, ← List.dropWhile_eq_nil_iff]
    cases hdrop : l.text.dropWhile isInlineSpace with
    | nil => simp
    | cons c rest =>
      have hc := h.unbroken c ((List.dropWhile_sublist _).mem (hdrop ▸ List.mem_cons_self))
      simp [hc]
  rw [← captures_firstLine, h.firstLine_eq, captures, hblank, isCaptured]

end PhysicalLine

namespace Lexeme

/-- The captured lines are those up to the first one that is not captured. -/
theorem capturedLines_join (h : Parted ls rest) (hls : ∀ l ∈ ls, l.isCaptured base = true)
    (hstop : rest = [] ∨ captures base rest = false) :
    capturedLines content base (join ls ++ rest).length (join ls ++ rest) =
      ls.flatMap (pieces content) := by
  induction ls with
  | nil => exact capturedLines_of_stop hstop
  | cons l ls ih =>
    obtain ⟨hne, hbefore, hparted⟩ := h
    obtain ⟨hl, hls⟩ := List.forall_mem_cons.mp hls
    have hcaptured : captures base (l.chars ++ (join ls ++ rest)) = true := by
      rw [captures_chars hbefore, hl]
    rw [join_cons, List.append_assoc, capturedLines_of_captures (by simp [hne]) hcaptured,
      hbefore.lineLength_eq, hbefore.breakLength_eq, drop_chars, ih hparted hls]
    rfl

/-- What is reported of the line behind a marker. -/
def markerLineFaults (text : List Char) : List Piece :=
  if restIsBlank text then [] else [.fault .textAfterBlockMarker (lineLength text)]

theorem capturedBlock_join (hl : l.Before (join ls ++ rest)) (h : Parted ls rest)
    (hls : ∀ l ∈ ls, l.isCaptured base = true) (hstop : rest = [] ∨ captures base rest = false) :
    capturedBlock content base (l.chars ++ (join ls ++ rest)) =
      markerLineFaults (l.chars ++ (join ls ++ rest)) ++
        .skip l.text.length :: .skip l.ending.length :: ls.flatMap (pieces content) := by
  have hlines : capturedLines content base _ (join ls ++ rest) = _ :=
    capturedLines_join h hls hstop
  simp only [capturedBlock, hl.lineLength_eq, hl.breakLength_eq, drop_chars, hlines,
    markerLineFaults]

end Lexeme

/-- The text begins with the marker of a block, of a kind and a length. -/
inductive BeginsWithMarker (text : List Char) : TokenKind → Nat → Prop
  | multiline {chomping : Chomping} {n : Nat}
      (marker : Round.chompingMarker? text = some (chomping, n))
      (alone : restIsBlank (text.drop n) = true) : BeginsWithMarker text (.multiline chomping) n
  | code (dollar : text.head? = some '$') (marker : markerForm? text = some .block) :
      BeginsWithMarker text .embeddedBlockMarker (markerLength text)

namespace BeginsWithMarker

variable {text' : List Char}

theorem exists_cons (h : BeginsWithMarker text kind n) :
    ∃ c rest, text = c :: rest ∧ isLineBreak c = false ∧ (c = '|' ∨ c = '+' ∨ c = '$') := by
  cases h with
  | multiline marker =>
    unfold Round.chompingMarker? at marker
    split at marker
    · exact ⟨_, _, rfl, rfl, .inr (.inl rfl)⟩
    · exact ⟨_, _, rfl, rfl, .inr (.inl rfl)⟩
    · exact ⟨_, _, rfl, rfl, .inl rfl⟩
    · exact ⟨_, _, rfl, rfl, .inl rfl⟩
    · exact nomatch marker
  | code dollar =>
    obtain ⟨rest, rfl⟩ := List.head?_eq_some_iff.mp dollar
    exact ⟨_, _, rfl, rfl, .inr (.inr rfl)⟩

/-- The marker stands on the line. -/
theorem length_le (h : BeginsWithMarker text kind n) : n ≤ (firstLine text).length := by
  cases h with
  | multiline marker => exact Round.le_of_chompingMarker? marker
  | code dollar =>
    obtain ⟨rest, rfl⟩ := List.head?_eq_some_iff.mp dollar
    exact (marker_firstLine rfl).2.2

theorem unbroken (h : BeginsWithMarker text kind n) : ∀ c ∈ text.take n, isLineBreak c = false := by
  intro c hc
  rw [← take_firstLine h.length_le] at hc
  simpa using List.mem_takeWhile_imp (List.mem_of_mem_take hc)

theorem length_pos (h : BeginsWithMarker text kind n) : 0 < n := by
  cases h with
  | multiline marker => exact Round.length_pos_of_chompingMarker? marker
  | code =>
    unfold markerLength
    omega

/-- Only the line tells whether a marker stands on it. -/
theorem congr (h : BeginsWithMarker text kind n) (hline : firstLine text' = firstLine text) :
    BeginsWithMarker text' kind n := by
  have hle := h.length_le
  cases h with
  | multiline marker alone =>
    rw [← Round.chompingMarker?_firstLine] at marker
    rw [← restIsBlank_firstLine, firstLine_drop hle] at alone
    refine .multiline ?_ ?_
    · rw [← Round.chompingMarker?_firstLine, hline, marker]
    · rw [← restIsBlank_firstLine, firstLine_drop (hline ▸ hle), hline, alone]
  | code dollar marker =>
    have hdollar' : text'.head? = some '$' := by
      rw [← head?_firstLine rfl, hline, head?_firstLine rfl, dollar]
    obtain ⟨rest, rfl⟩ := List.head?_eq_some_iff.mp dollar
    obtain ⟨rest', rfl⟩ := List.head?_eq_some_iff.mp hdollar'
    have hdollar : isLineBreak '$' = false := rfl
    obtain ⟨hlanguage, hbrackets, -⟩ : _ ∧ _ ∧ _ ≤ (firstLine ('$' :: rest)).length :=
      marker_firstLine hdollar
    obtain ⟨hlanguage', hbrackets', -⟩ : _ ∧ _ ∧ _ ≤ (firstLine ('$' :: rest')).length :=
      marker_firstLine hdollar
    rw [hline] at hlanguage' hbrackets'
    have hlength : markerLength ('$' :: rest) = markerLength ('$' :: rest') := by
      rw [markerLength, markerLength, ← hlanguage, ← hbrackets, ← hlanguage', ← hbrackets']
    rw [hlength]
    refine .code rfl ?_
    rw [← markerForm?_firstLine rfl, hline, markerForm?_firstLine rfl, marker]

/-- The round on a marker captures the block below its line and ends the line. -/
theorem next_eq {l : Layout} (h : BeginsWithMarker c.rest kind n) (hl : l.beginsLine = false)
    (hcontent : kind.captures? = some content) :
    ∃ faults : List Piece, (∀ p ∈ faults, ∃ cause m, p = .fault cause m) ∧
      Round.next l c = Round.thenEndLine (faults ++
        .token kind n :: capturedBlock content l.lineWidth (c.rest.drop n)) l := by
  obtain ⟨x, rest, hrest, -, hx⟩ := h.exists_cons
  rw [hrest] at h ⊢
  rw [Round.next_within hl hrest]
  cases h with
  | multiline marker alone =>
    obtain rfl : .stringContent = content := Option.some.inj hcontent
    have hbar : x = '|' ∨ x = '+' := by
      rcases hx with hx | hx | rfl
      · exact .inl hx
      · exact .inr hx
      · exact nomatch marker
    refine ⟨[], by simp, ?_⟩
    rcases hbar with rfl | rfl <;>
      simp [Round.within, isInlineSpace, isLineBreak, Round.bar, marker, alone]
  | code dollar marker =>
    obtain rfl : .embeddedCode = content := Option.some.inj hcontent
    obtain rfl : x = '$' := Option.some.inj dollar
    have hform : MarkerForm.kind .block = .embeddedBlockMarker := rfl
    have hwithin : Round.within l c.previous c.position '$' ('$' :: rest) =
        Round.embeddedCode l ('$' :: rest) := rfl
    refine ⟨if isKnownLanguage (String.ofList (markerLanguage ('$' :: rest))) then [] else
      [.fault (.unknownLanguage (String.ofList (markerLanguage ('$' :: rest))))
        (markerLength ('$' :: rest))], ?_, ?_⟩
    · split_ifs <;> simp
    · have htotal : Piece.total (Lexeme.marker .block ('$' :: rest)) =
          markerLength ('$' :: rest) := by
        unfold Lexeme.marker
        dsimp only
        split_ifs <;> simp [Piece.width]
      simp only [hwithin, Round.embeddedCode, marker, embedded, Scanner.andThen, htotal]
      simp [Lexeme.marker, hform]

end BeginsWithMarker

namespace TokenKind

theorem captures?_of_standsAlone (h : kind.standsAlone = true) : kind.captures? = none := by
  cases kind <;> simp_all [standsAlone, captures?]

theorem captures?_wordKind (m : Mode) (w : String) : (m.wordKind w).captures? = none := by
  by_cases hm : m = .typeTag
  · rw [hm]
    rfl
  · exact captures?_of_standsAlone (standsAlone_of_isWordlike
      (Mode.isWordlike_wordKind (Mode.prefersTypeNames_eq_false hm) w))

end TokenKind

open TokenKind

namespace Lexeme

/-- The kinds of the tokens that a type tag is read as. -/
theorem kinds_typeTag (text : List Char) : ∀ k ∈ Piece.kinds (typeTag .typeTag text),
    k ∈ [lt, typeTagName, typeTagValue, pipe, typeTagModifier, gt] := by
  obtain ⟨lt, body, -, -, -, htokens⟩ := tokens_openTag text (.atStart text)
  have hopen : ∀ k ∈ Piece.kinds (openTag .typeTag text),
      k ∈ [TokenKind.lt, typeTagName, typeTagValue, pipe, typeTagModifier, gt] := by
    rw [← Piece.kinds_tokens (.atStart text), htokens, List.map_cons, List.forall_mem_cons, lt.2]
    refine ⟨List.mem_cons_self, List.forall_mem_map.mpr fun t ht => ?_⟩
    exact List.mem_cons_of_mem _ (body.kind_of_mem t ht)
  unfold typeTag
  dsimp only
  split
  · rw [Piece.kinds_append]
    intro k hk
    rcases List.mem_append.mp hk with hk | hk
    · exact hopen k hk
    · rw [List.mem_singleton.mp hk]
      decide
  · exact hopen

theorem captures?_typeTag (text : List Char) :
    ∀ k ∈ Piece.kinds (typeTag .typeTag text), k.captures? = none := by
  have hpart : ∀ kind ∈ [lt, typeTagName, typeTagValue, pipe, typeTagModifier, gt],
      kind.captures? = none := by decide
  exact fun k hk => hpart k (kinds_typeTag text k hk)

end Lexeme

namespace Round

variable {l : Layout}

/-- Only a marker that the text begins with captures. -/
def MarksBlock (text : List Char) (r : Round) : Prop :=
  ∀ k ∈ Piece.kinds r.pieces, ∀ content, k.captures? = some content → ∃ n, BeginsWithMarker text k n

theorem marksBlock_of_none {r : Round} (h : ∀ k ∈ Piece.kinds r.pieces, k.captures? = none) :
    MarksBlock text r := by
  intro k hk content hcontent
  simp [h k hk] at hcontent

theorem marksBlock_single {kind : TokenKind} (h : kind.captures? = none) (n : Nat) :
    MarksBlock text (single l kind n) :=
  marksBlock_of_none (by simpa [single, Piece.kinds] using h)

theorem marksBlock_unexpected (l : Layout) (c : Char) : MarksBlock text (unexpected l c) :=
  marksBlock_of_none (by simp [unexpected, Piece.kinds])

theorem captures?_endLine (l : Layout) (n : Nat) :
    ∀ k ∈ Piece.kinds (endLine l n).pieces, k.captures? = none := by
  unfold endLine
  split_ifs <;> simp [Piece.kinds, captures?]

/-- Behind a marker there is the content that it captures, and the end of the line. -/
theorem marksBlock_thenEndLine {marker : TokenKind} {faults lines : List Piece}
    (hmarker : BeginsWithMarker text marker n) (hcontent : content.captures? = none)
    (hfaults : Piece.kinds faults = []) (hlines : ∀ k ∈ Piece.kinds lines, k = content)
    (l : Layout) : MarksBlock text (thenEndLine (faults ++ .token marker n :: lines) l) := by
  intro k hk content' hcaptures
  have hkinds : Piece.kinds (thenEndLine (faults ++ .token marker n :: lines) l).pieces =
      marker :: (Piece.kinds lines ++ Piece.kinds (endLine l 0).pieces) := by
    simp only [thenEndLine, Piece.kinds_append, hfaults]
    simp [Piece.kinds]
  rw [hkinds] at hk
  rcases List.mem_cons.mp hk with rfl | hk
  · exact ⟨n, hmarker⟩
  have hnone : k.captures? = none := by
    rcases List.mem_append.mp hk with hk | hk
    · rw [hlines k hk, hcontent]
    · exact captures?_endLine l 0 k hk
  simp [hnone] at hcaptures

theorem marksBlock_bar (l : Layout) (c : Char) (text : List Char) :
    MarksBlock text (bar l c text) := by
  unfold bar
  cases hmarker : chompingMarker? text with
  | none => exact marksBlock_unexpected l c
  | some m =>
    obtain ⟨chomping, n⟩ := m
    dsimp only
    split_ifs with halone
    · have hblock : MarksBlock text (thenEndLine ([] ++ .token (.multiline chomping) n ::
          capturedBlock .stringContent l.lineWidth (text.drop n)) l) :=
        marksBlock_thenEndLine (.multiline hmarker halone) rfl rfl
          (kinds_capturedBlock .stringContent _ _) l
      exact hblock
    · exact marksBlock_single rfl 1
    · exact marksBlock_unexpected l c

theorem marksBlock_embeddedCode (l : Layout) {text : List Char} (h : text.head? = some '$') :
    MarksBlock text (embeddedCode l text) := by
  have hmarker (form : MarkerForm) : ∃ faults : List Piece, Piece.kinds faults = [] ∧
      marker form text = faults ++ [.token form.kind (markerLength text)] := by
    unfold marker
    dsimp only
    refine ⟨_, ?_, rfl⟩
    split_ifs <;> rfl
  unfold embeddedCode
  cases hform : markerForm? text with
  | none => exact marksBlock_of_none (by simp [Piece.kinds])
  | some form =>
    obtain ⟨faults, hfaults, hpieces⟩ := hmarker form
    cases form with
    | inline =>
      refine marksBlock_of_none ?_
      simp only [embedded, Scanner.andThen, hpieces, Piece.kinds_append, hfaults, inlineCode,
        Scanner.skipping, Scanner.tokenOf]
      split_ifs <;> simp [Piece.kinds, MarkerForm.kind, captures?]
    | block =>
      simp only [embedded, Scanner.andThen, hpieces, List.append_assoc]
      exact marksBlock_thenEndLine (.code h hform) rfl hfaults
        (kinds_capturedBlock .embeddedCode _ _) l

theorem marksBlock_within (l : Layout) (previous : Option Char) (p : Position) (x : Char)
    (rest : List Char) : MarksBlock (x :: rest) (within l previous p x (x :: rest)) := by
  refine within_cases l previous p x (x :: rest) ?space ?lineBreak ?comment ?string ?tag ?code ?bar
    ?colon ?dash ?opening ?closing ?mark ?number ?proper ?word ?other
  case space => exact fun _ => marksBlock_of_none (by simp [Piece.kinds])
  case lineBreak => exact fun _ => marksBlock_of_none (captures?_endLine l _)
  case comment => exact fun _ => marksBlock_of_none (by simp [Piece.kinds])
  case string =>
    intro _
    refine marksBlock_of_none ?_
    simp only [quotedString]
    split_ifs <;> simp [Piece.kinds, captures?]
  case tag =>
    refine fun _ => marksBlock_of_none ?_
    dsimp only
    exact captures?_typeTag _
  case code =>
    rintro rfl
    exact marksBlock_embeddedCode l rfl
  case bar => exact marksBlock_bar l x _
  case colon =>
    intro _
    unfold colon
    split_ifs
    · exact marksBlock_single rfl _
    · exact marksBlock_of_none (by simp [Piece.kinds, captures?])
  case dash =>
    intro _
    unfold dash
    split
    · exact marksBlock_single rfl 1
    · exact marksBlock_single rfl 2
    · split_ifs
      · exact marksBlock_of_none (by simp [Lexeme.number, Piece.kinds, captures?])
      · exact marksBlock_single rfl 1
      · exact marksBlock_unexpected l '-'
  case opening =>
    exact fun b _ => marksBlock_of_none (by simp [openBracket, Piece.kinds, captures?])
  case closing =>
    intro b _
    refine marksBlock_of_none ?_
    unfold closeBracket
    dsimp only
    split
    · simp [Piece.kinds, captures?]
    · split_ifs <;> simp [Piece.kinds, captures?]
  case mark =>
    have hmark : ∀ kind ∈ [comma, dot, slash, gt], kind.captures? = none := by decide
    exact fun kind hk => marksBlock_single (hmark kind hk) 1
  case number => exact fun _ => marksBlock_of_none (by simp [Lexeme.number, Piece.kinds, captures?])
  case proper =>
    intro _
    obtain ⟨kind, n, heq, hkind, -⟩ := exists_single_properWord l (x :: rest)
    rw [heq]
    exact marksBlock_single (captures?_of_standsAlone (standsAlone_of_isWordlike hkind)) n
  case word =>
    exact fun _ => marksBlock_of_none (by simp [word, Piece.kinds, captures?_wordKind])
  case other => exact marksBlock_unexpected l x

/-- Only a marker within a line captures. -/
theorem beginsWithMarker_of_mem {k : TokenKind} (hk : k ∈ Piece.kinds (next l c).pieces)
    (hcontent : k.captures? = some content) :
    l.beginsLine = false ∧ ∃ n, BeginsWithMarker c.rest k n := by
  cases hrest : c.rest with
  | nil =>
    rw [next, hrest] at hk
    exact absurd hk List.not_mem_nil
  | cons x rest =>
    cases hbegins : l.beginsLine with
    | true =>
      have hnone : k.captures? = none := by
        refine captures?_of_standsAlone ?_
        rw [next_beginsLine hbegins (by simp [hrest]), beginLine] at hk
        split_ifs at hk
        · exact absurd hk List.not_mem_nil
        · exact standsAlone_indentation _ _ k hk
      simp [hnone] at hcontent
    | false =>
      rw [next_within hbegins hrest] at hk
      exact ⟨rfl, marksBlock_within l _ _ x rest k hk content hcontent⟩

end Round

end AgentScript
