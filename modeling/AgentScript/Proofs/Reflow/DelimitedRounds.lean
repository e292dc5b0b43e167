import AgentScript.Proofs.Reading.Continuation
import AgentScript.Proofs.Reflow.Delimiters

/-!
# Rounds before and on a delimiter

A round that takes no more than the text before a comma or an opening bracket is the same whatever
stands behind it. The delimiter itself is one round, and no other round reads a token of its kind.
-/
namespace AgentScript

open CharClass Lexeme TokenKind

variable {d : Char} {y v w : List Char} {l : Layout}

namespace Round

/-- The round does not see what is behind the delimiter if it takes no more than the text before
it. -/
def EndsBefore (d : Char) (f : List Char → Round) (y : List Char) : Prop :=
  ∀ v w, Piece.total (f (y ++ d :: v)).pieces ≤ y.length → f (y ++ d :: w) = f (y ++ d :: v)

theorem endsBefore_of_eq {f : List Char → Round} (h : ∀ v w, f (y ++ d :: w) = f (y ++ d :: v)) :
    EndsBefore d f y := fun v w _ => h v w

theorem EndsBefore.ite {P : Prop} [Decidable P] {f g : List Char → Round}
    (hf : P → EndsBefore d f y) (hg : EndsBefore d g y) :
    EndsBefore d (fun text => if P then f text else g text) y := by
  by_cases h : P
  · simp only [if_pos h]
    exact hf h
  · simp only [if_neg h]
    exact hg

theorem endsBefore_scan {s : Scanner} (h : Lexeme.EndsBefore d s y) (l : Layout) :
    EndsBefore d (fun text => ⟨s text, l⟩) y :=
  fun v w hle => congrArg (Round.mk · l) (h v w hle)

theorem endsBefore_thenEndLine {s : Scanner} (h : Lexeme.EndsBefore d s y) (l : Layout) :
    EndsBefore d (fun text => thenEndLine (s text) l) y := by
  intro v w hle
  unfold thenEndLine at hle
  rw [Piece.total_append] at hle
  exact congrArg (thenEndLine · l) (h v w (by omega))

theorem total_within_pos (hl : l.beginsLine = false) (previous : Option Char) (p : Position)
    (c : Char) (rest : List Char) : 0 < Piece.total (within l previous p c (c :: rest)).pieces := by
  have hform := form_within hl previous p c rest
  generalize within l previous p c (c :: rest) = r at hform
  cases hform with
  | blank begins => exact nomatch hl.symm.trans begins
  | indented begins => exact nomatch hl.symm.trans begins
  | within _ _ _ _ progress => exact progress
  | ended _ _ _ progress =>
    rw [Piece.total_append]
    exact progress

theorem prefix_delimited {m : List Char} (hm : d ∉ m) : m <+: y ++ d :: v ↔ m <+: y := by
  induction y generalizing m with
  | nil =>
    cases m with
    | nil => simp
    | cons a m =>
      have hne : a ≠ d := fun h => hm (h ▸ List.mem_cons_self)
      simp [hne]
  | cons c y ih =>
    cases m with
    | nil => simp
    | cons a m =>
      rw [List.cons_append, List.cons_prefix_cons, List.cons_prefix_cons,
        ih fun h => hm (List.mem_cons_of_mem _ h)]

section

variable (hd : Delimits d)

include hd

theorem chompingMarker?_delimited (y v : List Char) :
    chompingMarker? (y ++ d :: v) = chompingMarker? y := by
  have hplus := hd.ne (c := '+') (by simp)
  have hbar := hd.ne (c := '|') (by simp)
  have hminus := hd.ne (c := '-') (by simp)
  rw [chompingMarker?_eq, chompingMarker?_eq]
  simp only [prefix_delimited (d := d) (m := ['+', '|', '+']) (by simp [hplus, hbar]),
    prefix_delimited (d := d) (m := ['+', '|']) (by simp [hplus, hbar]),
    prefix_delimited (d := d) (m := ['|', '-']) (by simp [hminus, hbar]),
    prefix_delimited (d := d) (m := ['|']) (by simp [hbar])]

theorem endsBefore_bar (l : Layout) (c : Char) (y : List Char) : EndsBefore d (bar l c) y := by
  intro v w h
  have hmarker := chompingMarker?_delimited hd y
  unfold bar at h ⊢
  rw [hmarker] at h ⊢
  rw [hmarker]
  cases hm : chompingMarker? y with
  | none => rfl
  | some m =>
    obtain ⟨chomping, n⟩ := m
    have hn : n ≤ y.length :=
      (le_of_chompingMarker? hm).trans (Lexeme.spanLength_le _ _)
    rw [hm] at h
    dsimp only at h ⊢
    rw [List.drop_append_of_le_length hn] at h ⊢
    rw [List.drop_append_of_le_length hn, restIsBlank_delimited hd _ v w]
    split_ifs at h ⊢
    · unfold thenEndLine at h
      simp only [Piece.total_append, Piece.total_cons, Piece.width] at h
      have hle : Piece.total (capturedBlock .stringContent l.lineWidth (y.drop n ++ d :: v)) ≤
          (y.drop n).length := by
        rw [List.length_drop]
        omega
      rw [endsBefore_capturedBlock hd _ _ _ v w hle]
    · rfl
    · rfl

theorem endsBefore_embeddedCode (l : Layout) (c : Char) (y : List Char) :
    EndsBefore d (embeddedCode l) (c :: y) := by
  intro v w h
  have hform (v : List Char) : markerForm? (c :: y ++ d :: v) = markerForm? (c :: y) :=
    congrArg MarkerForm.ofBrackets? (marker_delimited hd c y v).2
  unfold embeddedCode at h ⊢
  rw [hform] at h ⊢
  rw [hform]
  cases hm : markerForm? (c :: y) with
  | none => rfl
  | some form =>
    rw [hm] at h
    cases form with
    | inline => exact endsBefore_scan (endsBefore_embedded hd .inline _ c y) l v w h
    | block => exact endsBefore_thenEndLine (endsBefore_embedded hd .block _ c y) l v w h

theorem endsBefore_colon (l : Layout) (previous : Option Char) (c : Char) (y : List Char) :
    EndsBefore d (colon l previous) (c :: y) := by
  refine endsBefore_of_eq fun v w => ?_
  have hatom : startsAtom previous (c :: y ++ d :: w) = startsAtom previous (c :: y ++ d :: v) := by
    unfold startsAtom
    rw [List.cons_append, List.cons_append, List.tail_cons, List.tail_cons, head?_delimited y v w]
  have hafter : afterColon l (y ++ d :: w) = afterColon l (y ++ d :: v) := by
    unfold afterColon
    rw [restIsBlank_delimited hd y v w]
  unfold colon
  rw [hatom, List.cons_append, List.cons_append, List.tail_cons, List.tail_cons, hafter,
    (delimited_wordLength hd).eq, (delimited_wordLength hd).eq]

theorem endsBefore_dash (l : Layout) (c : Char) (y : List Char) :
    EndsBefore d (dash l) (c :: y) := by
  refine endsBefore_of_eq fun v w => ?_
  have hnumber : Lexeme.number (c :: y ++ d :: w) = Lexeme.number (c :: y ++ d :: v) := by
    rw [Lexeme.number, Lexeme.number, (delimited_numberLength hd).eq,
      (delimited_numberLength hd).eq]
  unfold dash
  rw [hnumber]
  simp only [List.cons_append, List.tail_cons, head?_delimited y v w]

theorem endsBefore_properWord (l : Layout) (c : Char) (y : List Char) :
    EndsBefore d (properWord l) (c :: y) := by
  refine endsBefore_of_eq fun v w => ?_
  have hsegment (v : List Char) : segmentLength (c :: y ++ d :: v) = segmentLength (c :: y) :=
    congrArg (· + 1) ((delimited_continuesSegment hd).eq y v)
  have hword (v : List Char) : properWordLength (c :: y ++ d :: v) = properWordLength (c :: y) :=
    congrArg (· + 1) ((delimited_continuesProperWord hd).eq y v)
  have hle : segmentLength (c :: y) ≤ (c :: y).length :=
    Nat.succ_le_succ ((delimited_continuesSegment hd).le y)
  have hle' : properWordLength (c :: y) ≤ (c :: y).length :=
    Nat.succ_le_succ ((delimited_continuesProperWord hd).le y)
  simp only [properWord, hsegment, hword, List.take_append_of_le_length hle,
    List.take_append_of_le_length hle']

theorem endsBefore_word (l : Layout) (y : List Char) : EndsBefore d (word l) y := by
  refine endsBefore_of_eq fun v w => ?_
  have hle := (delimited_wordLength hd).le y
  have hfollows : nameFollows (y.drop (wordLength y) ++ d :: w) =
      nameFollows (y.drop (wordLength y) ++ d :: v) := by
    rw [nameFollows, nameFollows, restIsBlank_delimited hd _ v w,
      nextSignificant?_delimited hd _ v w]
  simp only [word, (delimited_wordLength hd).eq, List.take_append_of_le_length hle,
    List.drop_append_of_le_length hle, hfollows]

theorem endsBefore_within (l : Layout) (previous : Option Char) (p : Position) (c : Char)
    (y : List Char) : EndsBefore d (within l previous p c) (c :: y) := by
  have hsame (r : Round) : EndsBefore d (fun _ => r) (c :: y) := fun _ _ _ => rfl
  refine .ite (fun _ => hsame _) (.ite ?lineBreak (.ite ?comment (.ite ?string (.ite ?tag
    (.ite ?code (.ite ?bar (.ite ?colon (.ite ?dash ?_))))))))
  case lineBreak =>
    refine fun _ => endsBefore_of_eq fun v w => ?_
    rw [breakLength_delimited hd, breakLength_delimited hd]
  case comment => exact fun _ => endsBefore_scan (reachesBefore_spanLength _ _).skipping l
  case string => exact fun _ => endsBefore_scan (endsBefore_quotedString hd c y) l
  case tag => exact fun _ => endsBefore_scan (endsBefore_typeTag hd _ _) l
  case code => exact fun _ => endsBefore_embeddedCode hd l c y
  case bar => exact fun _ => endsBefore_bar hd l c _
  case colon => exact fun _ => endsBefore_colon hd l previous c y
  case dash => exact fun _ => endsBefore_dash hd l c y
  cases Bracket.ofOpener? c with
  | some b => exact hsame _
  | none =>
    cases Bracket.ofCloser? c with
    | some b => exact hsame _
    | none =>
      refine .ite (fun _ => hsame _) (.ite (fun _ => hsame _) (.ite (fun _ => hsame _)
        (.ite (fun _ => hsame _) (.ite ?number (.ite ?proper (.ite ?word (hsame _)))))))
      case number => exact fun _ => endsBefore_scan (endsBefore_number hd _) l
      case proper => exact fun _ => endsBefore_properWord hd l c y
      case word => exact fun _ => endsBefore_word hd l _

theorem endsBefore_beginLine (l : Layout) (y : List Char) : EndsBefore d (beginLine l) y := by
  intro v w h
  have hwidth := delimited_blankLength hd
  unfold beginLine at h ⊢
  rw [restIsBlank_delimited hd y v w]
  split_ifs at h ⊢
  · simp only [Piece.total_cons, Piece.width] at h
    have hle : lineLength (y ++ d :: v) ≤ y.length := by omega
    have hline : lineLength (y ++ d :: w) = lineLength (y ++ d :: v) :=
      reachesBefore_spanLength _ y v w hle
    rw [hline, List.drop_append_of_le_length hle, List.drop_append_of_le_length hle,
      breakLength_delimited hd, breakLength_delimited hd]
  · simp only [hwidth.eq]

/-- A round that takes no more than the text before the delimiter is the same whatever stands behind
the delimiter. -/
theorem next_before {cursor : Cursor} (hy : cursor.rest = y)
    (h : Piece.total (next l (cursor.withMore (d :: v))).pieces ≤ y.length) (w : List Char) :
    next l (cursor.withMore (d :: w)) = next l (cursor.withMore (d :: v)) := by
  have hrest (v : List Char) : (cursor.withMore (d :: v)).rest = y ++ d :: v := by
    rw [← hy]
    rfl
  unfold next at h ⊢
  rw [hrest] at h ⊢
  rw [hrest]
  cases y with
  | nil =>
    dsimp only [List.nil_append] at h ⊢
    split_ifs at h ⊢ with hl
    · exact endsBefore_beginLine hd l [] v w h
    · have hpos := total_within_pos (by simpa using hl) (cursor.withMore (d :: v)).previous
        (cursor.withMore (d :: v)).position d v
      exact absurd hpos (Nat.not_lt.mpr h)
  | cons c y =>
    dsimp only [List.cons_append] at h ⊢
    split_ifs at h ⊢
    · exact endsBefore_beginLine hd l (c :: y) v w h
    · exact endsBefore_within hd l _ _ c y v w h

end

/-- No delimiter is among the tokens of the round. -/
def Undelimited (r : Round) : Prop := ∀ k ∈ Piece.kinds r.pieces, k.isDelimiter = false

theorem undelimited_single {k : TokenKind} (h : k.isDelimiter = false) (n : Nat) :
    Undelimited (single l k n) := by simpa [Undelimited, single, Piece.kinds] using h

theorem undelimited_unexpected (l : Layout) (c : Char) : Undelimited (unexpected l c) := by
  simp [Undelimited, unexpected, Piece.kinds]

theorem undelimited_endLine (l : Layout) (n : Nat) : Undelimited (endLine l n) := by
  unfold endLine
  split_ifs <;> simp [Undelimited, Piece.kinds, isDelimiter]

theorem undelimited_thenEndLine {ps : List Piece} (h : ∀ k ∈ Piece.kinds ps, k.isDelimiter = false)
    (l : Layout) : Undelimited (thenEndLine ps l) := by
  intro k hk
  rw [thenEndLine, Piece.kinds_append] at hk
  exact (List.mem_append.mp hk).elim (h k) (undelimited_endLine l 0 k)

theorem undelimited_capturedBlock {content : TokenKind} (h : content.isDelimiter = false)
    (base : Nat) (text : List Char) :
    ∀ k ∈ Piece.kinds (capturedBlock content base text), k.isDelimiter = false := by
  intro k hk
  rw [kinds_capturedBlock content base text k hk, h]

theorem undelimited_embeddedCode (l : Layout) (text : List Char) :
    Undelimited (embeddedCode l text) := by
  have hmarker (form : MarkerForm) : ∀ k ∈ Piece.kinds (marker form text),
      k.isDelimiter = false := by
    unfold marker
    dsimp only
    cases form <;> split_ifs <;> simp [Piece.kinds, MarkerForm.kind, isDelimiter]
  have hcode (text : List Char) : ∀ k ∈ Piece.kinds (inlineCode text), k.isDelimiter = false := by
    unfold inlineCode Scanner.andThen Scanner.skipping Scanner.tokenOf
    dsimp only
    split_ifs <;> simp [Piece.kinds, isDelimiter]
  unfold embeddedCode
  split
  · simp [Undelimited, Piece.kinds]
  · intro k hk
    simp only [embedded, Scanner.andThen, Piece.kinds_append] at hk
    rcases List.mem_append.mp hk with hk | hk
    · exact hmarker .inline k hk
    · exact hcode _ k hk
  · refine undelimited_thenEndLine (fun k hk => ?_) l
    simp only [embedded, Scanner.andThen, Piece.kinds_append] at hk
    rcases List.mem_append.mp hk with hk | hk
    · exact hmarker .block k hk
    · exact undelimited_capturedBlock rfl _ _ k hk

theorem undelimited_bar (l : Layout) (c : Char) (text : List Char) :
    Undelimited (bar l c text) := by
  unfold bar
  split
  · exact undelimited_unexpected l c
  · split_ifs
    · refine undelimited_thenEndLine (fun k hk => ?_) l
      rcases List.mem_cons.mp hk with rfl | hk
      · rfl
      · exact undelimited_capturedBlock rfl _ _ k hk
    · exact undelimited_single rfl 1
    · exact undelimited_unexpected l c

theorem undelimited_dash (l : Layout) (text : List Char) : Undelimited (dash l text) := by
  unfold dash
  split
  · exact undelimited_single rfl 1
  · exact undelimited_single rfl 2
  · split_ifs
    · simp [Undelimited, Lexeme.number, Piece.kinds, isDelimiter]
    · exact undelimited_single rfl 1
    · exact undelimited_unexpected l '-'

theorem isDelimiter_of_isWordlike {k : TokenKind} (h : k.isWordlike = true) :
    k.isDelimiter = false := by
  cases k <;> simp_all [isDelimiter, isWordlike]

theorem undelimited_properWord (l : Layout) (text : List Char) :
    Undelimited (properWord l text) := by
  obtain ⟨kind, n, heq, hkind, -⟩ := exists_single_properWord l text
  rw [heq]
  exact undelimited_single (isDelimiter_of_isWordlike hkind) n

theorem undelimited_word (l : Layout) (text : List Char) : Undelimited (word l text) := by
  have hkind (m : Mode) (w : String) : (m.wordKind w).isDelimiter = false := by
    cases h : m.prefersTypeNames with
    | true =>
      rw [Mode.wordKind, h, if_pos rfl]
      rfl
    | false => exact isDelimiter_of_isWordlike (Mode.isWordlike_wordKind h w)
  simpa [Undelimited, word, Piece.kinds] using hkind _ _

theorem undelimited_beginLine (l : Layout) (text : List Char) : Undelimited (beginLine l text) := by
  have hindentation (r : Reindent) (width : Nat) :
      ∀ k ∈ Piece.kinds (indentation r width), k.isDelimiter = false := by
    unfold indentation
    split_ifs <;> simp +contextual [Piece.kinds, isDelimiter]
  refine beginLine_cases l text (fun _ => ?_) fun _ => hindentation _ _
  simp [Undelimited, Piece.kinds]

/-- The layout behind a delimiter. -/
def behindDelimiter (l : Layout) (p : Position) : TokenKind → Layout
  | opening b => l.openBracket b p
  | _ => l

/-- A comma or an opening bracket is one round. -/
theorem within_of_delimiter {c : Char} {k : TokenKind} (h : ofDelimiter? c = some k) (l : Layout)
    (previous : Option Char) (p : Position) (text : List Char) :
    within l previous p c text = ⟨[.token k 1], behindDelimiter l p k⟩ := by
  unfold ofDelimiter? at h
  split_ifs at h with hcomma
  · subst hcomma
    cases h
    rfl
  · obtain ⟨b, hb, rfl⟩ := Option.map_eq_some_iff.mp h
    unfold Bracket.ofOpener? at hb
    split at hb <;> cases hb <;> rfl

theorem next_of_delimiter {cursor : Cursor} {c : Char} {rest : List Char} {k : TokenKind}
    (hl : l.beginsLine = false) (hrest : cursor.rest = c :: rest) (hc : ofDelimiter? c = some k) :
    next l cursor = ⟨[.token k 1], behindDelimiter l cursor.position k⟩ := by
  rw [next_within hl hrest, within_of_delimiter hc]

/-- No other round reads one. -/
theorem undelimited_within {c : Char} (h : ofDelimiter? c = none) (l : Layout)
    (previous : Option Char) (p : Position) (text : List Char) :
    Undelimited (within l previous p c text) := by
  have hcomma : c ≠ ',' := by
    rintro rfl
    exact nomatch h
  have hopener : Bracket.ofOpener? c = none := by
    rw [ofDelimiter?, if_neg hcomma] at h
    exact Option.map_eq_none_iff.mp h
  have hskip {n : Nat} {l : Layout} : Undelimited ⟨[.skip n], l⟩ := by
    simp [Undelimited, Piece.kinds]
  have hnumber : Undelimited ⟨Lexeme.number text, l⟩ := by
    simp [Undelimited, Lexeme.number, Piece.kinds, isDelimiter]
  unfold within
  refine ite_of_cases (fun _ => hskip) (ite_of_cases (fun _ => undelimited_endLine l _)
    (ite_of_cases (fun _ => hskip) (ite_of_cases ?string (ite_of_cases ?tag
      (ite_of_cases (fun _ => undelimited_embeddedCode l text)
        (ite_of_cases (fun _ => undelimited_bar l c text) (ite_of_cases ?colon
          (ite_of_cases (fun _ => undelimited_dash l text) ?_))))))))
  case string =>
    unfold quotedString
    dsimp only
    split_ifs <;> simp [Undelimited, Piece.kinds, isDelimiter]
  case tag =>
    have hparts : ∀ k ∈ [lt, typeTagName, typeTagValue, pipe, typeTagModifier, gt],
        k.isDelimiter = false := by decide
    intro _ k hk
    dsimp only at hk
    exact hparts k (kinds_typeTag text k hk)
  case colon =>
    intro _
    unfold colon
    split_ifs
    · exact undelimited_single rfl _
    · simp [Undelimited, Piece.kinds, isDelimiter]
  rw [hopener]
  cases Bracket.ofCloser? c with
  | some b =>
    intro k hk
    simp only [closeBracket] at hk
    split at hk
    · rw [List.mem_singleton.mp hk]
      rfl
    · split_ifs at hk <;> rw [List.mem_singleton.mp hk] <;> rfl
  | none =>
    exact ite_of_cases (fun h => absurd h hcomma) (ite_of_cases (fun _ => undelimited_single rfl 1)
      (ite_of_cases (fun _ => undelimited_single rfl 1) (ite_of_cases
        (fun _ => undelimited_single rfl 1) (ite_of_cases (fun _ => hnumber)
          (ite_of_cases (fun _ => undelimited_properWord l text) (ite_of_cases
            (fun _ => undelimited_word l text) (undelimited_unexpected l c)))))))

/-- The round that reads a delimiter stands before it. -/
theorem exists_of_mem_kinds {cursor : Cursor} {k : TokenKind}
    (hk : k ∈ Piece.kinds (next l cursor).pieces) (hdelimiter : k.isDelimiter = true) :
    l.beginsLine = false ∧ ∃ c rest, cursor.rest = c :: rest ∧ ofDelimiter? c = some k := by
  cases hrest : cursor.rest with
  | nil =>
    rw [next, hrest] at hk
    exact absurd hk List.not_mem_nil
  | cons c rest =>
    cases hl : l.beginsLine with
    | true =>
      rw [next_beginsLine hl (by simp [hrest])] at hk
      exact absurd hdelimiter (by simp [undelimited_beginLine l _ k hk])
    | false =>
      rw [next_within hl hrest] at hk
      refine ⟨rfl, c, rest, rfl, ?_⟩
      cases hc : ofDelimiter? c with
      | none =>
        exact absurd hdelimiter (by simp [undelimited_within hc l _ _ _ k hk])
      | some k' =>
        rw [within_of_delimiter hc] at hk
        rw [List.mem_singleton.mp hk]

end Round

end AgentScript
