import AgentScript.Proofs.Reading.Scanners
import Mathlib.Data.List.TakeWhile

/-!
# What scanners see of a line

A scanner within a line sees nothing of what comes behind it: it reads the same from the line
alone, whether a line break follows or the text ends there, and it takes no more than the line.
-/
namespace AgentScript.Lexeme

open CharClass Scanner

variable {text : List Char} {c : Char} {n : Nat}

/-- The text up to its first line break. -/
def firstLine (text : List Char) : List Char := text.takeWhile fun c => !isLineBreak c

theorem eq_of_isLineBreak (h : isLineBreak c = true) : c = '\n' ∨ c = '\r' := by
  simpa [isLineBreak] using h

theorem length_firstLine (text : List Char) : (firstLine text).length = lineLength text := rfl

theorem firstLine_cons (h : isLineBreak c = false) (rest : List Char) :
    firstLine (c :: rest) = c :: firstLine rest := List.takeWhile_cons_of_pos (by simp [h])

theorem firstLine_break (h : isLineBreak c = true) (rest : List Char) :
    firstLine (c :: rest) = [] := List.takeWhile_cons_of_neg (by simp [h])

/-- Before its end the line is the text. -/
theorem take_firstLine (h : n ≤ (firstLine text).length) :
    (firstLine text).take n = text.take n := by
  have hprefix : firstLine text <+: text := List.takeWhile_prefix _
  obtain ⟨rest, hrest⟩ := hprefix
  conv_rhs => rw [← hrest]
  rw [List.take_append_of_le_length h]

theorem firstLine_drop (h : n ≤ (firstLine text).length) :
    firstLine (text.drop n) = (firstLine text).drop n := by
  induction n generalizing text with
  | zero => rfl
  | succ n ih =>
    cases text with
    | nil => rfl
    | cons c rest =>
      cases hc : isLineBreak c with
      | true =>
        rw [firstLine_break hc] at h
        exact absurd h (Nat.not_succ_le_zero n)
      | false =>
        rw [firstLine_cons hc] at h ⊢
        exact ih (Nat.le_of_succ_le_succ h)

/-- The characters at the beginning that are no line breaks are on the line. -/
theorem takeWhile_firstLine {p : Char → Bool} (hn : p '\n' = false) (hr : p '\r' = false)
    (text : List Char) : (firstLine text).takeWhile p = text.takeWhile p := by
  have hbreak (c : Char) (h : p c = true) : (!isLineBreak c) = true := by
    by_contra hc
    rcases eq_of_isLineBreak (by simpa using hc) with rfl | rfl
    · rw [hn] at h
      exact nomatch h
    · rw [hr] at h
      exact nomatch h
  unfold firstLine
  rw [List.takeWhile_takeWhile]
  congr 1
  funext c
  cases hc : p c with
  | false => simp
  | true => simpa using hbreak c hc

theorem any_head?_firstLine {p : Char → Bool} (hn : p '\n' = false) (hr : p '\r' = false)
    (text : List Char) : (firstLine text).head?.any p = text.head?.any p := by
  cases text with
  | nil => rfl
  | cons c rest =>
    cases hc : isLineBreak c with
    | false => rw [firstLine_cons hc]; rfl
    | true =>
      rw [firstLine_break hc]
      rcases eq_of_isLineBreak hc with rfl | rfl
      · exact hn.symm
      · exact hr.symm

theorem head?_firstLine {d : Char} (hd : isLineBreak d = false) (text : List Char) :
    (firstLine text).head? = some d ↔ text.head? = some d := by
  cases text with
  | nil => rfl
  | cons c rest =>
    cases hc : isLineBreak c with
    | false => rw [firstLine_cons hc]; rfl
    | true =>
      rw [firstLine_break hc]
      have hne : c ≠ d := by
        rintro rfl
        rw [hd] at hc
        exact nomatch hc
      simp [hne]

/-- A text without line breaks is at the beginning of the line or of neither. -/
theorem prefix_firstLine {m : List Char} (hm : ∀ c ∈ m, isLineBreak c = false) :
    m <+: firstLine text ↔ m <+: text := by
  constructor
  · exact fun h => h.trans (List.takeWhile_prefix _)
  · rintro ⟨rest, rfl⟩
    refine ⟨firstLine rest, ?_⟩
    unfold firstLine
    rw [List.takeWhile_append_of_pos]
    simpa using hm

/-- A length that is told by the line alone. -/
structure OnLine (f : List Char → Nat) : Prop where
  eq : ∀ text, f (firstLine text) = f text
  le : ∀ text, f text ≤ (firstLine text).length

/-- One length, and another one behind it. -/
theorem OnLine.add {f g : List Char → Nat} (hf : OnLine f) (hg : OnLine g) :
    OnLine fun text => f text + g (text.drop (f text)) where
  eq text := by rw [hf.eq, ← firstLine_drop (hf.le text), hg.eq]
  le text := by
    have hfirst := hf.le text
    have hsecond := hg.le (text.drop (f text))
    rw [firstLine_drop hfirst, List.length_drop] at hsecond
    omega

theorem onLine_spanLength {p : Char → Bool} (hn : p '\n' = false) (hr : p '\r' = false) :
    OnLine (spanLength p) where
  eq text := congrArg List.length (takeWhile_firstLine hn hr text)
  le text := by
    unfold spanLength
    rw [← takeWhile_firstLine hn hr]
    exact (List.takeWhile_sublist p).length_le

theorem onLine_blankLength : OnLine blankLength := onLine_spanLength rfl rfl

theorem onLine_wordLength : OnLine wordLength := onLine_spanLength (by decide) (by decide)

theorem onLine_digitsLength : OnLine digitsLength := onLine_spanLength (by decide) (by decide)

/-- A length that depends on the first character of the line. -/
theorem onLine_of_cons {f : List Char → Nat} (hnil : f [] = 0)
    (hbreak : ∀ c rest, isLineBreak c = true → f (c :: rest) = 0)
    (hcons : ∀ c rest, isLineBreak c = false →
      f (c :: firstLine rest) = f (c :: rest) ∧ f (c :: rest) ≤ (firstLine rest).length + 1) :
    OnLine f where
  eq text := by
    cases text with
    | nil => rfl
    | cons c rest =>
      cases hc : isLineBreak c with
      | true => rw [firstLine_break hc, hnil, hbreak c rest hc]
      | false => rw [firstLine_cons hc, (hcons c rest hc).1]
  le text := by
    cases text with
    | nil => exact hnil ▸ Nat.zero_le _
    | cons c rest =>
      cases hc : isLineBreak c with
      | true => exact hbreak c rest hc ▸ Nat.zero_le _
      | false =>
        rw [firstLine_cons hc]
        exact (hcons c rest hc).2

theorem isAlphanumeric_break (h : isLineBreak c = true) : isAlphanumeric c = false := by
  rcases eq_of_isLineBreak h with rfl | rfl <;> decide

/-- A run that no line break continues, nor anything because of the line break behind it. -/
theorem onLine_runLength {continues : Char → Option Char → Bool}
    (hself : ∀ c next, isLineBreak c = true → continues c next = false)
    (hnext : ∀ c d, isLineBreak d = true → continues c (some d) = continues c none) :
    OnLine (runLength continues) := by
  have hhead (c : Char) (rest : List Char) :
      continues c (firstLine rest).head? = continues c rest.head? := by
    cases rest with
    | nil => rfl
    | cons d rest =>
      cases hd : isLineBreak d with
      | false => rw [firstLine_cons hd]; rfl
      | true => rw [firstLine_break hd]; exact (hnext c d hd).symm
  constructor
  case eq =>
    intro text
    induction text with
    | nil => rfl
    | cons c rest ih =>
      cases hc : isLineBreak c with
      | true => simp [firstLine_break hc, runLength, hself c _ hc]
      | false => rw [firstLine_cons hc, runLength, runLength, hhead, ih]
  case le =>
    intro text
    induction text with
    | nil => exact Nat.le_refl 0
    | cons c rest ih =>
      cases hc : isLineBreak c with
      | true => simp [runLength, hself c _ hc]
      | false =>
        rw [firstLine_cons hc, runLength, List.length_cons]
        split_ifs <;> omega

theorem onLine_continuesSegment : OnLine (runLength continuesSegment) := by
  refine onLine_runLength (fun c next h => ?_) fun c d h => ?_
  · rcases eq_of_isLineBreak h with rfl | rfl <;> rfl
  · simp [continuesSegment, isAlphanumeric_break h]

theorem onLine_continuesProperWord : OnLine (runLength continuesProperWord) := by
  refine onLine_runLength (fun c next h => ?_) fun c d h => ?_
  · rcases eq_of_isLineBreak h with rfl | rfl <;> rfl
  · have hupper : (isUppercase d || isDigit d) = false := by
      rcases eq_of_isLineBreak h with rfl | rfl <;> decide
    simp [continuesProperWord, continuesSegment, isAlphanumeric_break h, hupper]

theorem onLine_minusLength : OnLine minusLength := by
  refine onLine_of_cons rfl (fun c rest h => ?_) fun c rest h => ?_
  · rcases eq_of_isLineBreak h with rfl | rfl <;> rfl
  · by_cases hc : c = '-' <;> simp [minusLength, hc]

theorem onLine_exponentSignLength : OnLine exponentSignLength := by
  refine onLine_of_cons rfl (fun c rest h => ?_) fun c rest h => ?_
  · rcases eq_of_isLineBreak h with rfl | rfl <;> rfl
  · by_cases hplus : c = '+' <;> by_cases hminus : c = '-' <;>
      simp [exponentSignLength, hplus, hminus]

theorem onLine_fractionLength : OnLine fractionLength := by
  refine onLine_of_cons rfl (fun c rest h => ?_) fun c rest h => ?_
  · rcases eq_of_isLineBreak h with rfl | rfl <;> rfl
  · have hle := onLine_digitsLength.le rest
    by_cases hc : c = '.'
    · subst hc
      refine ⟨by simp only [fractionLength, onLine_digitsLength.eq], ?_⟩
      change (if digitsLength rest = 0 then 0 else 1 + digitsLength rest) ≤ _
      split_ifs <;> omega
    · simp [fractionLength, hc]

theorem onLine_exponentLength : OnLine exponentLength := by
  have hpower := onLine_exponentSignLength.add onLine_digitsLength
  refine onLine_of_cons rfl (fun c rest h => ?_) fun c rest h => ?_
  · rcases eq_of_isLineBreak h with rfl | rfl <;> rfl
  · have hle := hpower.le rest
    have hsign := onLine_exponentSignLength.eq rest
    have hdigits : digitsLength ((firstLine rest).drop (exponentSignLength rest)) =
        digitsLength (rest.drop (exponentSignLength rest)) := by
      rw [← firstLine_drop (onLine_exponentSignLength.le rest), onLine_digitsLength.eq]
    have hexponent (rest : List Char) (hc : c = 'e' ∨ c = 'E') : exponentLength (c :: rest) =
        if digitsLength (rest.drop (exponentSignLength rest)) = 0 then 0
        else 1 + exponentSignLength rest + digitsLength (rest.drop (exponentSignLength rest)) := by
      rcases hc with rfl | rfl <;> rfl
    by_cases hc : c = 'e' ∨ c = 'E'
    · rw [hexponent _ hc, hexponent _ hc, hsign, hdigits]
      refine ⟨rfl, ?_⟩
      split_ifs <;> omega
    · obtain ⟨hlower, hupper⟩ := not_or.mp hc
      simp [exponentLength, hlower, hupper]

theorem onLine_numberLength : OnLine numberLength :=
  ((onLine_minusLength.add onLine_digitsLength).add onLine_fractionLength).add onLine_exponentLength

/-- A string ends on its line. -/
theorem stringTail_firstLine (text : List Char) :
    stringTail (firstLine text) = stringTail text ∧
      (stringTail text).length ≤ (firstLine text).length := by
  fun_induction stringTail text with
  | case1 => exact ⟨rfl, Nat.le_refl 0⟩
  | case2 c rest hc =>
    rw [firstLine_cons rfl, firstLine_break hc]
    exact ⟨rfl, Nat.le_refl 1⟩
  | case3 c rest hc ih =>
    have hc : isLineBreak c = false := by simpa using hc
    rw [firstLine_cons rfl, firstLine_cons hc]
    exact ⟨by simp [stringTail, hc, ih.1], by simpa [Extent.lengthen] using ih.2⟩
  | case4 c rest hescape hc =>
    rw [firstLine_break hc]
    exact ⟨rfl, Nat.le_refl 0⟩
  | case5 rest => exact ⟨rfl, by rw [firstLine_cons rfl]; simp⟩
  | case6 c rest hescape hc hquote ih =>
    have hc : isLineBreak c = false := by simpa using hc
    rw [firstLine_cons hc]
    refine ⟨?_, by simpa [Extent.lengthen] using ih.2⟩
    by_cases hback : c = '\\'
    · cases rest with
      | nil =>
        subst hback
        rfl
      | cons d rest => exact (hescape d rest hback rfl).elim
    · simp [stringTail, hback, hc, hquote, ih.1]

theorem isWhitespace_break (h : isLineBreak c = true) : isWhitespace c = true := by
  rcases eq_of_isLineBreak h with rfl | rfl <;> decide

theorem codeLength_break (quote : Option Char) (h : isLineBreak c = true) (rest : List Char) :
    codeLength quote (c :: rest) = 0 := by
  cases rest with
  | nil => rw [codeLength, if_pos (isWhitespace_break h)]
  | cons d rest => rw [codeLength, if_pos h]

/-- What a character adds to an expression does not depend on what is behind the line. -/
theorem codeLength_cons_firstLine {quote : Option Char} {d : Char} {rest : List Char}
    (hc : ¬ isLineBreak c = true) (harrow : ¬ (quote = none ∧ c = '-' ∧ d = '>'))
    (hescape : ¬ (quote ≠ none ∧ c = '\\' ∧ isLineBreak d = false))
    (h : codeLength (quoteAfter quote c) (firstLine (d :: rest)) =
      codeLength (quoteAfter quote c) (d :: rest)) :
    codeLength quote (c :: firstLine (d :: rest)) =
      if codeLength (quoteAfter quote c) (d :: rest) = 0 && isWhitespace c then 0
      else codeLength (quoteAfter quote c) (d :: rest) + 1 := by
  cases hd : isLineBreak d with
  | true =>
    rw [firstLine_break hd, codeLength_break _ hd, codeLength]
    split_ifs <;> simp_all
  | false =>
    rw [firstLine_cons hd] at h ⊢
    rw [codeLength, if_neg hc, if_neg harrow, if_neg hescape, h]

/-- An expression ends on its line, and so does the whitespace behind it. -/
theorem codeLength_firstLine (quote : Option Char) (text : List Char) :
    codeLength quote (firstLine text) = codeLength quote text ∧
      codeLength quote text ≤ (firstLine text).length := by
  fun_induction codeLength quote text with
  | case1 => exact ⟨rfl, Nat.le_refl 0⟩
  | case2 quote c hspace =>
    refine ⟨?_, Nat.zero_le _⟩
    cases hc : isLineBreak c with
    | true => rw [firstLine_break hc, codeLength]
    | false => rw [firstLine_cons hc, firstLine, List.takeWhile_nil, codeLength, if_pos hspace]
  | case3 quote c hspace =>
    have hc : isLineBreak c = false := by
      by_contra hc
      exact hspace (isWhitespace_break (by simpa using hc))
    rw [firstLine_cons hc, firstLine, List.takeWhile_nil, codeLength, if_neg hspace]
    exact ⟨rfl, Nat.le_refl 1⟩
  | case4 quote c d rest hc =>
    rw [firstLine_break hc]
    exact ⟨by rw [codeLength], Nat.le_refl 0⟩
  | case5 quote c d rest hc harrow =>
    obtain ⟨rfl, rfl, rfl⟩ := harrow
    rw [firstLine_cons rfl, firstLine_cons rfl]
    exact ⟨rfl, Nat.zero_le _⟩
  | case6 quote c d rest hc harrow hescape ih =>
    rw [firstLine_cons (by simpa using hc), firstLine_cons hescape.2.2, codeLength, if_neg hc,
      if_neg harrow, if_pos hescape, ih.1]
    exact ⟨rfl, by simpa using ih.2⟩
  | case7 quote c d rest hc harrow hescape n hend ih =>
    refine ⟨?_, Nat.zero_le _⟩
    rw [firstLine_cons (by simpa using hc), codeLength_cons_firstLine hc harrow hescape ih.1,
      if_pos hend]
  | case8 quote c d rest hc harrow hescape n hend ih =>
    rw [firstLine_cons (by simpa using hc), codeLength_cons_firstLine hc harrow hescape ih.1,
      if_neg hend]
    exact ⟨rfl, by simpa using ih.2⟩

theorem onLine_codeLength (quote : Option Char) : OnLine (codeLength quote) :=
  ⟨fun text => (codeLength_firstLine quote text).1, fun text => (codeLength_firstLine quote text).2⟩

/-- The scanner reads nothing but the line that the text begins with. -/
structure StaysOnLine (s : Scanner) (text : List Char) : Prop where
  eq : s (firstLine text) = s text
  le : Piece.total (s text) ≤ (firstLine text).length

theorem StaysOnLine.andThen {first second : Scanner} (h : StaysOnLine first text)
    (h' : StaysOnLine second (text.drop (Piece.total (first text)))) :
    StaysOnLine (andThen first second) text := by
  have hdrop := firstLine_drop h.le
  constructor
  case eq =>
    unfold Scanner.andThen
    dsimp only
    rw [h.eq, ← hdrop, h'.eq]
  case le =>
    have hfirst := h.le
    have hsecond := h'.le
    rw [hdrop, List.length_drop] at hsecond
    unfold Scanner.andThen
    rw [Piece.total_append]
    omega

theorem staysOnLine_sequence_nil (text : List Char) : StaysOnLine (sequence []) text :=
  ⟨rfl, Nat.zero_le _⟩

theorem OnLine.skipping {f : List Char → Nat} (hf : OnLine f) (text : List Char) :
    StaysOnLine (skipping f) text where
  eq := by rw [Scanner.skipping, Scanner.skipping, hf.eq]
  le := by simpa [Scanner.skipping, Piece.width] using hf.le text

theorem total_tokenOf (kind : TokenKind) (f : List Char → Nat) (text : List Char) :
    Piece.total (tokenOf kind f text) = f text := by
  unfold tokenOf
  split_ifs with h
  · simp [h]
  · simp [Piece.width]

theorem OnLine.tokenOf {f : List Char → Nat} (hf : OnLine f) (kind : TokenKind) (text : List Char) :
    StaysOnLine (tokenOf kind f) text where
  eq := by rw [Scanner.tokenOf, Scanner.tokenOf, hf.eq]
  le := by rw [total_tokenOf]; exact hf.le text

theorem staysOnLine_number (text : List Char) : StaysOnLine number text where
  eq := by rw [number, number, onLine_numberLength.eq]
  le := by simpa [number, Piece.width] using onLine_numberLength.le text

theorem staysOnLine_inlineCode (text : List Char) : StaysOnLine inlineCode text :=
  (onLine_blankLength.skipping text).andThen ((onLine_codeLength none).tokenOf _ _)

section

variable {rest : List Char} (hc : isLineBreak c = false)

include hc

theorem staysOnLine_quotedString : StaysOnLine quotedString (c :: rest) := by
  obtain ⟨hsame, hle⟩ := stringTail_firstLine rest
  have hextent : stringExtent (firstLine (c :: rest)) = stringExtent (c :: rest) := by
    rw [firstLine_cons hc]
    exact congrArg (Extent.lengthen 1) hsame
  constructor
  case eq => rw [quotedString, quotedString, hextent]
  case le =>
    have hlength : (stringExtent (c :: rest)).length ≤ (firstLine (c :: rest)).length := by
      rw [firstLine_cons hc]
      exact Nat.succ_le_succ hle
    unfold quotedString
    dsimp only
    split_ifs
    · simpa [Piece.width] using hlength
    · simpa [Piece.width] using hlength

/-- Behind its dollar sign a marker is letters and brackets. -/
theorem marker_firstLine :
    markerLanguage (firstLine (c :: rest)) = markerLanguage (c :: rest) ∧
      markerBrackets (firstLine (c :: rest)) = markerBrackets (c :: rest) ∧
      markerLength (c :: rest) ≤ (firstLine (c :: rest)).length := by
  have hletters : OnLine (spanLength isAsciiLetter) := onLine_spanLength rfl rfl
  have hbrackets : OnLine (spanLength (· == '>')) := onLine_spanLength rfl rfl
  have hle := (hletters.add hbrackets).le rest
  have hdrop := firstLine_drop (hletters.le rest)
  rw [firstLine_cons hc]
  refine ⟨takeWhile_firstLine rfl rfl rest, ?_, ?_⟩
  · change spanLength (· == '>')
      ((firstLine rest).drop (spanLength isAsciiLetter (firstLine rest))) =
      spanLength (· == '>') (rest.drop (spanLength isAsciiLetter rest))
    rw [hletters.eq, ← hdrop, hbrackets.eq]
  · change 1 + spanLength isAsciiLetter rest +
      spanLength (· == '>') (rest.drop (spanLength isAsciiLetter rest)) ≤
        (firstLine rest).length + 1
    omega

theorem markerForm?_firstLine : markerForm? (firstLine (c :: rest)) = markerForm? (c :: rest) := by
  rw [markerForm?, markerForm?, (marker_firstLine hc).2.1]

theorem staysOnLine_marker (form : MarkerForm) : StaysOnLine (marker form) (c :: rest) := by
  obtain ⟨hlanguage, hbrackets, hle⟩ : _ ∧ _ ∧ markerLength (c :: rest) ≤ _ := marker_firstLine hc
  have hlength : markerLength (firstLine (c :: rest)) = markerLength (c :: rest) := by
    rw [markerLength, markerLength, hlanguage, hbrackets]
  constructor
  case eq => rw [marker, marker, hlanguage, hlength]
  case le =>
    unfold marker
    dsimp only
    rw [Piece.total_append]
    split_ifs
    · simpa [Piece.width] using hle
    · simpa [Piece.width] using hle

theorem staysOnLine_embedded_inline (base : Nat) :
    StaysOnLine (embedded .inline base) (c :: rest) :=
  (staysOnLine_marker hc .inline).andThen (staysOnLine_inlineCode _)

end

theorem staysOnLine_typeName (mode : Mode) (text : List Char) :
    StaysOnLine (typeName mode) text := by
  have hname : OnLine typeNameLength := by
    constructor
    case eq =>
      intro text
      unfold typeNameLength
      dsimp only
      rw [onLine_wordLength.eq, any_head?_firstLine (by decide) (by decide),
        ← firstLine_drop (onLine_wordLength.le text), any_head?_firstLine (by decide) (by decide)]
    case le =>
      intro text
      have hword := onLine_wordLength.le text
      unfold typeNameLength
      dsimp only
      split_ifs
      · exact hword
      · exact Nat.zero_le _
  have htoken := hname.tokenOf
    (mode.wordKind (String.ofList (text.take (typeNameLength text)))) text
  constructor
  case eq =>
    unfold typeName
    rw [hname.eq, take_firstLine (hname.le text), htoken.eq]
  case le => exact htoken.le

theorem trimmedLength_le (text : List Char) : trimmedLength text ≤ text.length := by
  unfold trimmedLength
  have h := (List.dropWhile_sublist (p := isWhitespace) (l := text.reverse)).length_le
  rwa [List.length_reverse] at h

/-- A text in a tag ends with the line at the latest. -/
theorem staysOnLine_tagText (kind : TokenKind) {isDelimiter : Char → Bool}
    (hn : isDelimiter '\n' = true) (hr : isDelimiter '\r' = true) (text : List Char) :
    StaysOnLine (tagText kind isDelimiter) text := by
  have hraw : (firstLine text).takeWhile (fun c => !isDelimiter c) =
      text.takeWhile fun c => !isDelimiter c :=
    takeWhile_firstLine (by simp [hn]) (by simp [hr]) text
  constructor
  case eq => rw [tagText, tagText, hraw]
  case le =>
    have hle : (text.takeWhile fun c => !isDelimiter c).length ≤ (firstLine text).length := by
      rw [← hraw]
      exact (List.takeWhile_sublist _).length_le
    have htrimmed := trimmedLength_le (text.takeWhile fun c => !isDelimiter c)
    unfold tagText
    dsimp only
    rw [Piece.total_append]
    split_ifs
    · simp only [Piece.total_nil, Piece.total_cons, Piece.width]
      omega
    · simp only [Piece.total_nil, Piece.total_cons, Piece.width]
      omega

/-- A single character that is known to be no line break. -/
theorem staysOnLine_single {kind : TokenKind} {rest : List Char} (hc : isLineBreak c = false) :
    StaysOnLine (fun _ => [.token kind 1]) (c :: rest) :=
  ⟨rfl, by rw [firstLine_cons hc]; simp [Piece.width]⟩

theorem staysOnLine_tagModifier (text : List Char) : StaysOnLine tagModifier text := by
  have hnone {text : List Char} (h : text.head? ≠ some '|') : tagModifier text = [] := by
    unfold tagModifier
    split
    · exact absurd rfl h
    · rfl
  have hhead := head?_firstLine (d := '|') rfl text
  by_cases h : text.head? = some '|'
  · obtain ⟨rest, rfl⟩ : ∃ rest, text = '|' :: rest := by
      cases text with
      | nil => exact nomatch h
      | cons c rest => exact ⟨rest, by rw [Option.some.inj h]⟩
    have hsequence : StaysOnLine (sequence [fun _ => [.token .pipe 1], skipping blankLength,
        tagText .typeTagModifier endsModifier]) ('|' :: rest) :=
      (staysOnLine_single rfl).andThen <| (onLine_blankLength.skipping _).andThen <|
        (staysOnLine_tagText _ rfl rfl _).andThen (staysOnLine_sequence_nil _)
    have heq := hsequence.eq
    rw [firstLine_cons rfl] at heq
    constructor
    case eq =>
      rw [firstLine_cons rfl]
      exact heq
    case le => exact hsequence.le
  · constructor
    case eq => rw [hnone h, hnone fun h' => h (hhead.mp h')]
    case le => rw [hnone h]; exact Nat.zero_le _

theorem staysOnLine_openTag (mode : Mode) (rest : List Char) :
    StaysOnLine (openTag mode) ('<' :: rest) :=
  (staysOnLine_single rfl).andThen <| (onLine_blankLength.skipping _).andThen <|
    (staysOnLine_typeName mode _).andThen <| (onLine_blankLength.skipping _).andThen <|
      (staysOnLine_tagText _ rfl rfl _).andThen <|
        (staysOnLine_tagModifier _).andThen (staysOnLine_sequence_nil _)

theorem staysOnLine_typeTag (mode : Mode) (rest : List Char) :
    StaysOnLine (typeTag mode) ('<' :: rest) := by
  have hopen := staysOnLine_openTag mode rest
  have hdrop := firstLine_drop hopen.le
  have hclose (text : List Char) : typeTag mode text =
      if (text.drop (Piece.total (openTag mode text))).head? = some '>' then
        openTag mode text ++ [.token .gt 1]
      else .fault .unterminatedTypeTag (Piece.total (openTag mode text)) :: openTag mode text := by
    unfold typeTag
    dsimp only
    split
    · next h => rw [h]; rfl
    · next h =>
      rw [if_neg]
      intro hhead
      cases hrest : text.drop (Piece.total (openTag mode text)) with
      | nil => rw [hrest] at hhead; exact nomatch hhead
      | cons c more =>
        rw [hrest] at hhead
        exact h more (hrest.trans (by rw [Option.some.inj hhead]))
  have hhead := head?_firstLine (d := '>') rfl
    (('<' :: rest).drop (Piece.total (openTag mode ('<' :: rest))))
  constructor
  case eq =>
    rw [hclose, hclose, hopen.eq, ← hdrop, ite_congr (propext hhead)] <;> exact fun _ => rfl
  case le =>
    rw [hclose]
    split_ifs with h
    · rw [← hhead, hdrop] at h
      have hlt : Piece.total (openTag mode ('<' :: rest)) < (firstLine ('<' :: rest)).length := by
        by_contra hge
        rw [List.drop_eq_nil_of_le (by omega)] at h
        exact nomatch h
      rw [Piece.total_append]
      exact hlt
    · simpa [Piece.width] using hopen.le

end AgentScript.Lexeme
