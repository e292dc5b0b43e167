import AgentScript.Proofs.Reading.CapturedBlocks

/-!
# Scanners before a delimiter

A comma or an opening bracket that is read as such ends whatever stands before it. A scanner that
takes no more than the text before the delimiter does not see what stands behind it.
-/
namespace AgentScript

open CharClass Lexeme Scanner

namespace TokenKind

/-- Commas and opening brackets. -/
def isDelimiter : TokenKind → Bool
  | comma | opening _ => true
  | _ => false

/-- The kind of a comma or an opening bracket. -/
def ofDelimiter? (c : Char) : Option TokenKind :=
  if c = ',' then some .comma else (Bracket.ofOpener? c).map .opening

theorem isStructural_of_isDelimiter {k : TokenKind} (h : k.isDelimiter = true) :
    k.isStructural = false := by
  cases k <;> simp_all [isDelimiter, isStructural]

end TokenKind

namespace CharClass

/-- What a delimiter is not. -/
structure Delimits (d : Char) : Prop where
  space : isInlineSpace d = false
  whitespace : isWhitespace d = false
  lineBreak : isLineBreak d = false
  word : isWordChar d = false
  digit : isDigit d = false
  letter : isAsciiLetter d = false
  mark : d ∉ ['-', '+', '.', '|', '<', '>', '"', '\\', '#', '$', ':', 'e', 'E']

theorem delimits_of_ofDelimiter? {d : Char} {k : TokenKind}
    (h : TokenKind.ofDelimiter? d = some k) : Delimits d := by
  have hd : d = ',' ∨ d = '(' ∨ d = '[' ∨ d = '\x7b' := by
    unfold TokenKind.ofDelimiter? at h
    split_ifs at h with hcomma
    · exact .inl hcomma
    · obtain ⟨b, hb, -⟩ := Option.map_eq_some_iff.mp h
      unfold Bracket.ofOpener? at hb
      split at hb <;> simp_all
  rcases hd with rfl | rfl | rfl | rfl <;> constructor <;> decide

theorem Delimits.isAlphanumeric {d : Char} (h : Delimits d) : isAlphanumeric d = false :=
  (Bool.or_eq_false_iff.mp h.word).1

theorem Delimits.ne {d c : Char} (h : Delimits d)
    (hc : c ∈ ['-', '+', '.', '|', '<', '>', '"', '\\', '#', '$', ':', 'e', 'E']) : d ≠ c :=
  fun heq => h.mark (heq ▸ hc)

end CharClass

namespace Lexeme

variable {d : Char} {y v w : List Char}

theorem takeWhile_delimited {p : Char → Bool} (hp : p d = false) (y v : List Char) :
    (y ++ d :: v).takeWhile p = y.takeWhile p := by
  induction y with
  | nil => exact List.takeWhile_cons_of_neg (by simp [hp])
  | cons c y ih => rw [List.cons_append, List.takeWhile_cons, List.takeWhile_cons, ih]

theorem head?_delimited (y v w : List Char) : (y ++ d :: w).head? = (y ++ d :: v).head? := by
  cases y <;> rfl

theorem head?_dropWhile_delimited {p : Char → Bool} (hp : p d = false) (y v w : List Char) :
    ((y ++ d :: w).dropWhile p).head? = ((y ++ d :: v).dropWhile p).head? := by
  induction y with
  | nil => simp [hp]
  | cons c y ih =>
    rw [List.cons_append, List.cons_append, List.dropWhile_cons, List.dropWhile_cons]
    split_ifs
    · exact ih
    · rfl

/-- A run that ends before the delimiter ends there whatever comes behind it. -/
theorem takeWhile_before {p : Char → Bool} (h : ((y ++ d :: v).takeWhile p).length ≤ y.length) :
    (y ++ d :: w).takeWhile p = (y ++ d :: v).takeWhile p := by
  induction y with
  | nil =>
    have hd : p d = false := by
      by_contra hd
      rw [List.nil_append, List.takeWhile_cons_of_pos (by simpa using hd)] at h
      exact Nat.not_succ_le_zero _ h
    rw [takeWhile_delimited hd, takeWhile_delimited hd]
  | cons c y ih =>
    rw [List.cons_append, List.takeWhile_cons] at h
    rw [List.cons_append, List.cons_append, List.takeWhile_cons, List.takeWhile_cons]
    split_ifs at h ⊢
    · rw [ih (Nat.le_of_succ_le_succ h)]
    · rfl

/-- A length that only the text before a delimiter tells. -/
structure Delimited (d : Char) (f : List Char → Nat) : Prop where
  eq : ∀ y v, f (y ++ d :: v) = f y
  le : ∀ y, f y ≤ y.length

theorem Delimited.add {f g : List Char → Nat} (hf : Delimited d f) (hg : Delimited d g) :
    Delimited d fun text => f text + g (text.drop (f text)) where
  eq y v := by rw [hf.eq, List.drop_append_of_le_length (hf.le y), hg.eq]
  le y := by
    have hfirst := hf.le y
    have hsecond := hg.le (y.drop (f y))
    rw [List.length_drop] at hsecond
    omega

theorem delimited_spanLength {p : Char → Bool} (hp : p d = false) : Delimited d (spanLength p) :=
  ⟨fun y v => congrArg List.length (takeWhile_delimited hp y v), spanLength_le p⟩

theorem delimited_runLength {continues : Char → Option Char → Bool}
    (hself : ∀ next, continues d next = false)
    (hnext : ∀ c, continues c (some d) = continues c none) : Delimited d (runLength continues) := by
  refine ⟨fun y v => ?_, runLength_le continues⟩
  induction y with
  | nil => simp [runLength, hself]
  | cons c y ih =>
    have hhead : continues c (y ++ d :: v).head? = continues c y.head? := by
      cases y with
      | nil => exact hnext c
      | cons e y => rfl
    rw [List.cons_append, runLength, runLength, hhead, ih]

/-- A length that depends on the first character. -/
theorem delimited_of_cons {f : List Char → Nat} (hnil : f [] = 0) (hd : ∀ v, f (d :: v) = 0)
    (hcons : ∀ c y v, f (c :: (y ++ d :: v)) = f (c :: y) ∧ f (c :: y) ≤ y.length + 1) :
    Delimited d f where
  eq y v := by
    cases y with
    | nil => rw [hnil, List.nil_append, hd]
    | cons c y => exact (hcons c y v).1
  le y := by
    cases y with
    | nil => exact hnil.le
    | cons c y => exact (hcons c y []).2

section

variable (hd : Delimits d)

include hd

theorem delimited_blankLength : Delimited d blankLength := delimited_spanLength hd.space

theorem delimited_wordLength : Delimited d wordLength := delimited_spanLength hd.word

theorem delimited_digitsLength : Delimited d digitsLength := delimited_spanLength hd.digit

theorem delimited_continuesSegment : Delimited d (runLength continuesSegment) := by
  have hne := hd.ne (c := '-') (by simp)
  refine delimited_runLength (fun next => ?_) fun c => ?_
  · simp [continuesSegment, hd.word, hne]
  · simp [continuesSegment, hd.isAlphanumeric]

theorem delimited_continuesProperWord : Delimited d (runLength continuesProperWord) := by
  have hne := hd.ne (c := '-') (by simp)
  have hspace : d ≠ ' ' := by
    rintro rfl
    exact nomatch hd.space
  have hupper : isUppercase d = false := by
    cases hupper : isUppercase d with
    | false => rfl
    | true =>
      have halphanumeric := hd.isAlphanumeric
      simp [CharClass.isAlphanumeric, isAlphabetic, hupper] at halphanumeric
  refine delimited_runLength (fun next => ?_) fun c => ?_
  · simp [continuesProperWord, continuesSegment, hd.word, hne, hspace]
  · simp [continuesProperWord, continuesSegment, hd.isAlphanumeric, hupper, hd.digit]

theorem delimited_numberLength : Delimited d numberLength := by
  have hminus := hd.ne (c := '-') (by simp)
  have hplus := hd.ne (c := '+') (by simp)
  have hpoint := hd.ne (c := '.') (by simp)
  have hlower := hd.ne (c := 'e') (by simp)
  have hupper := hd.ne (c := 'E') (by simp)
  have hdigits := delimited_digitsLength hd
  have hsign : Delimited d minusLength := by
    refine delimited_of_cons rfl (fun v => by simp [minusLength, hminus]) fun c y v => ?_
    by_cases hc : c = '-' <;> simp [minusLength, hc]
  have hpower : Delimited d exponentSignLength := by
    refine delimited_of_cons rfl (fun v => by simp [exponentSignLength, hminus, hplus])
      fun c y v => ?_
    by_cases hc : c = '+' <;> by_cases hc' : c = '-' <;> simp [exponentSignLength, hc, hc']
  have hfraction : Delimited d fractionLength := by
    refine delimited_of_cons rfl (fun v => by simp [fractionLength, hpoint]) fun c y v => ?_
    by_cases hc : c = '.'
    · have hle := hdigits.le y
      have heq (text : List Char) : fractionLength (c :: text) =
          if digitsLength text = 0 then 0 else 1 + digitsLength text := by
        rw [hc]
        rfl
      rw [heq, heq, hdigits.eq]
      refine ⟨rfl, ?_⟩
      split_ifs <;> omega
    · simp [fractionLength, hc]
  have hexponent : Delimited d exponentLength := by
    refine delimited_of_cons rfl (fun v => by simp [exponentLength, hlower, hupper])
      fun c y v => ?_
    by_cases hc : c = 'e' ∨ c = 'E'
    · have hle := hpower.le y
      have hle' := (hpower.add hdigits).le y
      have heq (text : List Char) : exponentLength (c :: text) =
          if digitsLength (text.drop (exponentSignLength text)) = 0 then 0
          else 1 + exponentSignLength text +
            digitsLength (text.drop (exponentSignLength text)) := by
        rcases hc with rfl | rfl <;> rfl
      rw [heq, heq, hpower.eq, List.drop_append_of_le_length hle, hdigits.eq]
      refine ⟨rfl, ?_⟩
      split_ifs <;> omega
    · obtain ⟨hlower, hupper⟩ := not_or.mp hc
      simp [exponentLength, hlower, hupper]
  exact ((hsign.add hdigits).add hfraction).add hexponent

theorem nextSignificant?_delimited (y v w : List Char) :
    nextSignificant? (y ++ d :: w) = nextSignificant? (y ++ d :: v) :=
  head?_dropWhile_delimited hd.space y v w

theorem restIsBlank_delimited (y v w : List Char) :
    restIsBlank (y ++ d :: w) = restIsBlank (y ++ d :: v) := by
  rw [restIsBlank, restIsBlank, nextSignificant?_delimited hd y v w]

theorem captures_delimited (base : Nat) (y v w : List Char) :
    captures base (y ++ d :: w) = captures base (y ++ d :: v) := by
  rw [captures, captures, head?_dropWhile_delimited hd.space y v w,
    (delimited_blankLength hd).eq, (delimited_blankLength hd).eq]

theorem breakLength_delimited (y v : List Char) : breakLength (y ++ d :: v) = breakLength y := by
  have hfeed : d ≠ '\n' := by
    rintro rfl
    exact nomatch hd.lineBreak
  have hreturn : d ≠ '\r' := by
    rintro rfl
    exact nomatch hd.lineBreak
  cases y with
  | nil => simp [breakLength, hfeed, hreturn]
  | cons c y =>
    by_cases hc : c = '\r'
    · subst hc
      cases y with
      | nil => simp [breakLength, hfeed]
      | cons e y => by_cases he : e = '\n' <;> simp [breakLength, he]
    · by_cases hc' : c = '\n' <;> simp [breakLength, hc, hc']

end

/-- The scanner does not see what is behind the delimiter if it takes no more than the text before
it. -/
def EndsBefore (d : Char) (s : Scanner) (y : List Char) : Prop :=
  ∀ v w, Piece.total (s (y ++ d :: v)) ≤ y.length → s (y ++ d :: w) = s (y ++ d :: v)

/-- The length is the same for anything behind the delimiter if it reaches no further. -/
def ReachesBefore (d : Char) (f : List Char → Nat) (y : List Char) : Prop :=
  ∀ v w, f (y ++ d :: v) ≤ y.length → f (y ++ d :: w) = f (y ++ d :: v)

theorem Delimited.reachesBefore {f : List Char → Nat} (hf : Delimited d f) (y : List Char) :
    ReachesBefore d f y := fun v w _ => by rw [hf.eq, hf.eq]

theorem reachesBefore_spanLength (p : Char → Bool) (y : List Char) :
    ReachesBefore d (spanLength p) y :=
  fun _ _ h => congrArg List.length (takeWhile_before h)

theorem EndsBefore.andThen {first second : Scanner} (h : EndsBefore d first y)
    (h' : ∀ n, EndsBefore d second (y.drop n)) : EndsBefore d (Scanner.andThen first second) y := by
  intro v w hle
  unfold Scanner.andThen at hle ⊢
  dsimp only at hle ⊢
  rw [Piece.total_append] at hle
  have hfirst : Piece.total (first (y ++ d :: v)) ≤ y.length := by omega
  rw [h v w hfirst, List.drop_append_of_le_length hfirst, List.drop_append_of_le_length hfirst]
  rw [List.drop_append_of_le_length hfirst] at hle
  rw [h' _ v w (by rw [List.length_drop]; omega)]

theorem endsBefore_sequence {scanners : List Scanner}
    (h : ∀ s ∈ scanners, ∀ n, EndsBefore d s (y.drop n)) : EndsBefore d (sequence scanners) y := by
  induction scanners generalizing y with
  | nil => exact fun _ _ _ => rfl
  | cons s scanners ih =>
    obtain ⟨hs, hscanners⟩ := List.forall_mem_cons.mp h
    refine EndsBefore.andThen (hs 0) fun n => ih fun s hs m => ?_
    rw [List.drop_drop]
    exact hscanners s hs _

theorem ReachesBefore.skipping {f : List Char → Nat} (hf : ReachesBefore d f y) :
    EndsBefore d (skipping f) y := by
  intro v w hle
  rw [Scanner.skipping, Scanner.skipping,
    hf v w (by simpa [Scanner.skipping, Piece.width] using hle)]

theorem ReachesBefore.tokenOf {f : List Char → Nat} (hf : ReachesBefore d f y) (kind : TokenKind) :
    EndsBefore d (tokenOf kind f) y := by
  intro v w hle
  rw [total_tokenOf] at hle
  rw [Scanner.tokenOf, Scanner.tokenOf, hf v w hle]

/-- The delimiter does not end a string; where one ends before it, it was closed there. -/
theorem stringTail_before (hd : Delimits d) {v : List Char}
    (h : (stringTail (y ++ d :: v)).length ≤ y.length) (w : List Char) :
    stringTail (y ++ d :: w) = stringTail (y ++ d :: v) := by
  have hback := hd.ne (c := '\\') (by simp)
  have hquote := hd.ne (c := '"') (by simp)
  have hdelimiter (v : List Char) : stringTail (d :: v) = (stringTail v).lengthen 1 := by
    simp [stringTail, hback, hquote, hd.lineBreak]
  fun_induction stringTail y with
  | case1 =>
    rw [List.nil_append, hdelimiter] at h
    exact absurd h (by simp [Extent.lengthen])
  | case2 c rest hc => simp [stringTail, hc]
  | case3 c rest hc ih =>
    simp only [List.cons_append, stringTail, hc, Bool.false_eq_true, if_false] at h ⊢
    rw [ih (by simpa [Extent.lengthen] using h)]
  | case4 c rest hescape hc =>
    have hne : c ≠ '\\' := by
      rintro rfl
      cases hc
    simp [stringTail, hne, hc]
  | case5 rest hescape hc => simp [stringTail, isLineBreak]
  | case6 c rest hescape hc hquote ih =>
    by_cases hne : c = '\\'
    · cases rest with
      | nil =>
        subst hne
        simp [stringTail, hd.lineBreak, Extent.lengthen] at h
      | cons e rest => exact (hescape e rest hne rfl).elim
    · have hcons (text : List Char) : stringTail (c :: text) = (stringTail text).lengthen 1 := by
        simp [stringTail, hne, hc, hquote]
      rw [List.cons_append, hcons] at h
      rw [List.cons_append, List.cons_append, hcons, hcons,
        ih (by simpa [Extent.lengthen] using h)]

theorem codeLength_delimiter_pos (hd : Delimits d) (quote : Option Char) (v : List Char) :
    0 < codeLength quote (d :: v) := by
  have hdash := hd.ne (c := '-') (by simp)
  have hback := hd.ne (c := '\\') (by simp)
  cases v with
  | nil => simp [codeLength, hd.whitespace]
  | cons e v => simp [codeLength, hd.lineBreak, hd.whitespace, hdash, hback]

/-- A single character before the delimiter is all of an expression only if it ends the line. -/
theorem isLineBreak_of_codeLength_le (hd : Delimits d) {quote : Option Char} {c : Char}
    (h : codeLength quote (c :: d :: v) ≤ 1) : isLineBreak c = true := by
  have hgt := hd.ne (c := '>') (by simp)
  have hpos := codeLength_delimiter_pos hd (quoteAfter quote c) v
  by_contra hc
  rw [codeLength, if_neg hc, if_neg (fun harrow => hgt harrow.2.2)] at h
  have hne : codeLength (quoteAfter quote c) (d :: v) ≠ 0 := by omega
  simp only [hne, decide_false, Bool.false_and, Bool.false_eq_true, if_false] at h
  split_ifs at h <;> omega

/-- An expression that ends before the delimiter ends at an arrow or with its line. -/
theorem reachesBefore_codeLength (hd : Delimits d) (quote : Option Char) (y : List Char) :
    ReachesBefore d (codeLength quote) y := by
  intro v w h
  have hsingle {quote : Option Char} {c : Char} (h : codeLength quote (c :: d :: v) ≤ 1) :
      codeLength quote (c :: d :: w) = codeLength quote (c :: d :: v) := by
    have hc := isLineBreak_of_codeLength_le hd h
    rw [codeLength_break _ hc, codeLength_break _ hc]
  have hmore {quote : Option Char} {c e : Char} {rest : List Char} (hc : ¬ isLineBreak c = true)
      (harrow : ¬ (quote = none ∧ c = '-' ∧ e = '>'))
      (hescape : ¬ (quote ≠ none ∧ c = '\\' ∧ isLineBreak e = false))
      (h : codeLength quote (c :: e :: rest ++ d :: v) ≤ (c :: e :: rest).length)
      (ih : codeLength (quoteAfter quote c) (e :: rest ++ d :: v) ≤ (e :: rest).length →
        codeLength (quoteAfter quote c) (e :: rest ++ d :: w) =
          codeLength (quoteAfter quote c) (e :: rest ++ d :: v)) :
      codeLength quote (c :: e :: rest ++ d :: w) =
        codeLength quote (c :: e :: rest ++ d :: v) := by
    simp only [List.cons_append] at h ih ⊢
    rw [codeLength, if_neg hc, if_neg harrow, if_neg hescape] at h
    rw [codeLength, if_neg hc, if_neg harrow, if_neg hescape, codeLength, if_neg hc,
      if_neg harrow, if_neg hescape, ih]
    dsimp only at h
    split_ifs at h with hend
    · simp only [Bool.and_eq_true, decide_eq_true_eq] at hend
      exact hend.1.trans_le (Nat.zero_le _)
    · exact Nat.le_of_succ_le_succ h
  fun_induction codeLength quote y with
  | case1 => exact absurd (codeLength_delimiter_pos hd _ v) (Nat.not_lt.mpr h)
  | case2 => exact hsingle h
  | case3 => exact hsingle h
  | case4 quote c e rest hc =>
    simp only [List.cons_append, codeLength_break _ hc]
  | case5 quote c e rest hc harrow =>
    simp only [List.cons_append]
    rw [codeLength, if_neg hc, if_pos harrow, codeLength, if_neg hc, if_pos harrow]
  | case6 quote c e rest hc harrow hescape ih =>
    simp only [List.cons_append] at h ⊢
    rw [codeLength, if_neg hc, if_neg harrow, if_pos hescape] at h
    rw [codeLength, if_neg hc, if_neg harrow, if_pos hescape, codeLength, if_neg hc,
      if_neg harrow, if_pos hescape, ih (by simpa using h)]
  | case7 quote c e rest hc harrow hescape n hend ih => exact hmore hc harrow hescape h ih
  | case8 quote c e rest hc harrow hescape n hend ih => exact hmore hc harrow hescape h ih

section

variable (hd : Delimits d)

include hd

theorem endsBefore_number (y : List Char) : EndsBefore d number y := by
  intro v w _
  rw [number, number, (delimited_numberLength hd).eq, (delimited_numberLength hd).eq]

theorem endsBefore_quotedString (c : Char) (y : List Char) :
    EndsBefore d quotedString (c :: y) := by
  intro v w h
  have hle : (stringTail (y ++ d :: v)).length ≤ y.length := by
    unfold quotedString at h
    dsimp only at h
    split_ifs at h
    · simpa [Piece.width, stringExtent, Extent.lengthen] using h
    · simpa [Piece.width, stringExtent, Extent.lengthen] using h
  have hextent : stringExtent (c :: y ++ d :: w) = stringExtent (c :: y ++ d :: v) :=
    congrArg (Extent.lengthen 1) (stringTail_before hd hle w)
  rw [quotedString, quotedString, hextent]

theorem endsBefore_typeName (mode : Mode) (y : List Char) : EndsBefore d (typeName mode) y := by
  intro v w _
  have hname (w : List Char) : typeNameLength (y ++ d :: w) = typeNameLength (y ++ d :: v) := by
    have hle := (delimited_wordLength hd).le y
    unfold typeNameLength
    dsimp only
    rw [(delimited_wordLength hd).eq, (delimited_wordLength hd).eq, head?_delimited y v w,
      List.drop_append_of_le_length hle, List.drop_append_of_le_length hle,
      head?_delimited _ v w]
  have hle : typeNameLength (y ++ d :: v) ≤ y.length := by
    unfold typeNameLength
    dsimp only
    split_ifs
    · rw [(delimited_wordLength hd).eq]
      exact (delimited_wordLength hd).le y
    · exact Nat.zero_le _
  unfold typeName Scanner.tokenOf
  rw [hname, List.take_append_of_le_length hle, List.take_append_of_le_length hle]

omit hd in
theorem total_tagText (kind : TokenKind) (isDelimiter : Char → Bool) (text : List Char) :
    Piece.total (tagText kind isDelimiter text) =
      (text.takeWhile fun c => !isDelimiter c).length := by
  have hle := trimmedLength_le (text.takeWhile fun c => !isDelimiter c)
  unfold tagText
  dsimp only
  rw [Piece.total_append]
  split_ifs with h
  · simp [Piece.width, h]
  · simp only [Piece.total_nil, Piece.total_cons, Piece.width]
    omega

omit hd in
theorem endsBefore_tagText (kind : TokenKind) (isDelimiter : Char → Bool) (y : List Char) :
    EndsBefore d (tagText kind isDelimiter) y := by
  intro v w h
  rw [total_tagText] at h
  rw [tagText, tagText, takeWhile_before h]

theorem endsBefore_tagModifier (y : List Char) : EndsBefore d tagModifier y := by
  have hbar := hd.ne (c := '|') (by simp)
  cases y with
  | nil =>
    intro v w _
    simp [tagModifier, hbar]
  | cons c y =>
    by_cases hc : c = '|'
    · subst hc
      have hsequence : EndsBefore d (sequence [fun _ => [.token .pipe 1], skipping blankLength,
          tagText .typeTagModifier endsModifier]) ('|' :: y) := by
        refine endsBefore_sequence ?_
        simp only [List.forall_mem_cons]
        refine ⟨fun _ _ _ _ => rfl, fun n => ?_, fun n => endsBefore_tagText _ _ _,
          List.forall_mem_nil _⟩
        exact ((delimited_blankLength hd).reachesBefore _).skipping
      exact hsequence
    · intro v w _
      simp [tagModifier, hc]

theorem endsBefore_openTag (mode : Mode) (y : List Char) : EndsBefore d (openTag mode) y := by
  have hblank (n : Nat) : EndsBefore d (skipping blankLength) (y.drop n) :=
    ((delimited_blankLength hd).reachesBefore _).skipping
  refine endsBefore_sequence ?_
  simp only [List.forall_mem_cons]
  exact ⟨fun _ _ _ _ => rfl, hblank, fun n => endsBefore_typeName hd mode _, hblank,
    fun n => endsBefore_tagText _ _ _, fun n => endsBefore_tagModifier hd _, List.forall_mem_nil _⟩

/-- A tag is closed before the delimiter or not at all. -/
theorem endsBefore_typeTag (mode : Mode) (y : List Char) : EndsBefore d (typeTag mode) y := by
  have hgt := hd.ne (c := '>') (by simp)
  intro v w h
  have hle : Piece.total (openTag mode (y ++ d :: v)) ≤ y.length := by
    unfold typeTag at h
    dsimp only at h
    split at h
    · rw [Piece.total_append] at h
      omega
    · simpa [Piece.width] using h
  have hopen := endsBefore_openTag hd mode y v w hle
  unfold typeTag
  dsimp only
  rw [hopen, List.drop_append_of_le_length hle, List.drop_append_of_le_length hle]
  cases y.drop (Piece.total (openTag mode (y ++ d :: v))) with
  | nil => simp [hgt]
  | cons c rest => by_cases hc : c = '>' <;> simp [hc]

/-- The letters and brackets of a marker end before the delimiter. -/
theorem marker_delimited (c : Char) (y v : List Char) :
    markerLanguage (c :: (y ++ d :: v)) = markerLanguage (c :: y) ∧
      markerBrackets (c :: (y ++ d :: v)) = markerBrackets (c :: y) := by
  have hgt : Delimited d (spanLength (· == '>')) :=
    delimited_spanLength (by simpa using hd.ne (c := '>') (by simp))
  have hlanguage : markerLanguage (c :: (y ++ d :: v)) = markerLanguage (c :: y) :=
    takeWhile_delimited hd.letter y v
  have hle : (markerLanguage (c :: y)).length ≤ y.length := (List.takeWhile_sublist _).length_le
  refine ⟨hlanguage, ?_⟩
  rw [markerBrackets, markerBrackets, hlanguage, List.tail_cons, List.tail_cons,
    List.drop_append_of_le_length hle, hgt.eq]

theorem endsBefore_marker (form : MarkerForm) (c : Char) (y : List Char) :
    EndsBefore d (marker form) (c :: y) := by
  intro v w _
  obtain ⟨hlanguage, hbrackets⟩ := marker_delimited hd c y v
  obtain ⟨hlanguage', hbrackets'⟩ := marker_delimited hd c y w
  rw [List.cons_append, List.cons_append]
  simp only [marker, markerLength, hlanguage, hbrackets, hlanguage', hbrackets']

theorem endsBefore_inlineCode (y : List Char) : EndsBefore d inlineCode y :=
  ((delimited_blankLength hd).reachesBefore y).skipping.andThen fun _ =>
    (reachesBefore_codeLength hd none _).tokenOf _

/-- A line that stands before the delimiter with its break is the same whatever follows it. -/
theorem line_before {v : List Char} (w : List Char)
    (hle : lineLength (y ++ d :: v) + breakLength ((y ++ d :: v).drop (lineLength (y ++ d :: v))) ≤
      y.length) :
    lineLength (y ++ d :: w) = lineLength (y ++ d :: v) ∧
      breakLength ((y ++ d :: w).drop (lineLength (y ++ d :: v))) =
        breakLength ((y ++ d :: v).drop (lineLength (y ++ d :: v))) := by
  have hline : lineLength (y ++ d :: v) ≤ y.length := Nat.le_of_add_right_le hle
  refine ⟨reachesBefore_spanLength _ y v w hline, ?_⟩
  rw [List.drop_append_of_le_length hline, List.drop_append_of_le_length hline,
    breakLength_delimited hd, breakLength_delimited hd]

/-- Captured lines end where a line is not captured, and the delimiter stands on none of them. -/
theorem capturedLines_before (content : TokenKind) (base : Nat) {v : List Char} (w : List Char)
    (h : Piece.total (capturedLines content base (y ++ d :: v).length (y ++ d :: v)) ≤ y.length) :
    capturedLines content base (y ++ d :: w).length (y ++ d :: w) =
      capturedLines content base (y ++ d :: v).length (y ++ d :: v) := by
  induction htext : y ++ d :: v using line_induction generalizing y with
  | nil => exact absurd htext (by simp)
  | line text hne ih =>
    subst htext
    have hcaptures := captures_delimited hd base y v w
    cases hcaptured : captures base (y ++ d :: v) with
    | false =>
      rw [hcaptured] at hcaptures
      rw [capturedLines_of_stop (.inr hcaptured), capturedLines_of_stop (.inr hcaptures)]
    | true =>
      rw [hcaptured] at hcaptures
      rw [capturedLines_of_captures hne hcaptured] at h ⊢
      simp only [Piece.total_cons, Piece.width] at h
      obtain ⟨hline, hbreak⟩ := line_before hd (y := y) (v := v) w (by omega)
      rw [capturedLines_of_captures (by simp) hcaptures, hline, hbreak]
      rw [← Nat.add_assoc] at h
      generalize lineLength (y ++ d :: v) + breakLength ((y ++ d :: v).drop _) = n at h ih ⊢
      have hn : n ≤ y.length := Nat.le_of_add_right_le h
      rw [List.drop_append_of_le_length hn] at h ih ⊢
      rw [List.drop_append_of_le_length hn, ih _ rfl]
      rw [List.length_drop]
      omega

theorem endsBefore_capturedBlock (content : TokenKind) (base : Nat) (y : List Char) :
    EndsBefore d (capturedBlock content base) y := by
  intro v w h
  unfold capturedBlock at h ⊢
  dsimp only at h ⊢
  rw [Piece.total_append] at h
  replace h := Nat.le_trans (Nat.le_add_left _ _) h
  simp only [Piece.total_cons, Piece.width] at h
  obtain ⟨hline, hbreak⟩ := line_before hd (y := y) (v := v) w (by omega)
  rw [restIsBlank_delimited hd y v w, hline, hbreak]
  rw [← Nat.add_assoc] at h
  generalize lineLength (y ++ d :: v) + breakLength ((y ++ d :: v).drop _) = n at h ⊢
  have hn : n ≤ y.length := Nat.le_of_add_right_le h
  rw [List.drop_append_of_le_length hn] at h ⊢
  rw [List.drop_append_of_le_length hn, capturedLines_before hd content base w]
  rw [List.length_drop]
  omega

theorem endsBefore_embedded (form : MarkerForm) (base : Nat) (c : Char) (y : List Char) :
    EndsBefore d (embedded form base) (c :: y) := by
  refine (endsBefore_marker hd form c y).andThen fun n => ?_
  cases form with
  | inline => exact endsBefore_inlineCode hd _
  | block => exact endsBefore_capturedBlock hd _ base _

end

end Lexeme

end AgentScript
