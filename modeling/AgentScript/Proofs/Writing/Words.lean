import AgentScript.Lexeme.QuotedString
import AgentScript.Lexeme.Word
import AgentScript.Text.Quoted
import Mathlib.Data.List.Chain
import Mathlib.Data.List.TakeWhile
import Mathlib.Tactic.Common

/-!
# Words and strings as they are written

The words that can stand for names, and how far each of them reaches when it is read again:
a word or a run of words that is followed by something else ends where it was written to
end. A string that is written with escapes ends at its own quote and decodes to itself.
-/
namespace AgentScript

namespace CharRun

/-- Whether a run holds code points of one parity only. -/
def hasParity (r : CharRun) : Bool := r.stride == 2 || r.first == r.last

/-- Whether two runs are seen to have no code point in common. -/
def apart (r r' : CharRun) : Bool :=
  r.last < r'.first || r'.last < r.first ||
    (r.hasParity && r'.hasParity && r.first % 2 != r'.first % 2)

/-- Whether the runs of two ordered tables are apart. What ends before a run of the first table
is left behind, and what begins behind the run is not looked at. -/
def allApart : List CharRun → List CharRun → Bool
  | [], _ => true
  | r :: rs, others =>
    ((others.dropWhile (·.last < r.first)).takeWhile (·.first ≤ r.last)).all r.apart &&
      allApart rs (others.dropWhile (·.last < r.first))

/-- A table in the order of the first code points. -/
def Ordered (runs : List CharRun) : Prop := runs.Pairwise fun r r' => r.first ≤ r'.first

theorem mod_two_of_contains {r : CharRun} {code : Nat} (hr : r.hasParity = true)
    (h : r.contains code = true) : code % 2 = r.first % 2 := by
  simp only [contains, Bool.and_eq_true, decide_eq_true_eq, beq_iff_eq] at h
  obtain ⟨⟨hfirst, hlast⟩, hstride⟩ := h
  rcases (by simpa [hasParity] using hr) with htwo | hone
  · rw [htwo] at hstride
    omega
  · omega

theorem not_contains_of_apart {r r' : CharRun} {code : Nat} (hr : r.apart r' = true)
    (h : r.contains code = true) : r'.contains code = false := by
  rw [Bool.eq_false_iff]
  intro h'
  rcases (by simpa [apart, or_assoc] using hr) with hlt | hlt | ⟨⟨hp, hp'⟩, hparity⟩
  · simp only [contains, Bool.and_eq_true, decide_eq_true_eq] at h h'
    omega
  · simp only [contains, Bool.and_eq_true, decide_eq_true_eq] at h h'
    omega
  · exact hparity ((mod_two_of_contains hp h).symm.trans (mod_two_of_contains hp' h'))

theorem ordered_of_isChain {runs : List CharRun} (h : (runs.map first).IsChain (· ≤ ·)) :
    Ordered runs :=
  List.pairwise_map.mp h.pairwise

theorem Ordered.mem_takeWhile {runs : List CharRun} (h : Ordered runs) {r : CharRun}
    (hr : r ∈ runs) {code : Nat} (hle : r.first ≤ code) :
    r ∈ runs.takeWhile (·.first ≤ code) := by
  induction runs with
  | nil => exact nomatch hr
  | cons x runs ih =>
    obtain ⟨hfirst, hrest⟩ := List.pairwise_cons.mp h
    rcases List.mem_cons.mp hr with rfl | hr
    · simp [hle]
    · simp [Nat.le_trans (hfirst r hr) hle, ih hrest hr]

theorem apart_of_allApart {runs others : List CharRun} (hruns : Ordered runs)
    (hothers : Ordered others) (h : allApart runs others = true) :
    ∀ r ∈ runs, ∀ r' ∈ others, r.apart r' = true := by
  induction runs generalizing others with
  | nil => exact fun r hr => nomatch hr
  | cons x runs ih =>
    obtain ⟨hfirst, hruns⟩ := List.pairwise_cons.mp hruns
    obtain ⟨hnear, hrest⟩ := Bool.and_eq_true_iff.mp h
    have hdropped : Ordered (others.dropWhile (·.last < x.first)) :=
      hothers.sublist (List.dropWhile_sublist _)
    intro r hr r' hr'
    have hle : x.first ≤ r.first := by
      rcases List.mem_cons.mp hr with rfl | hr
      · exact Nat.le_refl _
      · exact hfirst r hr
    rw [← List.takeWhile_append_dropWhile (p := fun o => o.last < x.first) (l := others),
      List.mem_append] at hr'
    -- a run that ends before `x` ends before every run behind it as well
    rcases hr' with hpassed | hr'
    · have hlt : r'.last < x.first := by simpa using List.mem_takeWhile_imp hpassed
      simp [apart, Nat.lt_of_lt_of_le hlt hle]
    · rcases List.mem_cons.mp hr with rfl | hr
      · by_cases hbegins : r'.first ≤ r.last
        · exact List.all_eq_true.mp hnear r' (hdropped.mem_takeWhile hr' hbegins)
        · simp [apart, Nat.lt_of_not_le hbegins]
      · exact ih hruns hdropped hrest r hr r' hr'

end CharRun

namespace CharClass

theorem uppercaseRuns_apart_lowercaseRuns :
    ∀ r ∈ uppercaseRuns, ∀ r' ∈ lowercaseRuns, r.apart r' = true := by
  have hupper : (uppercaseRuns.map CharRun.first).IsChain (· ≤ ·) := by decide +kernel
  have hlower : (lowercaseRuns.map CharRun.first).IsChain (· ≤ ·) := by decide +kernel
  exact CharRun.apart_of_allApart (CharRun.ordered_of_isChain hupper)
    (CharRun.ordered_of_isChain hlower) (by decide +kernel)

theorem isLowercase_of_isUppercase {c : Char} (h : isUppercase c = true) :
    isLowercase c = false := by
  unfold isUppercase at h
  unfold isLowercase
  split_ifs at h ⊢ with hascii
  · simp only [Bool.and_eq_true, decide_eq_true_eq, Char.le_def, UInt32.le_iff_toNat_le] at h
    simp only [Bool.and_eq_false_iff, decide_eq_false_iff_not, Char.le_def, UInt32.le_iff_toNat_le]
    left
    have hz : 'Z'.val.toNat < 'a'.val.toNat := by decide
    omega
  · obtain ⟨r, hr, hcontains⟩ := List.any_eq_true.mp h
    rw [inRuns, List.any_eq_false]
    intro r' hr'
    have hapart := uppercaseRuns_apart_lowercaseRuns r hr r' hr'
    simpa using CharRun.not_contains_of_apart hapart hcontains

theorem isUppercase_of_isLowercase {c : Char} (h : isLowercase c = true) :
    isUppercase c = false := by
  rw [Bool.eq_false_iff]
  intro hupper
  rw [isLowercase_of_isUppercase hupper] at h
  exact nomatch h

theorem isAscii_of_isDigit {c : Char} (h : isDigit c = true) : isAscii c = true := by
  simp only [isDigit, Bool.and_eq_true, decide_eq_true_eq, Char.le_def,
    UInt32.le_iff_toNat_le] at h
  have hnine : '9'.val.toNat = 57 := rfl
  have hcode : c.toNat = c.val.toNat := rfl
  simp only [isAscii, decide_eq_true_eq]
  omega

theorem isWordChar_of_isDigit {c : Char} (h : isDigit c = true) : isWordChar c = true := by
  simp [isWordChar, isAlphanumeric, isNumeric, isAscii_of_isDigit h, h]

/-- A digit has no case. -/
theorem isDigit_eq_false_of_cased {c : Char} (h : isUppercase c = true ∨ isLowercase c = true) :
    isDigit c = false := by
  rw [Bool.eq_false_iff]
  intro hdigit
  have hascii := isAscii_of_isDigit hdigit
  simp only [isDigit, Bool.and_eq_true, decide_eq_true_eq, Char.le_def,
    UInt32.le_iff_toNat_le] at hdigit
  have hnine : '9'.val.toNat = 57 := rfl
  have hA : 'A'.val.toNat = 65 := rfl
  have ha : 'a'.val.toNat = 97 := rfl
  simp only [isUppercase, isLowercase, hascii, if_true, Bool.and_eq_true, decide_eq_true_eq,
    Char.le_def, UInt32.le_iff_toNat_le] at h
  omega

/-- Word characters are none of the marks of the language. -/
theorem ne_of_isWordChar {c mark : Char} (h : isWordChar c = true)
    (hmark : isWordChar mark = false) : c ≠ mark := by
  rintro rfl
  rw [hmark] at h
  exact nomatch h

end CharClass

namespace Writing

open CharClass Lexeme

/-- A run goes on with word characters, with hyphens before letters and digits, and with
spaces before upper-case letters and digits. -/
def runsOn : List Char → Bool
  | [] => true
  | c :: rest =>
    (isWordChar c || (c == '-' && rest.head?.any isAlphanumeric) ||
      (c == ' ' && rest.head?.any fun n => isUppercase n || isDigit n)) && runsOn rest

def isProperRun : List Char → Bool
  | [] => false
  | c :: rest => isUppercase c && runsOn rest

def isLowerWord : List Char → Bool
  | [] => false
  | c :: rest => (isLowercase c || c == '_') && rest.all isWordChar

def isAtomName : List Char → Bool
  | [] => false
  | c :: rest => (isAlphabetic c || c == '_') && rest.all isWordChar

/-- Capitalized words with single spaces between them. -/
structure ProperRun where
  text : String
  isRun : isProperRun text.toList = true

/-- A word that begins in lower case or with an underscore. -/
structure LowerWord where
  text : String
  isWord : isLowerWord text.toList = true

/-- The name of an atom, without its colon. -/
structure AtomName where
  text : String
  isName : isAtomName text.toList = true

/-- Anything that can serve as a name. -/
inductive Name
  | proper (run : ProperRun)
  | lower (word : LowerWord)

def Name.text : Name → String
  | proper run => run.text
  | lower word => word.text

/-- The words of a run up to its first space. -/
def ProperRun.firstSegment (run : ProperRun) : String :=
  String.ofList (run.text.toList.takeWhile (· != ' '))

/-- A checked text begins with a character, and it is the check of the characters from there. -/
theorem exists_cons {check : List Char → Bool} (hnil : check [] = false) {text : String}
    (h : check text.toList = true) :
    ∃ c rest, text.toList = c :: rest ∧ check (c :: rest) = true ∧
      String.ofList (c :: rest) = text := by
  cases htext : text.toList with
  | nil => simp [htext, hnil] at h
  | cons c rest => exact ⟨c, rest, rfl, htext ▸ h, by rw [← htext, String.ofList_toList]⟩

theorem runsOn_of_cons {c : Char} {run : List Char} (h : runsOn (c :: run) = true) :
    runsOn run = true := by
  rw [runsOn, Bool.and_eq_true] at h
  exact h.2

theorem isProperRun_cons {c : Char} {run : List Char} :
    isProperRun (c :: run) = true ↔ isUppercase c = true ∧ runsOn run = true := by
  rw [isProperRun, Bool.and_eq_true]

theorem isWordChar_of_isProperRun {c : Char} {rest : List Char}
    (h : isProperRun (c :: rest) = true) : isWordChar c = true :=
  isWordChar_of_isAlphabetic (isAlphabetic_of_isUppercase (isProperRun_cons.mp h).1)

theorem isWordChar_of_isLowerWord {c : Char} {rest : List Char}
    (h : isLowerWord (c :: rest) = true) : isWordChar c = true := by
  rw [isLowerWord, Bool.and_eq_true, Bool.or_eq_true, beq_iff_eq] at h
  rcases h.1 with hlower | rfl
  · exact isWordChar_of_isAlphabetic (isAlphabetic_of_isLowercase hlower)
  · rfl

/-- A word in lower case does not begin in upper case. -/
theorem isLowerWord_of_isProperRun {text : List Char} (h : isProperRun text = true) :
    isLowerWord text = false := by
  cases text with
  | nil => rfl
  | cons c rest =>
    rw [isProperRun, Bool.and_eq_true] at h
    have hc : c ≠ '_' := by
      rintro rfl
      exact absurd h.1 (by decide)
    simp [isLowerWord, isLowercase_of_isUppercase h.1, hc]

theorem Name.exists_cons (n : Name) :
    ∃ c rest, n.text.toList = c :: rest ∧ isWordChar c = true := by
  cases n with
  | proper run =>
    obtain ⟨c, rest, htext, hrun, -⟩ := Writing.exists_cons rfl run.isRun
    exact ⟨c, rest, htext, isWordChar_of_isProperRun hrun⟩
  | lower word =>
    obtain ⟨c, rest, htext, hword, -⟩ := Writing.exists_cons rfl word.isWord
    exact ⟨c, rest, htext, isWordChar_of_isLowerWord hword⟩

/-- A run ends with its first segment, or a space joins it to the next one. -/
theorem runsOn_cases {text : List Char} (h : runsOn text = true) :
    text.takeWhile (· != ' ') = text ∨
      ∃ c more, text = text.takeWhile (· != ' ') ++ ' ' :: c :: more ∧
        (isUppercase c = true ∨ isDigit c = true) := by
  induction text with
  | nil => exact .inl rfl
  | cons d text ih =>
    by_cases hd : d = ' '
    · subst hd
      have hnext : text.head?.any (fun n => isUppercase n || isDigit n) = true := by
        have hspace : isWordChar ' ' = false := rfl
        simp only [runsOn, hspace, Bool.and_eq_true] at h
        simpa using h.1
      cases text with
      | nil => cases hnext
      | cons c more => exact .inr ⟨c, more, rfl, by simpa using hnext⟩
    · rw [List.takeWhile_cons_of_pos (by simpa using hd)]
      rcases ih (runsOn_of_cons h) with hone | ⟨c, more, htext, hc⟩
      · exact .inl (congrArg (d :: ·) hone)
      · exact .inr ⟨c, more, congrArg (d :: ·) htext, hc⟩

/-- The run begins with a segment that is not all of it. -/
theorem ProperRun.exists_tail {run : ProperRun} (h : run.firstSegment ≠ run.text) :
    ∃ c more, run.text.toList = run.firstSegment.toList ++ ' ' :: c :: more ∧
      (isUppercase c = true ∨ isDigit c = true) := by
  obtain ⟨c, rest, htext, hrun, -⟩ := Writing.exists_cons rfl run.isRun
  have hruns : runsOn run.text.toList = true := by
    rw [htext, runsOn, isWordChar_of_isProperRun hrun]
    exact (isProperRun_cons.mp hrun).2
  rw [firstSegment, String.toList_ofList]
  refine (runsOn_cases hruns).resolve_left fun hone => h ?_
  rw [firstSegment, hone, String.ofList_toList]

/-- Whether no plain word goes on into a text. -/
def endsWord (text : List Char) : Bool := text.head?.all fun c => !isWordChar c

/-- Whether no run of words goes on into a text. -/
def endsRun : List Char → Bool
  | [] => true
  | c :: rest => !continuesProperWord c rest.head?

/-- No plain word goes on into the text. -/
abbrev EndsWord (text : List Char) : Prop := endsWord text = true

/-- No run of words goes on into the text. -/
abbrev EndsRun (text : List Char) : Prop := endsRun text = true

theorem endsWord_of_endsRun {text : List Char} (h : endsRun text = true) :
    endsWord text = true := by
  cases text with
  | nil => rfl
  | cons c rest =>
    have hc : continuesProperWord c rest.head? = false := by simpa [endsRun] using h
    rw [continuesProperWord, continuesSegment] at hc
    have hword := (Bool.or_eq_false_iff.mp (Bool.or_eq_false_iff.mp hc).1).1
    simp [endsWord, hword]

theorem continuesProperWord_append {c : Char} {run rest : List Char}
    (h : runsOn (c :: run) = true) : continuesProperWord c (run ++ rest).head? = true := by
  rw [runsOn, Bool.and_eq_true] at h
  cases run with
  | nil =>
    have hword : isWordChar c = true := by simpa using h.1
    simp [continuesProperWord, continuesSegment, hword]
  | cons d run => simpa [continuesProperWord, continuesSegment] using h.1

theorem runLength_append {run rest : List Char} (h : runsOn run = true)
    (hrest : endsRun rest = true) :
    runLength continuesProperWord (run ++ rest) = run.length := by
  induction run with
  | nil =>
    cases rest with
    | nil => rfl
    | cons c rest =>
      have hc : continuesProperWord c rest.head? = false := by simpa [endsRun] using hrest
      simp [runLength, hc]
  | cons c run ih =>
    rw [List.cons_append, runLength, if_pos (continuesProperWord_append h),
      ih (runsOn_of_cons h), List.length_cons]

theorem properWordLength_append {run rest : List Char} (h : isProperRun run = true)
    (hrest : endsRun rest = true) : properWordLength (run ++ rest) = run.length := by
  cases run with
  | nil => exact nomatch h
  | cons c run =>
    rw [List.cons_append, properWordLength, runLength_append (isProperRun_cons.mp h).2 hrest,
      List.length_cons]

/-- Only a space ends a segment within a run. -/
theorem segmentRunLength_append {run rest : List Char} (h : runsOn run = true)
    (hrest : endsRun rest = true) :
    runLength continuesSegment (run ++ rest) = (run.takeWhile (· != ' ')).length := by
  induction run with
  | nil =>
    cases rest with
    | nil => rfl
    | cons c rest =>
      have hc : continuesSegment c rest.head? = false := by
        have hends : continuesProperWord c rest.head? = false := by simpa [endsRun] using hrest
        rw [continuesProperWord, Bool.or_eq_false_iff] at hends
        exact hends.1
      simp [runLength, hc]
  | cons c run ih =>
    have hcontinues : continuesProperWord c (run ++ rest).head? = true :=
      continuesProperWord_append h
    by_cases hc : c = ' '
    · subst hc
      have hspace : continuesSegment ' ' (run ++ rest).head? = false := rfl
      rw [List.cons_append, runLength, hspace]
      rfl
    · have hsegment : continuesSegment c (run ++ rest).head? = true := by
        simpa [continuesProperWord, hc] using hcontinues
      rw [List.cons_append, runLength, if_pos hsegment, ih (runsOn_of_cons h),
        List.takeWhile_cons_of_pos (by simpa using hc), List.length_cons]

theorem segmentLength_append {run rest : List Char} (h : isProperRun run = true)
    (hrest : endsRun rest = true) :
    segmentLength (run ++ rest) = (run.takeWhile (· != ' ')).length := by
  cases run with
  | nil => exact nomatch h
  | cons c run =>
    obtain ⟨hupper, hrun⟩ := isProperRun_cons.mp h
    have hc : c ≠ ' ' := by
      rintro rfl
      exact nomatch hupper
    rw [List.cons_append, segmentLength, segmentRunLength_append hrun hrest,
      List.takeWhile_cons_of_pos (by simpa using hc), List.length_cons]

theorem take_segmentLength_append {run rest : List Char} (h : isProperRun run = true)
    (hrest : endsRun rest = true) :
    (run ++ rest).take (segmentLength (run ++ rest)) = run.takeWhile (· != ' ') := by
  rw [segmentLength_append h hrest,
    List.take_append_of_le_length (List.takeWhile_sublist _).length_le]
  exact take_spanLength _ run

/-- What is taken as long as a check succeeds ends where the check fails. -/
theorem takeWhile_append {p : Char → Bool} {text rest : List Char} (h : text.all p = true)
    (hrest : rest.head?.all (fun c => !p c) = true) : (text ++ rest).takeWhile p = text := by
  have hstop : rest.takeWhile p = [] := by
    cases rest with
    | nil => rfl
    | cons c rest => exact List.takeWhile_cons_of_neg (by simpa using hrest)
  rw [List.takeWhile_append_of_pos (by simpa using h), hstop, List.append_nil]

theorem wordLength_append {word rest : List Char} (h : word.all isWordChar = true)
    (hrest : endsWord rest = true) : wordLength (word ++ rest) = word.length := by
  rw [wordLength, spanLength, takeWhile_append h hrest]

/-- A character that needs no escape is none of those that need one. -/
theorem ne_of_escapeLetter?_eq_none {c special : Char} (h : Quoted.escapeLetter? c = none)
    (hspecial : (Quoted.escapeLetter? special).isSome = true) : c ≠ special := by
  rintro rfl
  rw [h] at hspecial
  exact nomatch hspecial

theorem isLineBreak_escapeLetter {c l : Char} (h : Quoted.escapeLetter? c = some l) :
    isLineBreak l = false := by
  unfold Quoted.escapeLetter? at h
  split at h <;> simp at h <;> subst h <;> rfl

theorem stringTail_escape (text rest : List Char) :
    stringTail (Quoted.escape text ++ '"' :: rest) = ⟨(Quoted.escape text).length + 1, true⟩ := by
  induction text with
  | nil => simp [Quoted.escape, stringTail, isLineBreak]
  | cons c text ih =>
    unfold Quoted.escape
    split
    · next l hl =>
      simp [stringTail, isLineBreak_escapeLetter hl, ih, Extent.lengthen]
    · next hc =>
      have hslash : c ≠ '\\' := ne_of_escapeLetter?_eq_none hc rfl
      have hquote : c ≠ '"' := ne_of_escapeLetter?_eq_none hc rfl
      have hfeed : c ≠ '\n' := ne_of_escapeLetter?_eq_none hc rfl
      have hreturn : c ≠ '\r' := ne_of_escapeLetter?_eq_none hc rfl
      have hbreak : isLineBreak c = false := by simp [isLineBreak, hfeed, hreturn]
      rw [List.cons_append, stringTail]
      · simp [hbreak, hquote, ih, Extent.lengthen]
      · rintro d rest' rfl
        exact absurd rfl hslash

theorem stringExtent_encode (text rest : List Char) :
    stringExtent (Quoted.encode text ++ rest) = ⟨(Quoted.encode text).length, true⟩ := by
  simp [stringExtent, Quoted.encode, stringTail_escape, Extent.lengthen]

/-- An even number of backslashes stands at the end of the text. -/
def EndsEvenly (text : List Char) : Prop := (text.reverse.takeWhile (· == '\\')).length % 2 = 0

theorem EndsEvenly.append {front text : List Char} (hfront : EndsEvenly front)
    (h : EndsEvenly text) : EndsEvenly (front ++ text) := by
  unfold EndsEvenly at *
  -- The backslashes at the end reach the front only if all that follows it is backslashes.
  rw [List.reverse_append, List.takeWhile_append]
  split_ifs with hall
  · rw [List.length_append]
    omega
  · exact h

/-- A quote behind an even number of backslashes closes a body. -/
theorem EndsEvenly.dropClosing {body : List Char} (h : EndsEvenly body) :
    Quoted.dropClosing (body ++ ['"']) = body := by
  have hcloses : Quoted.closes (body ++ ['"']) = true := by
    unfold EndsEvenly at h
    simp [Quoted.closes, h]
  rw [Quoted.dropClosing, if_pos hcloses, List.dropLast_concat]

theorem endsEvenly_escape (text : List Char) : EndsEvenly (Quoted.escape text) := by
  induction text with
  | nil => rfl
  | cons c text ih =>
    unfold Quoted.escape
    split
    · next l hl =>
      have hpair : EndsEvenly ['\\', l] := by
        unfold Quoted.escapeLetter? at hl
        split at hl <;> simp at hl <;> subst hl <;> rfl
      exact hpair.append ih
    · next hc =>
      have hslash : c ≠ '\\' := ne_of_escapeLetter?_eq_none hc rfl
      have hplain : EndsEvenly [c] := by simp [EndsEvenly, hslash]
      exact hplain.append ih

theorem decode_encode (text : List Char) : Quoted.decode (Quoted.encode text) = text := by
  rw [Quoted.encode, Quoted.decode, Quoted.dropOpening, (endsEvenly_escape text).dropClosing,
    Quoted.unescape_escape]

end Writing

end AgentScript
