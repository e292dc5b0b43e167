import AgentScript.Proofs.Serial.Readers
import AgentScript.Proofs.Writing.Words
import Mathlib.Data.List.TakeWhile

/-!
# Texts without items or fields

What is printed for a string, a number or a constant is read as that value. Strings come back
whatever characters they hold, since every control character has an escape. A number ends
where its last character does, so nothing that may go on with it may follow.
-/
namespace AgentScript.Json

open CharClass Reader

attribute [local simp] value

theorem skipSpace_cons {c : Char} {rest : List Char} (h : isSpace c = false) :
    skipSpace (c :: rest) = c :: rest := by
  simp [skipSpace, h]

theorem skipSpace_space (rest : List Char) : skipSpace (' ' :: rest) = skipSpace rest := rfl

theorem skipSpace_replicate (n : Nat) (rest : List Char) :
    skipSpace (List.replicate n ' ' ++ rest) = skipSpace rest := by
  induction n with
  | zero => rfl
  | succ n ih => simpa [skipSpace, List.replicate_succ, isSpace] using ih

theorem Printer.toList_breakAt (depth : Nat) :
    (Printer.breakAt depth).toList = '\n' :: List.replicate (2 * depth) ' ' := by
  have spaces (n : Nat) : ("".pushn ' ' n).toList = List.replicate n ' ' := by
    rw [String.pushn_eq_repeat_push]
    induction n with
    | zero => rfl
    | succ n ih => rw [Nat.repeat, String.toList_push, ih, List.replicate_succ']
  simp [Printer.breakAt, String.toList_append, spaces]

theorem toList_breakAt_append (depth : Nat) (rest : List Char) :
    (Printer.breakAt depth).toList ++ rest = '\n' :: (List.replicate (2 * depth) ' ' ++ rest) := by
  rw [Printer.toList_breakAt, List.cons_append]

@[simp]
theorem skipSpace_breakAt (depth : Nat) (rest : List Char) :
    skipSpace ((Printer.breakAt depth).toList ++ rest) = skipSpace rest := by
  rw [toList_breakAt_append]
  exact skipSpace_replicate (2 * depth) rest

theorem hexUnit?_hexDigit {n : Nat} (h : n < 32) :
    hexUnit? '0' '0' (Printer.hexDigit (n / 16)) (Printer.hexDigit (n % 16)) = some n := by
  revert n
  decide

theorem stringTail_escapeChar (c : Char) (read rest : List Char) :
    stringTail read (Printer.escapeChar c ++ rest) = stringTail (c :: read) rest := by
  unfold Printer.escapeChar
  split
  any_goals rfl
  · split
    · next control =>
      have noSurrogate : isHighSurrogate c.toNat = false ∧ isLowSurrogate c.toNat = false := by
        simp [isHighSurrogate, isLowSurrogate]
        omega
      simp only [List.cons_append, List.nil_append]
      rw [stringTail, hexUnit?_hexDigit control]
      simp [noSurrogate, Char.ofNat_toNat]
    · next plain =>
      rw [List.singleton_append, stringTail]
      · simp [plain]
      all_goals simp_all

theorem stringTail_escaped (text read rest : List Char) :
    stringTail read (text.flatMap Printer.escapeChar ++ '"' :: rest) =
      some (String.ofList (read.reverse ++ text), rest) := by
  induction text generalizing read with
  | nil => simp [stringTail]
  | cons c text ih =>
    rw [List.flatMap_cons, List.append_assoc, stringTail_escapeChar, ih]
    simp

theorem toList_quoted_append (s : String) (rest : List Char) :
    (Printer.quoted s).toList ++ rest =
      '"' :: (s.toList.flatMap Printer.escapeChar ++ '"' :: rest) := by
  simp [Printer.quoted]

theorem skipSpace_quoted (s : String) (rest : List Char) :
    skipSpace ((Printer.quoted s).toList ++ rest) = (Printer.quoted s).toList ++ rest := by
  rw [toList_quoted_append]
  exact skipSpace_cons rfl

theorem value_quoted {room n : Nat} (s : String) (rest : List Char) :
    value room (n + 1) ((Printer.quoted s).toList ++ rest) = some (str s, rest) := by
  simp [toList_quoted_append, skipSpace, isSpace, stringTail_escaped]

/-- A number ends where no character of a number follows. -/
abbrev EndsNumber (text : List Char) : Prop := text.head?.all (fun c => !isNumberChar c) = true

/-- A text of characters of a number is read as a number or not at all. -/
theorem value_numberChars {room n : Nat} {c : Char} {tail rest : List Char}
    (chars : (c :: tail).all isNumberChar = true) (ends : EndsNumber rest) :
    value room (n + 1) (c :: tail ++ rest) =
      if isDigit c || c == '-' then (number? (c :: tail)).map (·, rest) else none := by
  have digits : (c :: (tail ++ rest)).takeWhile isNumberChar = c :: tail :=
    Writing.takeWhile_append chars ends
  have first : isNumberChar c = true := List.all_eq_true.mp chars c (by simp)
  have noSpace : isSpace c = false := by
    rw [Bool.eq_false_iff]
    intro space
    simp only [isSpace, Bool.or_eq_true, beq_iff_eq] at space
    rcases space with ((rfl | rfl) | rfl) | rfl <;> simp [isNumberChar, isDigit] at first
  rw [value, List.cons_append, skipSpace_cons noSpace]
  split
  case h_7 same =>
    obtain ⟨rfl, rfl⟩ := List.cons.inj same
    simp only [digits]
    simp
  all_goals simp_all [isNumberChar, isDigit]

theorem digitsValue_toDigits (n : Nat) : Decimal.digitsValue (Nat.toDigits 10 n) = n :=
  Nat.ofDigitChars_ten_toDigits

theorem all_isDigit_toDigits (n : Nat) : (Nat.toDigits 10 n).all isDigit = true :=
  List.all_eq_true.mpr fun _ mem => Nat.isDigit_of_mem_toDigits (by decide) (by decide) mem

theorem all_isNumberChar {digits : List Char} (h : digits.all isDigit = true) :
    digits.all isNumberChar = true := by
  simp only [List.all_eq_true] at h ⊢
  intro c mem
  simp [isNumberChar, h c mem]

theorem number?_toDigits {n : Nat} (fits : n < unsignedLimit) :
    number? (Nat.toDigits 10 n) = some (int n) := by
  have digits := all_isDigit_toDigits n
  have whole : (Nat.toDigits 10 n).takeWhile isDigit = Nat.toDigits 10 n :=
    List.takeWhile_eq_self_iff.mpr (List.all_eq_true.mp digits)
  have sign : NumberText.splitSign (Nat.toDigits 10 n) = (false, Nat.toDigits 10 n) := by
    unfold NumberText.splitSign
    split <;> simp_all [isDigit]
  simp [number?, sign, whole, Nat.toDigits_ne_nil, digitsValue_toDigits, fits]

theorem number?_minus_toDigits {n : Nat} (pos : 0 < n) (fits : n ≤ signedLimit) :
    number? ('-' :: Nat.toDigits 10 n) = some (int (-n)) := by
  have whole : (Nat.toDigits 10 n).takeWhile isDigit = Nat.toDigits 10 n :=
    List.takeWhile_eq_self_iff.mpr (List.all_eq_true.mp (all_isDigit_toDigits n))
  simp [number?, NumberText.splitSign, whole, Nat.toDigits_ne_nil, digitsValue_toDigits, pos, fits]

theorem value_int {room n : Nat} {i : Int} {rest : List Char} (low : -signedLimit ≤ i)
    (high : i < unsignedLimit) (ends : EndsNumber rest) :
    value room (n + 1) ((toString i).toList ++ rest) = some (int i, rest) := by
  rw [Int.toString_eq_repr, Int.repr_eq_if]
  split
  · have same : (i.toNat : Int) = i := by omega
    have read := number?_toDigits (n := i.toNat) (by omega)
    rw [same] at read
    have digits := all_isDigit_toDigits i.toNat
    rw [Nat.toList_repr]
    cases text : Nat.toDigits 10 i.toNat with
    | nil => exact absurd text Nat.toDigits_ne_nil
    | cons c tail =>
      rw [text] at digits read
      have first : isDigit c = true := List.all_eq_true.mp digits c (by simp)
      rw [value_numberChars (all_isNumberChar digits) ends]
      simp [first, read]
  · have same : -((-i).toNat : Int) = i := by omega
    have read := number?_minus_toDigits (n := (-i).toNat) (by omega) (by omega)
    rw [same] at read
    have chars : ('-' :: Nat.toDigits 10 (-i).toNat).all isNumberChar = true := by
      simpa [isNumberChar] using all_isNumberChar (all_isDigit_toDigits (-i).toNat)
    rw [String.toList_append, Nat.toList_repr]
    change value room (n + 1) ('-' :: Nat.toDigits 10 (-i).toNat ++ rest) = _
    rw [value_numberChars chars ends]
    simp [read]

theorem all_isNumberChar_positional {digits : List Char} (h : digits.all isNumberChar = true)
    (exponent : Int) : (NumberStyle.positional digits exponent).toList.all isNumberChar = true := by
  have zeros (n : Nat) : ∀ c ∈ List.replicate n '0', isNumberChar c = true := by
    simp [isNumberChar, isDigit]
  simp only [List.all_eq_true] at *
  unfold NumberStyle.positional
  split
  · simp only [String.toList_append, String.toList_ofList, List.forall_mem_append]
    exact ⟨⟨h, zeros _⟩, by simp [isNumberChar, isDigit]⟩
  · dsimp only
    split
    · simp only [String.toList_ofList, List.forall_mem_append, List.forall_mem_cons]
      exact ⟨fun c mem => h c (List.mem_of_mem_take mem), by decide,
        fun c mem => h c (List.mem_of_mem_drop mem)⟩
    · simp only [String.toList_append, String.toList_ofList, List.forall_mem_append]
      exact ⟨by simp [isNumberChar, isDigit], zeros _, h⟩

theorem all_isNumberChar_scientific {digits : List Char} (h : digits.all isNumberChar = true)
    (leading : Int) :
    (NumberStyle.json.scientific digits leading).toList.all isNumberChar = true := by
  have natural (n : Nat) : ∀ c ∈ (toString n).toList, isNumberChar c = true := by
    rw [Nat.toString_eq_ofList_toDigits, String.toList_ofList]
    exact List.all_eq_true.mp (all_isNumberChar (all_isDigit_toDigits n))
  simp only [List.all_eq_true] at *
  simp only [NumberStyle.scientific, String.toList_append, List.forall_mem_append]
  refine ⟨⟨⟨?_, by simp [NumberStyle.json, isNumberChar]⟩, ?_⟩, natural _⟩
  · split
    · simp only [String.toList_ofList, List.forall_mem_cons] at h ⊢
      exact ⟨h.1, by decide, h.2⟩
    · simpa only [String.toList_ofList] using h
  · split <;> simp [NumberStyle.json, isNumberChar]

theorem all_isNumberChar_text (x : Float) :
    (NumberStyle.json.text x).toList.all isNumberChar = true := by
  have digits (n : Nat) := all_isNumberChar (all_isDigit_toDigits n)
  simp only [NumberStyle.text, NumberStyle.magnitude, String.toList_append, List.all_append,
    Bool.and_eq_true]
  constructor
  · split <;> simp [isNumberChar]
  · split
    · simp [NumberStyle.json, isNumberChar, isDigit]
    · split
      · exact all_isNumberChar_positional (digits _) _
      · exact all_isNumberChar_scientific (digits _) _

theorem Survives.value_float {x : Float} (h : Survives read? x) (finite : x.isFinite = true)
    {room n : Nat} {rest : List Char} (ends : EndsNumber rest) :
    value room (n + 1) ((Printer.float x).toList ++ rest) = some (.float x, rest) := by
  have h := h finite
  have text : compact (.float x) = Printer.float x := rfl
  simp only [text, read?] at h
  have chars : (Printer.float x).toList.all isNumberChar = true := by
    rw [Printer.float, if_pos finite]
    exact all_isNumberChar_text x
  generalize (Printer.float x).toList = number at h chars ⊢
  cases number with
  | nil => simp [skipSpace] at h
  | cons c tail =>
    have alone (r m : Nat) := @value_numberChars r m c tail [] chars rfl
    simp only [List.append_nil] at alone
    rw [alone] at h
    rw [value_numberChars chars ends]
    by_cases start : (isDigit c || c == '-') = true
    · rw [if_pos start] at h ⊢
      cases read : number? (c :: tail) with
      | none => simp [read] at h
      | some v => simpa [read, skipSpace] using h
    · rw [if_neg start] at h
      cases h

end AgentScript.Json
