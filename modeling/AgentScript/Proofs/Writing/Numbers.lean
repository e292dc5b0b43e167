import AgentScript.Decimal.Reading
import AgentScript.Proofs.Writing.Marks

/-!
# Numbers as they are written

A number literal is digits with an optional minus sign before them, an optional fraction and
an optional exponent. It is read as one token where neither a word nor a point follows it,
and it always denotes a double.
-/
namespace AgentScript

open CharClass Lexeme

namespace Writing

/-- A digit or more. -/
structure Digits where
  text : List Char
  ne_nil : text ≠ []
  areDigits : text.all isDigit = true

structure Exponent where
  isUppercase : Bool
  /-- Whether the sign is a minus, if there is a sign. -/
  sign : Option Bool
  digits : Digits

structure NumberLiteral where
  isNegative : Bool
  whole : Digits
  fraction : Option Digits
  exponent : Option Exponent

def Exponent.mark (e : Exponent) : Char := if e.isUppercase then 'E' else 'e'

def Exponent.signText (e : Exponent) : List Char :=
  e.sign.elim [] fun minus => [if minus then '-' else '+']

def Exponent.text (e : Exponent) : List Char := e.mark :: (e.signText ++ e.digits.text)

namespace NumberLiteral

def signText (n : NumberLiteral) : List Char := if n.isNegative then ['-'] else []

def fractionText (n : NumberLiteral) : List Char := n.fraction.elim [] fun d => '.' :: d.text

def exponentText (n : NumberLiteral) : List Char := n.exponent.elim [] Exponent.text

def text (n : NumberLiteral) : List Char :=
  n.signText ++ (n.whole.text ++ (n.fractionText ++ n.exponentText))

end NumberLiteral

/-- No digits go on into the text. -/
abbrev EndsDigits (text : List Char) : Prop := text.head?.all (fun c => !isDigit c) = true

/-- Digits begin with a digit, which is no sign. -/
theorem Digits.exists_cons (d : Digits) :
    ∃ c rest, d.text = c :: rest ∧ isDigit c = true ∧ c ≠ '-' ∧ c ≠ '+' := by
  cases htext : d.text with
  | nil => exact absurd htext d.ne_nil
  | cons c rest =>
    have hall := d.areDigits
    rw [htext, List.all_cons, Bool.and_eq_true] at hall
    have hword := isWordChar_of_isDigit hall.1
    exact ⟨c, rest, rfl, hall.1, ne_of_isWordChar hword rfl, ne_of_isWordChar hword rfl⟩

theorem Digits.length_ne_zero (d : Digits) : d.text.length ≠ 0 := by
  simpa using d.ne_nil

theorem takeWhile_digits (d : Digits) {rest : List Char} (h : EndsDigits rest) :
    (d.text ++ rest).takeWhile isDigit = d.text := takeWhile_append d.areDigits h

theorem dropWhile_digits (d : Digits) {rest : List Char} (h : EndsDigits rest) :
    (d.text ++ rest).dropWhile isDigit = rest := by
  have happend := List.takeWhile_append_dropWhile (p := isDigit) (l := d.text ++ rest)
  rw [takeWhile_digits d h] at happend
  exact List.append_cancel_left happend

theorem digitsLength_append (d : Digits) {rest : List Char} (h : EndsDigits rest) :
    digitsLength (d.text ++ rest) = d.text.length := by
  rw [digitsLength, spanLength, takeWhile_digits d h]

theorem digitsLength_text (d : Digits) (rest : List Char) :
    digitsLength (d.text ++ rest) = d.text.length + digitsLength rest := by
  have hall : ∀ c ∈ d.text, isDigit c = true := List.all_eq_true.mp d.areDigits
  unfold digitsLength spanLength
  rw [List.takeWhile_append_of_pos hall, List.length_append]

theorem Exponent.mark_eq (e : Exponent) : e.mark = 'e' ∨ e.mark = 'E' := by
  unfold mark
  cases e.isUppercase <;> simp

/-- Neither a word nor a point goes on into the text. -/
structure EndsNumber (text : List Char) : Prop where
  noWord : EndsWord text
  noPoint : text.head? ≠ some '.'

theorem EndsNumber.endsDigits {text : List Char} (h : EndsNumber text) : EndsDigits text := by
  cases text with
  | nil => rfl
  | cons c rest =>
    have hword : endsWord (c :: rest) = true := h.noWord
    have hdigit : isDigit c = false := by
      rw [Bool.eq_false_iff]
      intro hdigit
      simp [endsWord, isWordChar_of_isDigit hdigit] at hword
    change (!isDigit c) = true
    rw [hdigit]
    rfl

namespace NumberLiteral

variable (n : NumberLiteral) {rest : List Char}

theorem minusLength_append :
    minusLength (n.signText ++ (n.whole.text ++ rest)) = n.signText.length := by
  obtain ⟨c, digits, hdigits, -, hminus, -⟩ := n.whole.exists_cons
  cases hn : n.isNegative with
  | true => simp [signText, hn, minusLength]
  | false => simp [signText, hn, minusLength, hdigits, hminus]

/-- An exponent goes on with neither digits nor a point. -/
theorem ends_exponent (e : Exponent) (rest : List Char) :
    EndsDigits (e.text ++ rest) ∧ (e.text ++ rest).head? ≠ some '.' := by
  obtain ⟨isUppercase, sign, digits⟩ := e
  cases isUppercase <;> exact ⟨rfl, by simp [Exponent.text, Exponent.mark]⟩

/-- What follows the fraction goes on with neither digits nor a point. -/
theorem ends_exponentText (h : EndsNumber rest) :
    EndsDigits (n.exponentText ++ rest) ∧ (n.exponentText ++ rest).head? ≠ some '.' := by
  unfold exponentText
  cases n.exponent with
  | none => exact ⟨h.endsDigits, h.noPoint⟩
  | some e => exact ends_exponent e rest

theorem endsDigits_fractionText (h : EndsNumber rest) :
    EndsDigits (n.fractionText ++ (n.exponentText ++ rest)) := by
  unfold fractionText
  cases n.fraction with
  | none => exact (n.ends_exponentText h).1
  | some d => rfl

theorem fractionLength_text {following : List Char} (hdigits : EndsDigits following)
    (hpoint : following.head? ≠ some '.') :
    fractionLength (n.fractionText ++ following) = n.fractionText.length := by
  unfold fractionText
  cases n.fraction with
  | none =>
    change fractionLength following = 0
    unfold fractionLength
    split
    · exact absurd rfl hpoint
    · rfl
  | some d =>
    change fractionLength ('.' :: (d.text ++ following)) = d.text.length + 1
    rw [fractionLength, digitsLength_append d hdigits, if_neg d.length_ne_zero, Nat.add_comm]

theorem fractionLength_append (h : EndsNumber rest) :
    fractionLength (n.fractionText ++ (n.exponentText ++ rest)) = n.fractionText.length :=
  n.fractionLength_text (n.ends_exponentText h).1 (n.ends_exponentText h).2

theorem exponentSignLength_append (e : Exponent) :
    exponentSignLength (e.signText ++ (e.digits.text ++ rest)) = e.signText.length := by
  obtain ⟨c, digits, hdigits, -, hminus, hplus⟩ := e.digits.exists_cons
  cases hsign : e.sign with
  | some minus => cases minus <;> simp [Exponent.signText, exponentSignLength, hsign]
  | none => simp [Exponent.signText, exponentSignLength, hsign, hdigits, hminus, hplus]

theorem exponentLength_text (e : Exponent) (rest : List Char) :
    exponentLength (e.text ++ rest) =
      1 + e.signText.length + digitsLength (e.digits.text ++ rest) := by
  have hpos := e.digits.length_ne_zero
  have hsign : exponentSignLength (e.signText ++ (e.digits.text ++ rest)) = e.signText.length :=
    exponentSignLength_append e
  change exponentLength (e.mark :: (e.signText ++ e.digits.text ++ rest)) = _
  rw [List.append_assoc]
  rcases e.mark_eq with hmark | hmark <;>
    rw [hmark, exponentLength, hsign, List.drop_left, digitsLength_text, if_neg (by omega)]

theorem exponentLength_append (h : EndsNumber rest) :
    exponentLength (n.exponentText ++ rest) = n.exponentText.length := by
  unfold exponentText
  cases n.exponent with
  | none =>
    change exponentLength rest = 0
    have hword := h.noWord
    unfold exponentLength
    split
    · exact nomatch hword
    · exact nomatch hword
    · rfl
  | some e =>
    change exponentLength (e.text ++ rest) = (e.mark :: (e.signText ++ e.digits.text)).length
    rw [exponentLength_text, digitsLength_append _ h.endsDigits, List.length_cons,
      List.length_append]
    omega

theorem drop_behind_whole (following : List Char) (k : Nat) :
    (n.signText ++ (n.whole.text ++ following)).drop
      (n.signText.length + n.whole.text.length + k) = following.drop k := by
  rw [Nat.add_assoc, List.drop_length_add_append, List.drop_length_add_append]

theorem numberLength_append (h : EndsNumber rest) :
    numberLength (n.text ++ rest) = n.text.length := by
  have htext : n.text ++ rest =
      n.signText ++ (n.whole.text ++ (n.fractionText ++ (n.exponentText ++ rest))) := by
    simp [text]
  have hwhole := digitsLength_append n.whole (n.endsDigits_fractionText h)
  rw [htext, numberLength, n.minusLength_append, List.drop_left, hwhole,
    List.drop_length_add_append, List.drop_left, n.fractionLength_append h, n.drop_behind_whole,
    List.drop_left, n.exponentLength_append h]
  simp [text, Nat.add_assoc]

/-! What follows a literal can go on with its last part, so that more is read, never less. -/

theorem fractionText_length_le (rest : List Char) :
    n.fractionText.length ≤ fractionLength (n.fractionText ++ rest) := by
  unfold fractionText
  cases n.fraction with
  | none => exact Nat.zero_le _
  | some d =>
    have hpos := d.length_ne_zero
    change d.text.length + 1 ≤ fractionLength ('.' :: (d.text ++ rest))
    rw [fractionLength, digitsLength_text, if_neg (by omega)]
    omega

theorem fractionText_exponentText_length_le (rest : List Char) :
    n.fractionText.length + n.exponentText.length ≤
      fractionLength (n.fractionText ++ (n.exponentText ++ rest)) +
        exponentLength ((n.fractionText ++ (n.exponentText ++ rest)).drop
          (fractionLength (n.fractionText ++ (n.exponentText ++ rest)))) := by
  unfold exponentText
  cases n.exponent with
  | none => exact Nat.le_add_right_of_le (n.fractionText_length_le rest)
  | some e =>
    change n.fractionText.length + e.text.length ≤
      fractionLength (n.fractionText ++ (e.text ++ rest)) +
        exponentLength ((n.fractionText ++ (e.text ++ rest)).drop
          (fractionLength (n.fractionText ++ (e.text ++ rest))))
    obtain ⟨hdigits, hpoint⟩ := ends_exponent e rest
    rw [n.fractionLength_text hdigits hpoint, List.drop_left, exponentLength_text,
      digitsLength_text, Exponent.text, List.length_cons, List.length_append]
    omega

/-- Digits that go on behind those before the point are only there if these are all. -/
theorem endsDigits_or_whole (rest : List Char) :
    EndsDigits (n.fractionText ++ (n.exponentText ++ rest)) ∨
      n.fractionText = [] ∧ n.exponentText = [] := by
  unfold fractionText exponentText
  cases n.fraction with
  | some d => exact .inl rfl
  | none =>
    cases n.exponent with
    | some e => exact .inl (ends_exponent e rest).1
    | none => exact .inr ⟨rfl, rfl⟩

/-- A number takes at least any literal that the text begins with. -/
theorem length_le_numberLength (rest : List Char) :
    n.text.length ≤ numberLength (n.text ++ rest) := by
  have htext : n.text ++ rest =
      n.signText ++ (n.whole.text ++ (n.fractionText ++ (n.exponentText ++ rest))) := by
    simp [text]
  have hlength : n.text.length = n.signText.length + n.whole.text.length +
      (n.fractionText.length + n.exponentText.length) := by
    simp [text, Nat.add_assoc]
  rw [htext, hlength, numberLength, n.minusLength_append, List.drop_left]
  rcases n.endsDigits_or_whole rest with hends | ⟨hfraction, hexponent⟩
  · have hparts := n.fractionText_exponentText_length_le rest
    rw [digitsLength_append n.whole hends, List.drop_length_add_append, List.drop_left,
      n.drop_behind_whole]
    omega
  · rw [hfraction, hexponent, List.length_nil, digitsLength_text]
    omega

end NumberLiteral

open NumberText

theorem splitSign_exponent (e : Exponent) :
    splitSign (e.signText ++ e.digits.text) = (e.sign.getD false, e.digits.text) := by
  obtain ⟨c, digits, hdigits, -, hminus, hplus⟩ := e.digits.exists_cons
  cases hsign : e.sign with
  | some minus => cases minus <;> simp [Exponent.signText, splitSign, hsign]
  | none => simp [Exponent.signText, splitSign, hsign, hdigits, hminus, hplus]

theorem splitSign_text (n : NumberLiteral) :
    splitSign n.text = (n.isNegative, n.whole.text ++ (n.fractionText ++ n.exponentText)) := by
  obtain ⟨c, digits, hdigits, -, hminus, hplus⟩ := n.whole.exists_cons
  cases hn : n.isNegative with
  | true => simp [NumberLiteral.text, NumberLiteral.signText, hn, splitSign]
  | false =>
    simp [NumberLiteral.text, NumberLiteral.signText, hn, hdigits, splitSign, hminus, hplus]

namespace Exponent

def value (e : Exponent) : Int :=
  if e.sign.getD false then -(Decimal.digitsValue e.digits.text : Int)
  else Decimal.digitsValue e.digits.text

end Exponent

namespace NumberLiteral

def fractionDigits (n : NumberLiteral) : List Char := n.fraction.elim [] Digits.text

/-- The decimal that a literal denotes. -/
def decimal (n : NumberLiteral) : Decimal :=
  ⟨n.isNegative, Decimal.digitsValue (n.whole.text ++ n.fractionDigits),
    n.exponent.elim 0 Exponent.value - n.fractionDigits.length⟩

end NumberLiteral

theorem exponent?_text (n : NumberLiteral) :
    exponent? n.exponentText = some (n.exponent.elim 0 Exponent.value) := by
  unfold NumberLiteral.exponentText
  cases n.exponent with
  | none => rfl
  | some e =>
    change exponent? (e.mark :: (e.signText ++ e.digits.text)) = some e.value
    rw [exponent?, splitSign_exponent]
    have hdigits : e.digits.text.isEmpty = false := by simpa using e.digits.ne_nil
    rcases e.mark_eq with hmark | hmark <;>
      simp [hmark, hdigits, e.digits.areDigits, Exponent.value]

theorem splitFraction_text (n : NumberLiteral) :
    splitFraction (n.fractionText ++ n.exponentText) = (n.fractionDigits, n.exponentText) := by
  have hends : EndsNumber [] := ⟨rfl, by simp⟩
  obtain ⟨hdigits, hpoint⟩ : EndsDigits n.exponentText ∧ n.exponentText.head? ≠ some '.' := by
    simpa using n.ends_exponentText hends
  unfold NumberLiteral.fractionText NumberLiteral.fractionDigits
  cases n.fraction with
  | none =>
    change splitFraction n.exponentText = _
    unfold splitFraction
    split
    · next heq => exact absurd (by rw [heq]; rfl) hpoint
    · rfl
  | some d =>
    change splitFraction ('.' :: (d.text ++ n.exponentText)) = _
    rw [splitFraction, takeWhile_digits d hdigits, dropWhile_digits d hdigits]
    rfl

theorem unsigned?_text (n : NumberLiteral) :
    unsigned? n.isNegative (n.whole.text ++ (n.fractionText ++ n.exponentText)) =
      some n.decimal := by
  have hends : EndsNumber [] := ⟨rfl, by simp⟩
  have hfraction : EndsDigits (n.fractionText ++ n.exponentText) := by
    simpa using n.endsDigits_fractionText hends
  have hwhole : n.whole.text.isEmpty = false := by simpa using n.whole.ne_nil
  rw [unsigned?, takeWhile_digits _ hfraction, dropWhile_digits _ hfraction, splitFraction_text]
  simp [hwhole, exponent?_text, NumberLiteral.decimal]

/-- Every number literal denotes a decimal. -/
theorem ofText?_text (n : NumberLiteral) : ofText? n.text = some (.decimal n.decimal) := by
  rw [ofText?, splitSign_text]
  dsimp only
  rw [unsigned?_text]

/-- And so it denotes a double. -/
theorem NumberLiteral.readFloat?_text (n : NumberLiteral) :
    readFloat? (String.ofList n.text) = some n.decimal.toFloat := by
  rw [readFloat?, String.toList_ofList, ofText?_text]
  rfl

theorem NumberLiteral.readFloat?_isSome (n : NumberLiteral) :
    (readFloat? (String.ofList n.text)).isSome = true := by
  rw [n.readFloat?_text]
  rfl

/-- The double that a literal denotes. -/
def NumberLiteral.value (n : NumberLiteral) : Float :=
  (readFloat? (String.ofList n.text)).get n.readFloat?_isSome

end Writing

open Writing

/-- A dash before a digit is the minus sign of a number. -/
theorem Round.dash_digit {l : Layout} {c : Char} {rest : List Char} (hc : isDigit c = true) :
    dash l ('-' :: c :: rest) = ⟨number ('-' :: c :: rest), l⟩ := by
  have hgt : c ≠ '>' := ne_of_isWordChar (isWordChar_of_isDigit hc) rfl
  unfold dash
  rw [List.tail_cons, List.head?_cons]
  split
  · next heq => exact nomatch heq
  · next heq => exact absurd (Option.some.inj heq) hgt
  · next heq =>
    cases heq
    rw [if_pos hc]

/-- A number is one token. -/
theorem readsAs_number {modes : Mode → Prop} (n : NumberLiteral) :
    WithinLine modes Anything n.text [.spelled (· = .number) (String.ofList n.text)] modes
      EndsNumber := by
  have hnumber : ∀ rest, EndsNumber rest →
      number (n.text ++ rest) = [.token .number n.text.length] := by
    intro rest hrest
    rw [number, n.numberLength_append hrest]
  obtain ⟨c, digits, hdigits, hc, -⟩ := n.whole.exists_cons
  cases hn : n.isNegative with
  | true =>
    have htext : n.text = '-' :: c :: (digits ++ (n.fractionText ++ n.exponentText)) := by
      simp [NumberLiteral.text, NumberLiteral.signText, hn, hdigits]
    rw [htext] at hnumber ⊢
    refine .single (fun l previous p rest _ _ hf => ?_) fun _ _ => ⟨rfl, rfl⟩
    exact (Round.dash_digit hc).trans (congrArg (Round.mk · l) (hnumber rest hf))
  | false =>
    have htext : n.text = c :: (digits ++ (n.fractionText ++ n.exponentText)) := by
      simp [NumberLiteral.text, NumberLiteral.signText, hn, hdigits]
    rw [htext] at hnumber ⊢
    refine .single (fun l previous p rest _ _ hf => ?_) fun _ _ => ⟨rfl, rfl⟩
    rw [Round.within_of_isWordChar (isWordChar_of_isDigit hc), if_pos hc, hnumber rest hf]

end AgentScript
