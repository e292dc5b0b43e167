import AgentScript.Proofs.Reading.OwnRounds
import AgentScript.Proofs.Reading.RoundStates
import AgentScript.Proofs.Writing.Numbers

/-!
# The texts of number tokens

A number token is only read where a digit stands, or a minus sign before one, and it takes the
longest number literal that the text begins with. So its text denotes a decimal, however long its
digits and its exponent are, and never one of the words for infinity or for no number.
-/
namespace AgentScript

open CharClass Lexeme Writing

/-- The literal is the longest one that the text begins with. -/
structure Writing.NumberLiteral.IsLongest (n : NumberLiteral) (text : List Char) : Prop where
  begins : n.text <+: text
  longest : ∀ m : NumberLiteral, m.text <+: text → m.text.length ≤ n.text.length

namespace Lexeme

variable {text : List Char}

theorem exists_signText (text : List Char) :
    ∃ negative : Bool, text.take (minusLength text) = if negative then ['-'] else [] := by
  unfold minusLength
  split
  · exact ⟨true, rfl⟩
  · exact ⟨false, rfl⟩

/-- The digits that a text begins with, if it begins with one. -/
theorem exists_digits (h : digitsLength text ≠ 0) :
    ∃ d : Digits, text.take (digitsLength text) = d.text := by
  refine ⟨⟨text.takeWhile isDigit, ?_, List.all_takeWhile⟩, take_spanLength _ _⟩
  simpa [digitsLength, spanLength] using h

theorem digitsLength_ne_zero (h : text.head?.any isDigit = true) : digitsLength text ≠ 0 := by
  cases text with
  | nil => exact nomatch h
  | cons c rest =>
    have hc : isDigit c = true := h
    simp [digitsLength, spanLength, hc]

theorem exists_fraction (text : List Char) :
    ∃ f : Option Digits, text.take (fractionLength text) = f.elim [] fun d => '.' :: d.text := by
  unfold fractionLength
  split
  · next rest =>
    split_ifs with hnone
    · exact ⟨none, rfl⟩
    · obtain ⟨d, hd⟩ := exists_digits hnone
      refine ⟨some d, ?_⟩
      rw [Nat.add_comm, List.take_succ_cons, hd]
      rfl
  · exact ⟨none, rfl⟩

theorem exists_exponentSign (text : List Char) :
    ∃ sign : Option Bool, text.take (exponentSignLength text) =
      sign.elim [] fun minus => [if minus then '-' else '+'] := by
  unfold exponentSignLength
  split
  · exact ⟨some false, rfl⟩
  · exact ⟨some true, rfl⟩
  · exact ⟨none, rfl⟩

/-- What follows an exponent mark, if digits do. -/
theorem exists_exponentDigits (isUppercase : Bool)
    (h : digitsLength (text.drop (exponentSignLength text)) ≠ 0) :
    ∃ e : Exponent, e.isUppercase = isUppercase ∧
      text.take (exponentSignLength text + digitsLength (text.drop (exponentSignLength text))) =
        e.signText ++ e.digits.text := by
  obtain ⟨sign, hsign⟩ := exists_exponentSign text
  obtain ⟨d, hd⟩ := exists_digits h
  refine ⟨⟨isUppercase, sign, d⟩, rfl, ?_⟩
  rw [List.take_add, hsign, hd]
  rfl

theorem exists_exponent (text : List Char) :
    ∃ e : Option Exponent, text.take (exponentLength text) = e.elim [] Exponent.text := by
  have hmark {c : Char} (isUppercase : Bool) (hc : (if isUppercase then 'E' else 'e') = c)
      (rest : List Char) : ∃ e : Option Exponent, (c :: rest).take
        (if digitsLength (rest.drop (exponentSignLength rest)) = 0 then 0
          else 1 + exponentSignLength rest + digitsLength (rest.drop (exponentSignLength rest))) =
        e.elim [] Exponent.text := by
    split_ifs with hnone
    · exact ⟨none, rfl⟩
    · obtain ⟨e, hcase, htext⟩ := exists_exponentDigits isUppercase hnone
      refine ⟨some e, ?_⟩
      rw [Nat.add_assoc, Nat.add_comm, List.take_succ_cons, htext, ← hc, ← hcase]
      rfl
  unfold exponentLength
  split
  · exact hmark false rfl _
  · exact hmark true rfl _
  · exact ⟨none, rfl⟩

/-- A number takes the literal that the text begins with. -/
theorem exists_literal (h : StartsNumber text) :
    ∃ n : NumberLiteral, text.take (numberLength text) = n.text := by
  obtain ⟨negative, hsign⟩ := exists_signText text
  obtain ⟨whole, hwhole⟩ := exists_digits (digitsLength_ne_zero h)
  unfold numberLength
  dsimp only
  generalize hdigits : text.drop (minusLength text) = digits at *
  obtain ⟨fraction, hfraction⟩ := exists_fraction
    (text.drop (minusLength text + digitsLength digits))
  obtain ⟨exponent, hexponent⟩ := exists_exponent (text.drop (minusLength text +
    digitsLength digits + fractionLength (text.drop (minusLength text + digitsLength digits))))
  refine ⟨⟨negative, whole, fraction, exponent⟩, ?_⟩
  rw [List.take_add, List.take_add, List.take_add, hsign, hdigits, hwhole, hfraction, hexponent,
    List.append_assoc, List.append_assoc]
  rfl

/-- It is the longest of the literals that the text begins with. -/
theorem exists_longestLiteral (h : StartsNumber text) :
    ∃ n : NumberLiteral, text.take (numberLength text) = n.text ∧ n.IsLongest text := by
  obtain ⟨n, hn⟩ := exists_literal h
  refine ⟨n, hn, hn ▸ List.take_prefix _ _, ?_⟩
  rintro m ⟨rest, hm⟩
  have hle := m.length_le_numberLength rest
  have hlength : m.text.length ≤ text.length := by simp [← hm]
  rw [hm] at hle
  rw [← hn, List.length_take]
  omega

end Lexeme

/-- If the token is a number, its text is the longest number literal that the source begins with
where the token does. -/
def Token.LongestLiteral (text : List Char) (t : Token) : Prop :=
  t.kind = .number → ∃ n : NumberLiteral, t.text = String.ofList n.text ∧
    n.IsLongest (text.drop t.start.offset)

/-- If the token is a number, its text is a number literal. -/
def Token.Literal (t : Token) : Prop :=
  t.kind = .number → ∃ n : NumberLiteral, t.text = String.ofList n.text

namespace Reading

/-- The text of every number token of a text is the longest number literal there. -/
theorem longestLiteral_transcribe (text : List Char) :
    ∀ t ∈ (transcribe text).tokens.toList, t.LongestLiteral text := by
  refine forall_tokens_of_kind (by decide) fun {n r} h hmem t ht => ?_
  obtain ⟨hstarts, hpieces⟩ := (Round.origin_next h.outsideTags _).of_number_mem hmem
  rw [hpieces] at ht
  obtain ⟨literal, htext, hlongest⟩ := exists_longestLiteral hstarts
  rw [List.mem_singleton.mp ht]
  refine ⟨literal, by rw [htext], ?_⟩
  rw [← h.follows.along.rest_eq_drop]
  exact hlongest

/-- So it is a number literal. -/
theorem literal_transcribe (text : List Char) :
    ∀ t ∈ (transcribe text).tokens.toList, t.Literal := by
  intro t ht hk
  obtain ⟨literal, htext, -⟩ := longestLiteral_transcribe text t ht hk
  exact ⟨literal, htext⟩

end Reading

end AgentScript
