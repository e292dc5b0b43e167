import AgentScript.Proofs.Reading.OwnRounds
import AgentScript.Proofs.Reading.RoundStates
import AgentScript.Proofs.Writing.Words

/-!
# Strings of a text

The body of a string splits in one way into plain characters and pairs of a backslash and the
character behind it. Reading goes along these units to the closing quote; decoding counts the
backslashes before the last quote. Both find the same quotes, and what is decoded is the value of
each unit.
-/
namespace AgentScript

open CharClass Lexeme Writing

/-- A unit of the body of a string. -/
inductive StringUnit
  | plain (c : Char) (noQuote : c ≠ '"') (noBackslash : c ≠ '\\')
  | pair (c : Char)

namespace StringUnit

/-- The characters that stand for others behind a backslash. -/
def recognized : List (Char × Char) :=
  [('"', '"'), ('\\', '\\'), ('n', '\n'), ('t', '\t'), ('r', '\r')]

def written : StringUnit → List Char
  | plain c _ _ => [c]
  | pair c => ['\\', c]

/-- A recognized pair is one character, any other is kept as it is written. -/
def value : StringUnit → List Char
  | plain c _ _ => [c]
  | pair c => ((recognized.lookup c).map ([·])).getD ['\\', c]

/-- The body that units are written as. -/
def body (units : List StringUnit) : List Char := units.flatMap written

def values (units : List StringUnit) : List Char := units.flatMap value

@[simp] theorem body_cons (u : StringUnit) (units : List StringUnit) :
    body (u :: units) = u.written ++ body units := rfl

@[simp] theorem values_cons (u : StringUnit) (units : List StringUnit) :
    values (u :: units) = u.value ++ values units := rfl

/-- The first unit of a body, which is not empty, is known from its first characters. -/
theorem body_injective : Function.Injective body := by
  intro units
  induction units with
  | nil =>
    intro other h
    cases other with
    | nil => rfl
    | cons u other => cases u <;> exact nomatch h
  | cons u units ih =>
    intro other h
    cases other with
    | nil => cases u <;> exact nomatch h
    | cons v other =>
      cases u with
      | plain c noQuote noBackslash =>
        cases v with
        | plain d =>
          obtain ⟨rfl, hrest⟩ := List.cons.inj h
          rw [ih hrest]
        | pair d => exact absurd (List.cons.inj h).1 noBackslash
      | pair c =>
        cases v with
        | plain d noQuote noBackslash => exact absurd (List.cons.inj h).1.symm noBackslash
        | pair d =>
          obtain ⟨rfl, hrest⟩ := List.cons.inj (List.cons.inj h).2
          rw [ih hrest]

theorem lookup_recognized (c : Char) : recognized.lookup c = Quoted.escapeValue? c := by
  unfold Quoted.escapeValue?
  split
  · rfl
  · rfl
  · rfl
  · rfl
  · rfl
  · exact List.lookup_eq_none_iff.mpr (by simp_all [recognized])

theorem endsEvenly_body (units : List StringUnit) : EndsEvenly (body units) := by
  induction units with
  | nil => rfl
  | cons u units ih =>
    refine EndsEvenly.append ?_ ih
    cases u with
    | plain c noQuote noBackslash => simp [EndsEvenly, written, noBackslash]
    | pair c => by_cases hc : c = '\\' <;> simp [EndsEvenly, written, hc]

theorem unescape_body (units : List StringUnit) : Quoted.unescape (body units) = values units := by
  induction units with
  | nil => rfl
  | cons u units ih =>
    cases u with
    | plain c noQuote noBackslash =>
      rw [body_cons, values_cons, written, value, List.singleton_append,
        List.singleton_append, ← ih,
        Quoted.unescape]
      exact fun _ _ hc _ => noBackslash hc
    | pair c =>
      change Quoted.unescape ('\\' :: c :: body units) = value (.pair c) ++ values units
      rw [value, lookup_recognized, Quoted.unescape, ← ih]
      cases Quoted.escapeValue? c <;> rfl

end StringUnit

open StringUnit

/-- What is read of a string behind its opening quote are units and the closing quote. -/
theorem Lexeme.exists_units {text : List Char} (h : (stringTail text).closed = true) :
    ∃ units, text.take (stringTail text).length = body units ++ ['"'] ∧
      ∀ c ∈ body units, isLineBreak c = false := by
  fun_induction stringTail text with
  | case1 => exact absurd h Bool.false_ne_true
  | case2 c rest hc => exact absurd h Bool.false_ne_true
  | case3 c rest hc ih =>
    obtain ⟨units, htake, hline⟩ := ih h
    refine ⟨.pair c :: units, ?_, ?_⟩
    · simp [Extent.lengthen, htake, written]
    · simpa [written] using ⟨by rfl, by simpa using hc, hline⟩
  | case4 c rest hescape hc => exact absurd h Bool.false_ne_true
  | case5 rest => exact ⟨[], rfl, List.forall_mem_nil _⟩
  | case6 c rest hescape hc hquote ih =>
    have hbackslash : c ≠ '\\' := by
      rintro rfl
      cases rest with
      | nil => exact absurd h Bool.false_ne_true
      | cons d rest => exact hescape d rest rfl rfl
    obtain ⟨units, htake, hline⟩ := ih h
    refine ⟨.plain c hquote hbackslash :: units, ?_, ?_⟩
    · simp [Extent.lengthen, htake, written]
    · simpa [written] using ⟨by simpa using hc, hline⟩

/-- If the token is a string, it is units between quotes, on one line. -/
def Token.Quotes (t : Token) : Prop :=
  t.kind = .string → ∃ units, t.text = String.ofList ('"' :: (body units ++ ['"'])) ∧
    ∀ c ∈ body units, isLineBreak c = false

theorem Reading.quotes_transcribe (text : List Char) :
    ∀ t ∈ (transcribe text).tokens.toList, t.Quotes := by
  refine forall_tokens_of_kind (by decide) fun {n r} h hmem t ht => ?_
  obtain ⟨⟨rest, hrest⟩, hpieces⟩ := (Round.origin_next h.outsideTags _).of_string_mem hmem
  rw [hpieces] at ht
  unfold quotedString at ht
  dsimp only at ht
  split_ifs at ht with hclosed
  · rw [hrest] at ht hclosed
    have htail : (stringTail rest).closed = true := hclosed
    obtain ⟨units, htake, hline⟩ := exists_units htail
    refine ⟨units, ?_, hline⟩
    rw [List.mem_singleton.mp ht]
    simp [stringExtent, Extent.lengthen, hrest, htake]
  · exact absurd ht List.not_mem_nil

/-- The text of every string token of a source is a body between two quotes, on one line. The body
splits in one way into plain characters and pairs of a backslash and a character. Decoding drops
just the two quotes, and gives the value of each unit. -/
theorem strings_decode (source : String) (file : Option String) {t : Token}
    (ht : t ∈ (TokenizedText.ofLabelledSource source file).tokens) (hk : t.kind = .string) :
    ∃ units, t.text.toList = '"' :: (body units ++ ['"']) ∧
      (∀ other, body other = body units → other = units) ∧
      (∀ c ∈ body units, isLineBreak c = false) ∧
      Quoted.dropClosing (Quoted.dropOpening t.text.toList) = body units ∧
      (Quoted.decodeString t.text).toList = values units := by
  obtain ⟨units, htext, hline⟩ := Reading.quotes_transcribe source.toList t ht hk
  have hlist : t.text.toList = '"' :: (body units ++ ['"']) := by
    rw [htext, String.toList_ofList]
  have hdrop : Quoted.dropClosing (Quoted.dropOpening t.text.toList) = body units := by
    rw [hlist, Quoted.dropOpening, (endsEvenly_body units).dropClosing]
  refine ⟨units, hlist, fun other h => body_injective h, hline, hdrop, ?_⟩
  rw [Quoted.decodeString, String.toList_ofList, Quoted.decode, hdrop, unescape_body]

/-- A string that ends with an escaped backslash, behind an escaped quote and a pair that stands for
nothing else. -/
theorem strings_decode_pairs :
    let source := "k: \"\\\"\\q\\\\\"\n"
    let t : Token := ⟨.string, "\"\\\"\\q\\\\\"", ⟨1, 4, 3⟩, ⟨1, 12, 11⟩⟩
    t ∈ (TokenizedText.ofLabelledSource source none).tokens ∧ t.kind = .string ∧
      ∃ units, t.text.toList = '"' :: (body units ++ ['"']) ∧
        (∀ other, body other = body units → other = units) ∧
        (∀ c ∈ body units, isLineBreak c = false) ∧
        Quoted.dropClosing (Quoted.dropOpening t.text.toList) = body units ∧
        (Quoted.decodeString t.text).toList = values units :=
  have hmem : (⟨.string, "\"\\\"\\q\\\\\"", ⟨1, 4, 3⟩, ⟨1, 12, 11⟩⟩ : Token) ∈
      (TokenizedText.ofLabelledSource "k: \"\\\"\\q\\\\\"\n" none).tokens := by decide +kernel
  ⟨hmem, rfl, strings_decode _ none hmem rfl⟩

end AgentScript
