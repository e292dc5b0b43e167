import AgentScript.Token.Kind
import Mathlib.Computability.Language
import Mathlib.Order.CompletePartialOrder

/-!
# The grammar of flows

The body of a flow section as a language over the kinds of tokens. Inline values contain each
other, so they are built by the depth of their nesting; together they are the least language that
is closed under the ways to build a value.
-/

-- Within the project's namespace `Language` is the language of embedded code.
/-- Sequences of kinds of tokens. -/
abbrev KindLanguage : Type := Language AgentScript.TokenKind

namespace AgentScript.FlowGrammar

open Computability

variable {L M V W : KindLanguage} {kinds : List TokenKind} {k : TokenKind}
  {P : TokenKind → Prop} {n depth : Nat}

/-- One token of the kind. -/
def one (k : TokenKind) : KindLanguage := {kinds | kinds = [k]}

/-- One token of a kind with the property. -/
def oneThat (P : TokenKind → Prop) : KindLanguage := {kinds | ∃ k, P k ∧ kinds = [k]}

def atMostOne (L : KindLanguage) : KindLanguage := 1 + L

def atLeastOne (L : KindLanguage) : KindLanguage := L * L∗

/-- Any number of parts with commas between them, and perhaps a comma behind the last one. -/
def commaSeparated (L : KindLanguage) : KindLanguage :=
  atMostOne (L * (one .comma * L)∗ * atMostOne (one .comma))

def bracketed (b : Bracket) (L : KindLanguage) : KindLanguage :=
  one (.opening b) * L * one (.closing b)

/-- Any word, keywords and literal words included. -/
def word : KindLanguage := oneThat (·.isWordlike = true)

def name : KindLanguage := one .properWord + one .commonNoun

def identifier : KindLanguage := name * (one .dot * name)∗

def typeTag : KindLanguage :=
  one .lt * atMostOne (one .typeTagName) * atMostOne (one .typeTagValue) *
    atMostOne (one .pipe * atMostOne (one .typeTagModifier)) * one .gt

def expression : KindLanguage := one .embeddedMarker * atMostOne (one .embeddedCode)

def literal : KindLanguage := oneThat (·.isLiteralWord = true)

/-- An entry of a dictionary with values of a language. -/
def entry (V : KindLanguage) : KindLanguage :=
  (one .string + word) * one .colon * V

/-- The ways to build a value from values of a language. -/
def inlineValueOver (V : KindLanguage) : KindLanguage :=
  one .string + one .number + literal + one .atom + typeTag + expression + identifier +
    bracketed .paren (commaSeparated V) + bracketed .square (commaSeparated V) +
    bracketed .curly (commaSeparated (entry V))

/-- Values nested less than `depth` deep. -/
def inlineValueWithin : Nat → KindLanguage
  | 0 => 0
  | depth + 1 => inlineValueOver (inlineValueWithin depth)

def inlineValue : KindLanguage := ⨆ depth, inlineValueWithin depth

def operand : KindLanguage := one .atom + one .string + word

def parameter : KindLanguage := word * one .colon * inlineValue

def withClause : KindLanguage :=
  one (.keyword .withWord) * parameter * (one .comma * parameter)∗

/-- What a rule or a when clause leads to. -/
def destinations : KindLanguage := atLeastOne (one .arrow * operand)

def whenClause : KindLanguage :=
  one (.keyword .whenWord) * inlineValue * destinations * atMostOne withClause * one .newline

def rule : KindLanguage :=
  operand * destinations * atMostOne withClause * one .newline *
    atMostOne (one .indent * (one .newline + whenClause)∗ * one .dedent)

/-- The body of a flow section. -/
def body : KindLanguage := (one .newline + rule)∗

@[simp] theorem mem_one : kinds ∈ one k ↔ kinds = [k] := Iff.rfl

@[simp] theorem mem_oneThat : kinds ∈ oneThat P ↔ ∃ k, P k ∧ kinds = [k] := Iff.rfl

theorem oneThat_eq (k : TokenKind) : oneThat (· = k) = one k := by
  ext kinds
  simp

theorem oneThat_add (P Q : TokenKind → Prop) :
    oneThat P + oneThat Q = oneThat fun k => P k ∨ Q k := by
  ext kinds
  simp only [Language.mem_add, mem_oneThat, or_and_right, exists_or]

/-- All sentences begin with a token of a kind with the property. -/
def Starts (P : TokenKind → Prop) (L : KindLanguage) : Prop :=
  ∀ kinds ∈ L, ∃ k more, kinds = k :: more ∧ P k

theorem starts_one (h : P k) : Starts P (one k) := by
  rintro _ rfl
  exact ⟨k, [], rfl, h⟩

theorem starts_oneThat {Q : TokenKind → Prop} (h : ∀ k, Q k → P k) : Starts P (oneThat Q) := by
  rintro _ ⟨k, hk, rfl⟩
  exact ⟨k, [], rfl, h k hk⟩

theorem Starts.mul (h : Starts P L) (M : KindLanguage) : Starts P (L * M) := by
  intro kinds hkinds
  obtain ⟨u, hu, v, -, rfl⟩ := Language.mem_mul.mp hkinds
  obtain ⟨k, more, rfl, hk⟩ := h u hu
  exact ⟨k, more ++ v, rfl, hk⟩

theorem Starts.add (h : Starts P L) (h' : Starts P M) : Starts P (L + M) :=
  fun kinds hkinds => hkinds.elim (h kinds) (h' kinds)

theorem Starts.ne_nil (h : Starts P L) (hkinds : kinds ∈ L) : kinds ≠ [] := by
  obtain ⟨k, more, rfl, -⟩ := h kinds hkinds
  exact List.cons_ne_nil _ _

/-- The kinds that a value can begin with. -/
def MayStartValue : TokenKind → Prop
  | .string | .number | .literal _ | .atom | .lt | .embeddedMarker | .properWord | .commonNoun
  | .opening _ => True
  | _ => False

theorem starts_inlineValueOver (V : KindLanguage) : Starts MayStartValue (inlineValueOver V) := by
  have hname : Starts MayStartValue name :=
    (starts_one (by trivial)).add (starts_one (by trivial))
  have hliteral : Starts MayStartValue literal := starts_oneThat fun k hk => by
    cases k <;> trivial
  have htag : Starts MayStartValue typeTag :=
    ((((starts_one (by trivial)).mul _).mul _).mul _).mul _
  have hlist (b : Bracket) (L : KindLanguage) : Starts MayStartValue (bracketed b L) :=
    ((starts_one (by trivial)).mul _).mul _
  exact (((((((((starts_one (by trivial)).add (starts_one (by trivial))).add hliteral).add
    (starts_one (by trivial))).add htag).add ((starts_one (by trivial)).mul _)).add
    (hname.mul _)).add (hlist _ _)).add (hlist _ _)).add (hlist _ _)

theorem starts_inlineValueWithin (depth : Nat) :
    Starts MayStartValue (inlineValueWithin depth) := by
  cases depth with
  | zero => exact fun kinds h => absurd h (Language.notMem_zero kinds)
  | succ depth => exact starts_inlineValueOver _

/-- A first part, with nothing behind it or a comma and further parts. -/
theorem commaSeparated_eq (L : KindLanguage) :
    commaSeparated L = 1 + L * (1 + one .comma * commaSeparated L) := by
  have hmore : (one .comma * L)∗ * atMostOne (one .comma) = 1 + one .comma * commaSeparated L :=
    calc
      (one .comma * L)∗ * atMostOne (one .comma) =
          (1 + one .comma * L * (one .comma * L)∗) * atMostOne (one .comma) := by
        rw [Language.one_add_self_mul_kstar_eq_kstar]
      _ = 1 + one .comma * commaSeparated L := by
        simp only [commaSeparated, atMostOne, add_mul, mul_add, one_mul, mul_one, mul_assoc]
        ac_rfl
  rw [← hmore, commaSeparated, atMostOne, mul_assoc]

theorem commaSeparated_mono (h : V ≤ W) : commaSeparated V ≤ commaSeparated W := by
  unfold commaSeparated atMostOne
  gcongr

theorem entry_mono (h : V ≤ W) : entry V ≤ entry W := by
  unfold entry
  gcongr

theorem bracketed_mono {b : Bracket} (h : V ≤ W) : bracketed b V ≤ bracketed b W := by
  unfold bracketed
  gcongr

theorem inlineValueOver_mono (h : V ≤ W) : inlineValueOver V ≤ inlineValueOver W := by
  have hlist := commaSeparated_mono h
  have hdictionary := commaSeparated_mono (entry_mono h)
  unfold inlineValueOver
  gcongr
  · exact bracketed_mono hlist
  · exact bracketed_mono hlist
  · exact bracketed_mono hdictionary

/-- The sentences with at most `n` tokens. -/
def upTo (n : Nat) (L : KindLanguage) : KindLanguage :=
  {kinds | kinds ∈ L ∧ kinds.length ≤ n}

theorem upTo_le (n : Nat) (L : KindLanguage) : upTo n L ≤ L := fun _ h => h.1

theorem upTo_add (n : Nat) (L M : KindLanguage) : upTo n (L + M) ≤ upTo n L + upTo n M := by
  rintro kinds ⟨h | h, hlength⟩
  · exact .inl ⟨h, hlength⟩
  · exact .inr ⟨h, hlength⟩

theorem upTo_mul (n : Nat) (L M : KindLanguage) : upTo n (L * M) ≤ upTo n L * upTo n M := by
  rintro kinds ⟨h, hlength⟩
  obtain ⟨u, hu, v, hv, rfl⟩ := Language.mem_mul.mp h
  rw [List.length_append] at hlength
  exact Language.append_mem_mul ⟨hu, by omega⟩ ⟨hv, by omega⟩

theorem upTo_kstar (n : Nat) (L : KindLanguage) : upTo n L∗ ≤ (upTo n L)∗ := by
  rintro kinds ⟨⟨parts, rfl, hparts⟩, hlength⟩
  refine ⟨parts, rfl, fun part hpart => ⟨hparts part hpart, ?_⟩⟩
  exact Nat.le_trans (List.sublist_flatten_of_mem hpart).length_le hlength

theorem upTo_commaSeparated (n : Nat) (L : KindLanguage) :
    upTo n (commaSeparated L) ≤ commaSeparated (upTo n L) := by
  have hmore : upTo n (one .comma * L)∗ ≤ (one .comma * upTo n L)∗ := by
    grw [upTo_kstar, upTo_mul, upTo_le n (one .comma)]
  unfold commaSeparated atMostOne
  grw [upTo_add, upTo_le n 1, upTo_mul, upTo_mul, hmore, upTo_le n (1 + one .comma)]

/-- The brackets leave fewer tokens for what stands between them. -/
theorem upTo_bracketed (n : Nat) (b : Bracket) (L : KindLanguage) :
    upTo (n + 1) (bracketed b L) ≤ bracketed b (upTo n L) := by
  rintro kinds ⟨h, hlength⟩
  obtain ⟨u, hu, closer, hcloser, rfl⟩ := Language.mem_mul.mp h
  obtain ⟨opener, rfl, v, hv, rfl⟩ := Language.mem_mul.mp hu
  simp only [List.length_append, List.length_cons, List.length_nil] at hlength
  exact Language.append_mem_mul (Language.append_mem_mul rfl ⟨hv, by omega⟩) hcloser

theorem upTo_entry (n : Nat) (V : KindLanguage) : upTo n (entry V) ≤ entry (upTo n V) := by
  unfold entry
  grw [upTo_mul, upTo_le n (_ * _)]

/-- A value that contains others is longer than these. -/
theorem upTo_inlineValueOver (n : Nat) (V : KindLanguage) :
    upTo (n + 1) (inlineValueOver V) ≤ inlineValueOver (upTo n V) := by
  have hlist {b : Bracket} : upTo (n + 1) (bracketed b (commaSeparated V)) ≤
      bracketed b (commaSeparated (upTo n V)) :=
    (upTo_bracketed n b _).trans (bracketed_mono (upTo_commaSeparated n V))
  have hdictionary : upTo (n + 1) (bracketed .curly (commaSeparated (entry V))) ≤
      bracketed .curly (commaSeparated (entry (upTo n V))) :=
    (upTo_bracketed n _ _).trans (bracketed_mono ((upTo_commaSeparated n _).trans
      (commaSeparated_mono (upTo_entry n V))))
  unfold inlineValueOver
  grw [upTo_add, upTo_add, upTo_add, hlist, hlist, hdictionary, upTo_le]

/-- A value is nested no deeper than it has tokens. -/
theorem upTo_inlineValueWithin (n depth : Nat) :
    upTo n (inlineValueWithin depth) ≤ inlineValueWithin n := by
  induction n generalizing depth with
  | zero =>
    rintro kinds ⟨h, hlength⟩
    exact absurd (List.eq_nil_of_length_eq_zero (Nat.le_zero.mp hlength))
      ((starts_inlineValueWithin depth).ne_nil h)
  | succ n ih =>
    cases depth with
    | zero => exact fun kinds h => absurd h.1 (Language.notMem_zero kinds)
    | succ depth => exact (upTo_inlineValueOver n _).trans (inlineValueOver_mono (ih depth))

theorem mem_inlineValueWithin (h : kinds ∈ inlineValue) (hlength : kinds.length ≤ n) :
    kinds ∈ inlineValueWithin n := by
  obtain ⟨depth, h⟩ := Language.mem_iSup.mp h
  exact upTo_inlineValueWithin n depth ⟨h, hlength⟩

theorem inlineValueWithin_le (depth : Nat) : inlineValueWithin depth ≤ inlineValue :=
  le_iSup inlineValueWithin depth

/-- All sentences stand within a line. -/
def OnLine (L : KindLanguage) : Prop := ∀ kinds ∈ L, ∀ k ∈ kinds, k.isStructural = false

theorem onLine_one (h : k.isStructural = false) : OnLine (one k) := by
  rintro _ rfl
  simpa using h

theorem onLine_oneThat (h : ∀ k, P k → k.isStructural = false) : OnLine (oneThat P) := by
  rintro _ ⟨k, hk, rfl⟩
  simpa using h k hk

theorem onLine_epsilon : OnLine 1 := by
  rintro _ rfl
  simp

theorem OnLine.add (h : OnLine L) (h' : OnLine M) : OnLine (L + M) :=
  fun kinds hkinds => hkinds.elim (h kinds) (h' kinds)

theorem OnLine.mul (h : OnLine L) (h' : OnLine M) : OnLine (L * M) := by
  intro kinds hkinds
  obtain ⟨u, hu, v, hv, rfl⟩ := Language.mem_mul.mp hkinds
  exact List.forall_mem_append.mpr ⟨h u hu, h' v hv⟩

theorem OnLine.kstar (h : OnLine L) : OnLine L∗ := by
  rintro _ ⟨parts, rfl, hparts⟩ k hk
  obtain ⟨part, hpart, hk⟩ := List.mem_flatten.mp hk
  exact h part (hparts part hpart) k hk

theorem OnLine.atMostOne (h : OnLine L) : OnLine (atMostOne L) := onLine_epsilon.add h

theorem OnLine.commaSeparated (h : OnLine L) : OnLine (commaSeparated L) :=
  ((h.mul ((onLine_one rfl).mul h).kstar).mul (onLine_one rfl).atMostOne).atMostOne

theorem OnLine.bracketed {b : Bracket} (h : OnLine L) : OnLine (bracketed b L) :=
  ((onLine_one rfl).mul h).mul (onLine_one rfl)

theorem onLine_word : OnLine word := onLine_oneThat fun k hk => by
  cases k <;> first | rfl | exact nomatch hk

theorem onLine_inlineValueWithin (depth : Nat) : OnLine (inlineValueWithin depth) := by
  induction depth with
  | zero => exact fun kinds h => absurd h (Language.notMem_zero kinds)
  | succ depth ih =>
    have hliteral : OnLine literal := onLine_oneThat fun k hk => by
      cases k <;> first | rfl | exact nomatch hk
    have htag : OnLine typeTag :=
      ((((onLine_one rfl).mul (onLine_one rfl).atMostOne).mul (onLine_one rfl).atMostOne).mul
        ((onLine_one rfl).mul (onLine_one rfl).atMostOne).atMostOne).mul (onLine_one rfl)
    have hname : OnLine name := (onLine_one rfl).add (onLine_one rfl)
    have hentry : OnLine (entry (inlineValueWithin depth)) :=
      (((onLine_one rfl).add onLine_word).mul (onLine_one rfl)).mul ih
    exact (((((((((onLine_one rfl).add (onLine_one rfl)).add hliteral).add (onLine_one rfl)).add
      htag).add ((onLine_one rfl).mul (onLine_one rfl).atMostOne)).add
      (hname.mul ((onLine_one rfl).mul hname).kstar)).add ih.commaSeparated.bracketed).add
      ih.commaSeparated.bracketed).add hentry.commaSeparated.bracketed

theorem onLine_inlineValue : OnLine inlineValue := by
  intro kinds h
  obtain ⟨depth, h⟩ := Language.mem_iSup.mp h
  exact onLine_inlineValueWithin depth kinds h

theorem onLine_operand : OnLine operand :=
  ((onLine_one rfl).add (onLine_one rfl)).add onLine_word

theorem onLine_destinations : OnLine destinations := by
  have h : OnLine (one .arrow * operand) := (onLine_one rfl).mul onLine_operand
  exact h.mul h.kstar

theorem onLine_withClause : OnLine withClause := by
  have h : OnLine parameter := (onLine_word.mul (onLine_one rfl)).mul onLine_inlineValue
  exact ((onLine_one rfl).mul h).mul ((onLine_one rfl).mul h).kstar

end AgentScript.FlowGrammar
