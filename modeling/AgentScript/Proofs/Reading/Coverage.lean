import AgentScript.Proofs.Reading.SkippedText
import AgentScript.Proofs.Reading.Transcription

/-!
# Nothing is lost

Every character of a source is accounted for: it belongs to a token, it is whitespace, a
reported error concerns it, or it stands in a comment. A transcript accounts for the
characters that its cursor has passed; the faults found ahead of the cursor account for
text that is about to be skipped.
-/
namespace AgentScript

open CharClass

/-- The token stands over the character at an index. -/
def Token.Covers (t : Token) (i : Nat) : Prop := t.start.offset ≤ i ∧ i < t.stop.offset

/-- The error concerns the character at an index. -/
def LexicalError.Covers (e : LexicalError) (i : Nat) : Prop :=
  e.position.offset ≤ i ∧ i < e.position.offset + e.length

/-- A number sign stands at the index or before it on the same line, and no token between. -/
def InComment (text : List Char) (tokens : List Token) (i : Nat) : Prop :=
  ∃ j ≤ i, text[j]? = some '#' ∧
    (∀ k, j ≤ k → k ≤ i → ∀ c, text[k]? = some c → isLineBreak c = false) ∧
    ∀ t ∈ tokens, t.stop.offset ≤ j ∨ i < t.start.offset

/-- Why no token needs to stand over a character, or which one does. -/
inductive Accounted (text : List Char) (tokens : List Token) (errors : List LexicalError)
    (i : Nat) : Prop
  | token {t : Token} (mem : t ∈ tokens) (covers : t.Covers i)
  | whitespace {c : Char} (found : text[i]? = some c) (isSpace : isWhitespace c = true)
  | error {e : LexicalError} (mem : e ∈ errors) (covers : e.Covers i)
  | comment (inside : InComment text tokens i)

variable {text : List Char}

/-- Errors and tokens that come later change nothing for a character before them. -/
theorem Accounted.append {tokens later : List Token} {errors more : List LexicalError} {i : Nat}
    (h : Accounted text tokens errors i) (hlater : ∀ t ∈ later, i < t.start.offset) :
    Accounted text (tokens ++ later) (errors ++ more) i := by
  cases h with
  | token mem covers => exact .token (List.mem_append_left _ mem) covers
  | whitespace found isSpace => exact .whitespace found isSpace
  | error mem covers => exact .error (List.mem_append_left _ mem) covers
  | comment inside =>
    obtain ⟨j, hji, hj, hline, hgap⟩ := inside
    refine .comment ⟨j, hji, hj, hline, fun t ht => ?_⟩
    rcases List.mem_append.mp ht with ht | ht
    · exact hgap t ht
    · exact .inr (hlater t ht)

/-- A blank run that follows on all tokens is whitespace and a comment. -/
theorem accounted_of_blankRun {tokens : List Token} {errors : List LexicalError} {n start : Nat}
    (h : IsBlankRun ((text.drop start).take n)) (htokens : ∀ t ∈ tokens, t.stop.offset ≤ start)
    {i : Nat} (hstart : start ≤ i) (hi : i < start + n) (hlen : i < text.length) :
    Accounted text tokens errors i := by
  obtain ⟨spaces, comment, hrun, hspaces, hhead, hline⟩ := h
  have hget (k : Nat) (hk : k < n) : text[start + k]? = (spaces ++ comment)[k]? := by
    rw [← hrun, List.getElem?_take_of_lt hk, List.getElem?_drop]
  obtain ⟨k, rfl⟩ := Nat.exists_eq_add_of_le hstart
  have hkn : k < n := by omega
  have hk := hget k hkn
  by_cases hspace : k < spaces.length
  · rw [List.getElem?_append_left hspace, List.getElem?_eq_getElem hspace] at hk
    exact .whitespace hk (hspaces _ (List.getElem_mem hspace))
  · have hmem (m : Nat) (hm : spaces.length ≤ m) {c : Char}
        (hc : (spaces ++ comment)[m]? = some c) : c ∈ comment := by
      rw [List.getElem?_append_right hm] at hc
      exact List.mem_of_getElem? hc
    have hsome : (spaces ++ comment)[k]? = some text[start + k] := by
      rw [← hk, List.getElem?_eq_getElem hlen]
    have hne : comment ≠ [] := List.ne_nil_of_mem (hmem k (by omega) hsome)
    have hnumber : comment.head? = some '#' := hhead.resolve_left hne
    refine .comment ⟨start + spaces.length, by omega, ?_, ?_, ?_⟩
    · rw [hget _ (by omega), List.getElem?_append_right (Nat.le_refl _), Nat.sub_self,
        ← List.head?_eq_getElem?, hnumber]
    · intro m hm hmk c hc
      obtain ⟨m, rfl⟩ := Nat.exists_eq_add_of_le (show start ≤ m by omega)
      rw [hget m (by omega)] at hc
      exact hline c (hmem m (by omega) hc)
    · exact fun t ht => .inl (Nat.le_trans (htokens t ht) (Nat.le_add_right _ _))

namespace Transcript

/-- The errors of the faults of a transcript. -/
def errors (t : Transcript) (file : Option String) : List LexicalError :=
  t.faults.toList.map (·.toError file)

/-- Every character that the cursor has passed is accounted for. -/
def Accounts (text : List Char) (file : Option String) (t : Transcript) : Prop :=
  ∀ i < t.cursor.position.offset, Accounted text t.tokens.toList (t.errors file) i

/-- Errors concern the next characters, `reach` of them. -/
def Foresees (file : Option String) (t : Transcript) (reach : Nat) : Prop :=
  ∀ i, t.cursor.position.offset ≤ i → i < t.cursor.position.offset + reach →
    ∃ e ∈ t.errors file, e.Covers i

variable {t : Transcript} {file : Option String} {reach : Nat}

theorem foresees_zero (file : Option String) (t : Transcript) : t.Foresees file 0 :=
  fun i h h' => absurd h' (by omega)

theorem Foresees.advance (h : t.Foresees file reach) (n : Nat) {t' : Transcript}
    (hcursor : t'.cursor = t.cursor.advance n) (hfaults : t'.faults = t.faults) :
    t'.Foresees file (reach - n) := by
  intro i hi hi'
  have herrors : t'.errors file = t.errors file := by
    unfold errors
    rw [hfaults]
  have hposition := t.cursor.position_advance n
  rw [hcursor] at hi hi'
  rw [herrors]
  exact h i (by omega) (by omega)

theorem errors_fault (t : Transcript) (file : Option String) (cause : LexicalCause) (n : Nat) :
    (t.extend (.fault cause n)).errors file =
      t.errors file ++ [LexicalFault.toError file ⟨cause, t.cursor.position, n⟩] := by
  simp [errors, extend]

/-- A fault foresees the characters that it concerns. -/
theorem Foresees.fault (h : t.Foresees file reach) (cause : LexicalCause) (n : Nat) :
    (t.extend (.fault cause n)).Foresees file (max reach n) := by
  intro i hi hi'
  rw [errors_fault]
  by_cases hn : i < t.cursor.position.offset + n
  · exact ⟨_, List.mem_append_right _ (List.mem_singleton_self _), hi, hn⟩
  · change i < t.cursor.position.offset + max reach n at hi'
    obtain ⟨e, hmem, hcovers⟩ := h i hi (by omega)
    exact ⟨e, List.mem_append_left _ hmem, hcovers⟩

theorem accounts_start (text : List Char) (file : Option String) :
    (start text).Accounts text file := fun _ hi => nomatch hi

theorem Accounts.fault (h : t.Accounts text file) (cause : LexicalCause) (n : Nat) :
    (t.extend (.fault cause n)).Accounts text file := by
  intro i hi
  have htokens : (t.extend (.fault cause n)).tokens.toList = t.tokens.toList ++ [] := by
    simp [extend]
  rw [htokens, errors_fault]
  exact (h i hi).append (by simp)

theorem Accounts.token (h : t.Accounts text file) (kind : TokenKind) (n : Nat) :
    (t.extend (.token kind n)).Accounts text file := by
  intro i hi
  have htokens : (t.extend (.token kind n)).tokens.toList = t.tokens.toList ++ [⟨kind,
      String.ofList (t.cursor.rest.take n), t.cursor.position, (t.cursor.advance n).position⟩] := by
    simp [extend]
  have herrors : (t.extend (.token kind n)).errors file = t.errors file ++ [] := by
    simp [errors, extend]
  rw [htokens, herrors]
  by_cases hpassed : i < t.cursor.position.offset
  · exact (h i hpassed).append (by simpa using hpassed)
  · exact .token (List.mem_append_right _ (List.mem_singleton_self _)) ⟨by simpa using hpassed, hi⟩

theorem Accounts.skip (h : t.Accounts text file) (hfollows : t.Follows text)
    (hforesees : t.Foresees file reach) {n : Nat}
    (hskip : n ≤ reach ∨ IsBlankRun (t.cursor.rest.take n)) :
    (t.extend (.skip n)).Accounts text file := by
  intro i hi
  by_cases hpassed : i < t.cursor.position.offset
  · exact h i hpassed
  · have hposition := t.cursor.position_advance n
    have hlen := hfollows.along.offset_add_length
    change i < (t.cursor.advance n).position.offset at hi
    rcases hskip with hreach | hblank
    · obtain ⟨e, hmem, hcovers⟩ := hforesees i (by omega) (by omega)
      exact .error hmem hcovers
    · rw [hfollows.along.rest_eq_drop] at hblank
      exact accounted_of_blankRun hblank (fun k hk => (hfollows.passed k hk).2) (by omega)
        (by omega) (by omega)

/-- Justified pieces leave nothing unaccounted for. -/
theorem Accounts.extendAll (h : t.Accounts text file) (hfollows : t.Follows text)
    (hforesees : t.Foresees file reach) {ps : List Piece}
    (hps : Piece.Justified reach ps t.cursor.rest) : (t.extendAll ps).Accounts text file := by
  induction ps generalizing t reach with
  | nil => exact h
  | cons p ps ih =>
    have hnext := hfollows.extend p
    cases p with
    | skip n =>
      refine ih (h.skip hfollows hforesees hps.1) hnext (hforesees.advance n rfl rfl) ?_
      rw [extend_cursor, Cursor.advance_rest]
      exact hps.2
    | token kind n =>
      refine ih (h.token kind n) hnext (hforesees.advance n rfl rfl) ?_
      rw [extend_cursor, Cursor.advance_rest]
      exact hps
    | fault cause n => exact ih (h.fault cause n) hnext (hforesees.fault cause n) hps

end Transcript

namespace Reading

variable {r : Reading} {file : Option String}

theorem accounts_round (h : r.transcript.Accounts text file)
    (hfollows : r.transcript.Follows text) :
    r.round.transcript.Accounts text file :=
  h.extendAll hfollows (Transcript.foresees_zero file r.transcript)
    (Round.justified_next r.layout _)

theorem cursor_foldl_mark (t : Transcript) (marks : List TokenKind) :
    (marks.foldl Transcript.mark t).cursor = t.cursor := by
  induction marks generalizing t with
  | nil => rfl
  | cons k marks ih => exact ih (t.mark k)

theorem faults_foldl_mark (t : Transcript) (marks : List TokenKind) :
    (marks.foldl Transcript.mark t).faults = t.faults := by
  induction marks generalizing t with
  | nil => rfl
  | cons k marks ih => exact ih (t.mark k)

theorem cursor_finish (r : Reading) : r.finish.cursor = r.transcript.cursor := by
  rw [finish_eq, cursor_foldl_mark]
  rfl

/-- Finishing adds the errors about open brackets. -/
theorem errors_finish (r : Reading) (file : Option String) :
    ∃ unclosed, r.finish.errors file = r.transcript.errors file ++ unclosed := by
  rw [Transcript.errors, finish_eq, faults_foldl_mark, reportUnclosed, Array.toList_append,
    List.map_append]
  exact ⟨_, rfl⟩

theorem accounts_finish (h : r.transcript.Accounts text file) : r.finish.Accounts text file := by
  intro i hi
  obtain ⟨unclosed, herrors⟩ := r.errors_finish file
  rw [cursor_finish] at hi
  rw [tokens_finish, herrors]
  apply (h i hi).append
  intro t ht
  obtain ⟨kind, -, rfl⟩ := List.mem_map.mp ht
  exact hi

/-- Every character of a text is accounted for in its transcript. -/
theorem accounted_transcribe (text : List Char) (file : Option String) :
    ∀ i < text.length,
      Accounted text (transcribe text).tokens.toList ((transcribe text).errors file) i := by
  obtain ⟨r, ⟨hfollows, haccounts⟩, hrest, heq⟩ := transcribe_induction
    (P := fun r => r.transcript.Follows text ∧ r.transcript.Accounts text file)
    ⟨Transcript.follows_start text, Transcript.accounts_start text file⟩
    fun r _ h => ⟨follows_round h.1, accounts_round h.2 h.1⟩
  have hlen := hfollows.along.offset_add_length
  have hnil : r.transcript.cursor.rest.length = 0 := congrArg List.length hrest
  intro i hi
  rw [heq]
  apply accounts_finish haccounts
  rw [cursor_finish]
  omega

end Reading

/-- Tokens are exact and in order, and every character of the text is accounted for. -/
structure ReadsWhole (text : List Char) (read : TokenizedText) : Prop where
  exact : ∀ t ∈ read.tokens, t.Reads text
  ordered : read.tokens.IsChain Token.Precedes
  accounted : ∀ i < text.length, Accounted text read.tokens read.errors i

/-- Reading a source loses nothing, also where the source is malformed. -/
theorem tokens_readsWhole (source : String) (file : Option String) :
    ReadsWhole source.toList (TokenizedText.ofLabelledSource source file) := by
  have hfollows := Reading.follows_transcribe source.toList
  constructor
  case exact => exact hfollows.reads
  case ordered => exact hfollows.ordered
  case accounted => exact Reading.accounted_transcribe source.toList file

end AgentScript
