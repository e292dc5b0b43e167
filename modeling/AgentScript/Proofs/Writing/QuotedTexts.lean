import AgentScript.Proofs.Reading.Spans
import AgentScript.Proofs.Writing.Indentation

/-!
# Quoted texts

A text of any characters can be written as one string. The escapes leave no line break and no
quote in it that could end the string early, so the string is read to its own closing quote, as
the only token of its line, and decodes to the text that was written.
-/
namespace AgentScript

open CharClass Lexeme

namespace Writing

/-- Escapes put a letter for every line break. -/
theorem isLineBreak_of_mem_escape {text : List Char} {c : Char} (h : c ∈ Quoted.escape text) :
    isLineBreak c = false := by
  induction text with
  | nil => exact nomatch h
  | cons d text ih =>
    unfold Quoted.escape at h
    split at h
    · next l hl =>
      rcases List.mem_cons.mp h with rfl | h
      · rfl
      rcases List.mem_cons.mp h with rfl | h
      · exact isLineBreak_escapeLetter hl
      · exact ih h
    · next hd =>
      rcases List.mem_cons.mp h with rfl | h
      · have hfeed : c ≠ '\n' := ne_of_escapeLetter?_eq_none hd rfl
        have hreturn : c ≠ '\r' := ne_of_escapeLetter?_eq_none hd rfl
        simp [isLineBreak, hfeed, hreturn]
      · exact ih h

theorem isLineBreak_of_mem_encode {text : List Char} {c : Char} (h : c ∈ Quoted.encode text) :
    isLineBreak c = false := by
  rcases List.mem_cons.mp h with rfl | h
  · rfl
  rcases List.mem_append.mp h with h | h
  · exact isLineBreak_of_mem_escape h
  · rw [List.mem_singleton.mp h]
    rfl

end Writing

open Writing

namespace Reading

/-- The position behind the string that a text is written as. -/
def behindQuoted (text : List Char) : Position :=
  ⟨1, 1 + (Quoted.encode text).length, (Quoted.encode text).length⟩

theorem quotedString_encode (text : List Char) :
    quotedString (Quoted.encode text) = [.token .string (Quoted.encode text).length] := by
  have hextent := stringExtent_encode text []
  rw [List.append_nil] at hextent
  simp [quotedString, hextent]

theorem position_advance_encode (text : List Char) :
    ((Cursor.atStart (Quoted.encode text)).advance (Quoted.encode text).length).position =
      behindQuoted text := by
  rw [Cursor.position, Cursor.advance_tracker]
  change (Tracker.initial.read ((Quoted.encode text).take _)).position = _
  rw [List.take_length, Tracker.position_read_line fun c => isLineBreak_of_mem_encode]
  simp [Tracker.initial, Position.origin, behindQuoted]

/-- The first round finds no indentation before the quote, the second reads the string. -/
theorem rounds_encode (text : List Char) :
    rounds 2 (start (Quoted.encode text)) = ⟨Layout.initial.enterLine 0,
      ⟨(Cursor.atStart (Quoted.encode text)).advance (Quoted.encode text).length,
        #[⟨.string, String.ofList (Quoted.encode text), .origin, behindQuoted text⟩], #[]⟩⟩ := by
  have hbegins : (start (Quoted.encode text)).round =
      ⟨Layout.initial.enterLine 0, .start (Quoted.encode text)⟩ := rfl
  have hstring : Round.next (Layout.initial.enterLine 0) (.atStart (Quoted.encode text)) =
      ⟨[.token .string (Quoted.encode text).length], Layout.initial.enterLine 0⟩ := by
    rw [← quotedString_encode]
    rfl
  have htake : (Cursor.atStart (Quoted.encode text)).rest.take (Quoted.encode text).length =
      Quoted.encode text := List.take_length
  have hrounds : rounds 2 (start (Quoted.encode text)) =
      (start (Quoted.encode text)).round.round := rfl
  rw [hrounds, hbegins, round]
  simp only [Transcript.start, hstring, Transcript.extendAll_cons, Transcript.extendAll_nil,
    Transcript.extend, htake, position_advance_encode]
  rfl

/-- A text that is written as a string is read as this string and the end of its line. -/
theorem transcribe_encode (text : List Char) :
    (transcribe (Quoted.encode text)).tokens.toList =
        [⟨.string, String.ofList (Quoted.encode text), .origin, behindQuoted text⟩,
          .mark .newline (behindQuoted text), .mark .eof (behindQuoted text)] ∧
      (transcribe (Quoted.encode text)).faults.toList = [] := by
  have hend :
      ((Cursor.atStart (Quoted.encode text)).advance (Quoted.encode text).length).rest = [] := by
    simp [Cursor.advance_rest, Cursor.atStart]
  rw [transcribe_eq_finish (rounds_encode text) hend, tokens_finish, faults_finish]
  simp [endMarks, Transcript.endsInLine, Token.isStructural, TokenKind.isStructural,
    position_advance_encode, Layout.enterLine, Layout.initial, Reindent.ofWidth]

end Reading

/-- A text of any characters, written as a string, is read as one string and the end of its line
without errors, and the string decodes to the text. -/
theorem quotedText_reads (text : String) (file : Option String) :
    let quoted := Quoted.encodeString text
    let stop : Position := ⟨1, 1 + quoted.length, quoted.length⟩
    TokenizedText.ofLabelledSource quoted file =
        ⟨[⟨.string, quoted, .origin, stop⟩, .mark .newline stop, .mark .eof stop], []⟩ ∧
      Quoted.decodeString quoted = text := by
  obtain ⟨htokens, hfaults⟩ := Reading.transcribe_encode text.toList
  constructor
  · simp [TokenizedText.ofLabelledSource, Quoted.encodeString, htokens, hfaults,
      Reading.behindQuoted]
  · simp [Quoted.decodeString, Quoted.encodeString, decode_encode]

end AgentScript
