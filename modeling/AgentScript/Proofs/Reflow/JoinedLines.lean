import AgentScript.Proofs.LineEnds.Documents
import AgentScript.Proofs.Reading.RewrittenBlocks
import AgentScript.Proofs.Reflow.Correspondence
import AgentScript.Proofs.Reflow.DelimitedRounds

/-!
# Lines joined within brackets

Behind a comma or an opening bracket within brackets a line can be broken. What is read up to there
does not see the break, the break and the blanks behind it are passed one by one, and the rest is
read as before at other positions.
-/
namespace AgentScript

open CharClass Lexeme TokenKind
open Rendered (render)

variable {d : Char} {v : List Char}

namespace Reading

variable {r s : Reading} {text : List Char} {before after : List Token} {t : Token}

/-- The reading that stands before a delimiter. -/
structure StandsBeforeDelimiter (r : Reading) (before : List Token) (t : Token) (d : Char)
    (rest : List Char) : Prop where
  inside : r.layout.beginsLine = false
  rest : r.rest = d :: rest
  kind : ofDelimiter? d = some t.kind
  tokens : r.transcript.tokens.toList = before
  stop : t.stop = (r.transcript.cursor.advance 1).position

theorem exists_standsBeforeDelimiter (ht : t.kind.isDelimiter = true)
    (h : (transcribe text).tokens.toList = before ++ t :: after) :
    ∃ m d rest, (rounds m (start text)).StandsBeforeDelimiter before t d rest := by
  obtain ⟨m, earlier, later, -, hbefore, hnew⟩ := exists_round (isStructural_of_isDelimiter ht) h
  refine ⟨m, ?_⟩
  generalize rounds m (start text) = r at hbefore hnew
  have hkind : t.kind ∈ Piece.kinds (Round.next r.layout r.transcript.cursor).pieces := by
    rw [← Piece.kinds_tokens r.transcript.cursor, hnew]
    simp
  obtain ⟨hinside, d, rest, hrest, hd⟩ := Round.exists_of_mem_kinds hkind ht
  rw [Round.next_of_delimiter hinside hrest hd] at hnew
  cases earlier with
  | nil =>
    obtain ⟨htoken, -⟩ := List.cons.inj hnew
    exact ⟨d, rest, hinside, hrest, hd, by simpa using hbefore.symm,
      (congrArg Token.stop htoken).symm⟩
  | cons first earlier =>
    obtain ⟨-, hnil⟩ := List.cons.inj hnew
    exact absurd hnil (by simp [Cursor.tokens])

theorem length_rest_rounds_le (n : Nat) (r : Reading) : (rounds n r).rest.length ≤ r.rest.length :=
  rounds_induction (P := fun s => s.rest.length ≤ r.rest.length) (fun s _ hs => by
    rw [round_rest, List.length_drop]
    omega) n (Nat.le_refl _)

/-- A reading that comes to stand before the delimiter comes to stand there in the same way when
something else stands behind it. -/
theorem exists_beforeDelimiter (hd : Delimits d) {m : Nat} (w : List Char)
    (h : (rounds m (s.withMore (d :: v))).rest = d :: v) :
    ∃ s' : Reading, s'.rest = [] ∧ rounds m (s.withMore (d :: v)) = s'.withMore (d :: v) ∧
      (s'.withMore (d :: w)).complete = (s.withMore (d :: w)).complete := by
  induction m generalizing s with
  | zero =>
    refine ⟨s, ?_, rfl, rfl⟩
    exact List.append_left_eq_self.mp h
  | succ m ih =>
    have hmore (v : List Char) : (s.withMore (d :: v)).rest ≠ [] := by simp [rest_withMore]
    have hround : rounds (m + 1) (s.withMore (d :: v)) = rounds m (s.withMore (d :: v)).round := by
      rw [rounds, if_neg (by simpa using hmore v)]
    rw [hround] at h ⊢
    have hlength := length_rest_rounds_le m (s.withMore (d :: v)).round
    rw [h, round_rest, List.length_drop, rest_withMore, List.length_append, List.length_cons]
      at hlength
    have hle : Piece.total (Round.next s.layout (s.transcript.cursor.withMore (d :: v))).pieces ≤
        s.rest.length := by
      change _ ≤ s.rest.length + (v.length + 1) -
        Piece.total (Round.next s.layout (s.transcript.cursor.withMore (d :: v))).pieces at hlength
      omega
    have hnext := Round.next_before hd rfl hle w
    have hstep (u : List Char)
        (hsame : Round.next s.layout (s.transcript.cursor.withMore (d :: u)) =
          Round.next s.layout (s.transcript.cursor.withMore (d :: v))) :
        (s.withMore (d :: u)).round = withMore (d :: u)
          ⟨(Round.next s.layout (s.transcript.cursor.withMore (d :: v))).layout,
            s.transcript.extendAll
              (Round.next s.layout (s.transcript.cursor.withMore (d :: v))).pieces⟩ := by
      rw [round_of_next (r := s.withMore (d :: u)) hsame]
      exact congrArg (Reading.mk _) (Transcript.extendAll_withMore hle (d :: u))
    rw [hstep v rfl] at h ⊢
    obtain ⟨s', hrest, hsame, hcomplete⟩ := ih h
    refine ⟨s', hrest, hsame, ?_⟩
    rw [hcomplete, ← hstep w hnext, complete_round (hmore w)]

/-- Line feeds, spaces and tabs. -/
def isGap (c : Char) : Bool := c == '\n' || isInlineSpace c

/-- Within brackets gaps are passed one character at a time. -/
theorem complete_gap {gap rest : List Char} (hopen : r.layout.brackets ≠ [])
    (hgap : ∀ c ∈ gap, isGap c = true) (hrest : r.rest = gap ++ rest) :
    (Reading.mk r.layout { r.transcript with
      cursor := r.transcript.cursor.advance gap.length }).complete = r.complete := by
  induction gap generalizing r with
  | nil => rfl
  | cons c gap ih =>
    obtain ⟨hc, hgap⟩ := List.forall_mem_cons.mp hgap
    have hinside : r.layout.beginsLine = false := by
      simp [Layout.beginsLine, hopen]
    have hnext : Round.next r.layout r.transcript.cursor = ⟨[.skip 1], r.layout⟩ := by
      rw [Round.next_within hinside hrest]
      rcases Bool.or_eq_true_iff.mp hc with hc | hc
      · obtain rfl : c = '\n' := by simpa using hc
        rw [Round.within_break rfl]
        simp [Round.endLine, hopen, breakLength]
      · exact Round.within_space hc ..
    have hround : r.round = ⟨r.layout, { r.transcript with
        cursor := r.transcript.cursor.advance 1 }⟩ := round_of_next hnext
    have hne : r.rest ≠ [] := by simp [hrest]
    have hbehind : r.round.rest = gap ++ rest := by
      rw [round_rest, hnext, hrest]
      rfl
    rw [← complete_round hne, ← ih (r := r.round) (by rwa [hround]) hgap hbehind, hround]
    dsimp only
    rw [← Cursor.advance_add, Nat.add_comm, List.length_cons]

theorem afterReturn_read {tracker : Tracker} {gap : List Char} (h : tracker.afterReturn = false)
    (hgap : ∀ c ∈ gap, isGap c = true) : (tracker.read gap).afterReturn = false := by
  induction gap generalizing tracker with
  | nil => exact h
  | cons c gap ih =>
    obtain ⟨hc, hgap⟩ := List.forall_mem_cons.mp hgap
    have hreturn : c ≠ '\r' := by
      rintro rfl
      exact nomatch hc
    exact ih (Cursor.afterReturn_step hreturn tracker) hgap

theorem admitsAtom_of_isGap {c : Char} (h : isGap c = true) : Round.admitsAtom c = true := by
  rcases Bool.or_eq_true_iff.mp h with h | h
  · obtain rfl : c = '\n' := by simpa using h
    decide
  · rcases Bool.or_eq_true_iff.mp h with h | h
    · obtain rfl : c = ' ' := by simpa using h
      decide
    · obtain rfl : c = '\t' := by simpa using h
      decide

theorem admitsAtom_of_delimiter {k : TokenKind} (h : ofDelimiter? d = some k) :
    Round.admitsAtom d = true := by
  unfold ofDelimiter? at h
  split_ifs at h with hcomma
  · simp [Round.admitsAtom, hcomma]
  · obtain ⟨b, hb, -⟩ := Option.map_eq_some_iff.mp h
    simp [Round.admitsAtom, hb]

/-- The reading behind the delimiter, where nothing stands behind it. -/
def passDelimiter (s : Reading) (d : Char) (k : TokenKind) : Reading :=
  ⟨Round.behindDelimiter s.layout s.transcript.cursor.position k,
    (s.transcript.withMore [d]).extend (.token k 1)⟩

section

variable {k : TokenKind} (hinside : s.layout.beginsLine = false) (hrest : s.rest = [])
  (hd : ofDelimiter? d = some k)

include hinside hrest hd

theorem round_delimiter (v : List Char) :
    (s.withMore (d :: v)).round = (s.passDelimiter d k).withMore v := by
  have hcursor : (s.transcript.cursor.withMore (d :: v)).rest = d :: v :=
    congrArg (· ++ d :: v) hrest
  have hwidth : Piece.total [.token k 1] ≤ (s.transcript.withMore [d]).cursor.rest.length := by
    change 1 ≤ (s.rest ++ [d]).length
    simp
  have hextend := Transcript.extendAll_withMore hwidth v
  have hmore : (s.transcript.withMore [d]).withMore v = s.transcript.withMore (d :: v) := by
    simp [Transcript.withMore, Cursor.withMore]
  rw [hmore] at hextend
  have hnext := Round.next_of_delimiter hinside hcursor hd
  rw [round_of_next (r := s.withMore (d :: v)) hnext]
  exact congrArg (Reading.mk _) hextend

/-- Behind the delimiter the same is read with a gap as without one. -/
theorem gainAlike_gap {gap : List Char} (hgap : ∀ c ∈ gap, isGap c = true)
    (hopen : (s.passDelimiter d k).layout.brackets ≠ []) :
    Transcript.GainAlike (fun _ _ => True) (s.passDelimiter d k).transcript
      (s.passDelimiter d k).transcript (s.withMore (d :: v)).complete
      (s.withMore (d :: (gap ++ v))).complete := by
  have hround := round_delimiter hinside hrest hd
  have hmore (v : List Char) : (s.withMore (d :: v)).rest ≠ [] := by simp [rest_withMore]
  rw [← complete_round (hmore v), ← complete_round (hmore (gap ++ v)), hround, hround]
  have hdelimiter : (s.transcript.withMore [d]).cursor.rest = [d] := congrArg (· ++ [d]) hrest
  have hcursor : (s.passDelimiter d k).transcript.cursor =
      ⟨[], (s.transcript.cursor.tracker.step d), some d⟩ := by
    change (s.transcript.withMore [d]).cursor.advance 1 = _
    rw [Cursor.advance_succ_of_rest_cons hdelimiter]
    rfl
  generalize s.passDelimiter d k = r at hcursor hopen
  have hreturn : (s.transcript.cursor.tracker.step d).afterReturn = false := by
    refine Cursor.afterReturn_step ?_ _
    rintro rfl
    exact nomatch (delimits_of_ofDelimiter? hd).lineBreak
  have hrest' (v : List Char) : (r.transcript.cursor.withMore v).rest = v := by
    rw [Cursor.withMore, hcursor, List.nil_append]
  rw [← complete_gap (r := r.withMore (gap ++ v)) hopen hgap (hrest' _)]
  have hsame : (r.withMore v).Corresponds (fun _ _ => True)
      ⟨r.layout, { (r.transcript.withMore (gap ++ v)) with
        cursor := (r.transcript.cursor.withMore (gap ++ v)).advance gap.length }⟩ := by
    refine ⟨rfl, ⟨?rest, ⟨trivial, ?afterReturn⟩, ?passed⟩⟩
    case rest =>
      rw [Cursor.advance_rest, hrest', List.drop_left]
      exact (hrest' v).symm
    case afterReturn =>
      rw [Cursor.advance_tracker, hrest', List.take_left]
      change (r.transcript.cursor.tracker.read gap).afterReturn =
        r.transcript.cursor.tracker.afterReturn
      rw [hcursor, hreturn]
      exact afterReturn_read hreturn hgap
    case passed =>
      have hpassed : r.transcript.cursor.previous.all Round.admitsAtom = true := by
        rw [hcursor]
        exact admitsAtom_of_delimiter hd
      refine Round.passedAlike_of_admitsAtom hpassed ?_
      rw [Cursor.previous_advance (hrest' _)]
      cases hlast : gap.getLast? with
      | none => exact hpassed
      | some c => exact admitsAtom_of_isGap (hgap c (List.mem_of_getLast? hlast))
  exact hsame.complete (fun _ _ _ _ => trivial) rfl

end

/-- The text splits where the delimiter stands. -/
theorem StandsBeforeDelimiter.exists_passed {rest : List Char}
    (h : r.StandsBeforeDelimiter before t d rest) (halong : r.transcript.cursor.Along text) :
    ∃ x, text = x ++ d :: rest ∧ t.stop.offset = x.length + 1 := by
  have hlength := halong.offset_add_length
  obtain ⟨x, hx, -⟩ := halong
  have hadvance := r.transcript.cursor.position_advance 1
  change text = x ++ r.rest at hx
  change _ + r.rest.length = _ at hlength
  change _ = _ + min 1 r.rest.length at hadvance
  rw [h.rest] at hx hlength hadvance
  refine ⟨x, hx, ?_⟩
  have htext := congrArg List.length hx
  rw [h.stop, hadvance]
  simp only [List.length_append, List.length_cons] at htext hlength ⊢
  omega

/-- The brackets that are open behind the delimiter are those that the tokens leave open. -/
theorem StandsBeforeDelimiter.brackets_round {rest : List Char}
    (h : r.StandsBeforeDelimiter before t d rest) (hcounts : r.CountsBrackets) :
    r.round.layout.openBrackets = openBrackets ((before ++ [t]).map (·.kind)) := by
  have hne : r.rest ≠ [] := by simp [h.rest]
  have htokens : r.transcript.kinds = before.map (·.kind) :=
    congrArg (List.map Token.kind) h.tokens
  have hkinds : r.round.transcript.kinds = (before ++ [t]).map (·.kind) := by
    rw [kinds_round, Round.next_of_delimiter h.inside h.rest h.kind, List.map_append, htokens]
    rfl
  rw [← hkinds]
  exact (hcounts.round hne).stack

/-- A line that is broken behind a delimiter within brackets is read as before. -/
theorem gainAlike_transcribe {gap : List Char} (ht : t.kind.isDelimiter = true)
    (h : (transcribe text).tokens.toList = before ++ t :: after)
    (hopen : openBrackets ((before ++ [t]).map (·.kind)) ≠ []) (hgap : ∀ c ∈ gap, isGap c = true) :
    ∃ u : Transcript, Transcript.GainAlike (fun _ _ => True) u u (transcribe text)
      (transcribe (text.take t.stop.offset ++ (gap ++ text.drop t.stop.offset))) := by
  obtain ⟨m, d, rest, hbefore⟩ := exists_standsBeforeDelimiter ht h
  have hcounts : (rounds m (start text)).CountsBrackets :=
    rounds_induction (fun r hr hc => hc.round hr) m (countsBrackets_start text)
  have hfollows : (rounds m (start text)).transcript.Follows text :=
    rounds_induction (P := fun r => r.transcript.Follows text) (fun r _ hr => follows_round hr) m
      (Transcript.follows_start text)
  have hcomplete : (rounds m (start text)).complete = transcribe text := complete_rounds m _
  obtain ⟨x, hx, hstop⟩ := hbefore.exists_passed hfollows.along
  have hstart (v : List Char) : start (x ++ d :: v) = (start x).withMore (d :: v) := rfl
  have htake : text.take t.stop.offset ++ (gap ++ text.drop t.stop.offset) =
      x ++ d :: (gap ++ rest) := by
    rw [hstop, hx, ← List.singleton_append, ← List.append_assoc x,
      List.take_left' (by simp), List.drop_left' (by simp), List.append_assoc]
    rfl
  have hrest := hbefore.rest
  rw [hx, hstart] at hrest
  obtain ⟨s, hend, hsame, hmore⟩ := exists_beforeDelimiter (delimits_of_ofDelimiter? hbefore.kind)
    (gap ++ rest) hrest
  rw [← hstart, ← hx] at hsame
  rw [hsame] at hbefore hcounts hcomplete
  have hinside : s.layout.beginsLine = false := hbefore.inside
  have hbrackets : (s.passDelimiter d t.kind).layout.brackets ≠ [] := by
    have hstack := hbefore.brackets_round hcounts
    rw [round_delimiter hinside hend hbefore.kind rest] at hstack
    exact fun hnil => hopen (hstack.symm.trans (List.map_eq_nil_iff.mpr hnil))
  have hnew : (s.withMore (d :: (gap ++ rest))).complete = transcribe (x ++ d :: (gap ++ rest)) :=
    hmore
  rw [htake, ← hnew, ← hcomplete]
  exact ⟨_, gainAlike_gap hinside hend hbefore.kind hgap hbrackets⟩

end Reading

/-- All positions are one. -/
def Rendering.withoutPositions : Rendering := ⟨fun _ => .origin, fun _ => Position.le_refl _, id⟩

theorem Token.render_eq_of_corresponds {P : Position → Position → Prop} {ts ts' : List Token}
    (h : List.Forall₂ (Corresponds P) ts ts') :
    render .withoutPositions ts' = render .withoutPositions ts := by
  induction h with
  | nil => rfl
  | @cons t t' ts ts' ht _ ih =>
    have htoken : render .withoutPositions t' = render .withoutPositions t := by
      change Token.mk t'.kind (if t'.kind = .newline then t'.text else t'.text) _ _ =
        Token.mk t.kind (if t.kind = .newline then t.text else t.text) _ _
      rw [ite_self, ite_self, ht.kind, ht.text]
      rfl
    exact congrArg₂ List.cons htoken ih

theorem Token.spelled_of_corresponds {P : Position → Position → Prop} {ts ts' : List Token}
    (h : List.Forall₂ (Corresponds P) ts ts') :
    ts'.map (fun t => (t.kind, t.text)) = ts.map fun t => (t.kind, t.text) := by
  induction h with
  | nil => rfl
  | cons ht _ ih => rw [List.map_cons, List.map_cons, ht.kind, ht.text, ih]

/-- The text with a line break and blanks behind the token. -/
def brokenBehind (source : String) (t : Token) (blanks : String) : String :=
  String.ofList (source.toList.take t.stop.offset ++
    ('\n' :: blanks.toList ++ source.toList.drop t.stop.offset))

/-- A line can be broken behind a comma or an opening bracket where a bracket is open: the tokens
have the same kinds and texts, and the lexical errors, the tree and the parse errors are the same
but for positions. -/
theorem Document.ofSource_brokenBehind (source : String) (options : ParseOptions) (i : Nat)
    (t : Token)
    (hi : (TokenizedText.ofLabelledSource source options.file).tokens[i]? = some t)
    (ht : t.kind.isDelimiter = true)
    (hopen : openBrackets (((TokenizedText.ofLabelledSource source options.file).tokens.take
      (i + 1)).map (·.kind)) ≠ [])
    (blanks : String) (hblanks : ∀ c ∈ blanks.toList, isInlineSpace c = true) :
    let text := TokenizedText.ofLabelledSource source options.file
    let text' := TokenizedText.ofLabelledSource (brokenBehind source t blanks) options.file
    let document := ofSource source options
    let document' := ofSource (brokenBehind source t blanks) options
    text'.tokens.map (fun t => (t.kind, t.text)) = text.tokens.map (fun t => (t.kind, t.text)) ∧
      text'.errors.map (·.message) = text.errors.map (·.message) ∧
      render .withoutPositions document'.tree = render .withoutPositions document.tree ∧
      render .withoutPositions document'.parseErrors =
        render .withoutPositions document.parseErrors := by
  have hgap : ∀ c ∈ '\n' :: blanks.toList, Reading.isGap c = true := by
    refine List.forall_mem_cons.mpr ⟨rfl, fun c hc => ?_⟩
    rw [Reading.isGap, hblanks c hc, Bool.or_true]
  have htokens : (Reading.transcribe source.toList).tokens.toList =
      (Reading.transcribe source.toList).tokens.toList.take i ++
        t :: (Reading.transcribe source.toList).tokens.toList.drop (i + 1) := by
    obtain ⟨hlt, hget⟩ := List.getElem?_eq_some_iff.mp hi
    conv_lhs => rw [← List.take_append_drop i (Reading.transcribe source.toList).tokens.toList]
    exact congrArg _ ((List.drop_eq_getElem_cons hlt).trans (congrArg (· :: _) hget))
  have hbefore : (Reading.transcribe source.toList).tokens.toList.take (i + 1) =
      (Reading.transcribe source.toList).tokens.toList.take i ++ [t] := by
    rw [List.take_add_one]
    exact congrArg _ (congrArg Option.toList hi)
  change openBrackets (((Reading.transcribe source.toList).tokens.toList.take (i + 1)).map _) ≠ []
    at hopen
  rw [hbefore] at hopen
  obtain ⟨u, new, new', more, hnew, hnew', hsame, hmore, hmore'⟩ :=
    Reading.gainAlike_transcribe ht htokens hopen hgap
  have hsource : (brokenBehind source t blanks).toList = source.toList.take t.stop.offset ++
      ('\n' :: blanks.toList ++ source.toList.drop t.stop.offset) := String.toList_ofList
  rw [← hsource] at hnew' hmore'
  have hall : List.Forall₂ (Token.Corresponds fun _ _ => True)
      (Reading.transcribe source.toList).tokens.toList
      (Reading.transcribe (brokenBehind source t blanks).toList).tokens.toList := by
    rw [hnew, hnew']
    exact List.rel_append (List.forall₂_same.mpr fun _ _ => ⟨rfl, rfl, trivial, trivial⟩) hsame
  have hcauses := congrArg (List.map LexicalCause.message) (hmore'.trans hmore.symm)
  refine ⟨Token.spelled_of_corresponds hall, ?_,
    ofSource_of_render_eq (Token.render_eq_of_corresponds hall) options⟩
  simpa [TokenizedText.ofLabelledSource, Transcript.causes, LexicalFault.toError,
    Function.comp_def] using hcauses

/-- The text of an agent with a list of two words. -/
def bracketedList : String := "agent A:\n  agentConfig:\n    k: [a, b]\n"

/-- The list goes on on another line, less deep than the entry is. -/
theorem Document.ofSource_brokenBehind_comma :
    let comma : Token := ⟨.comma, ",", ⟨3, 10, 33⟩, ⟨3, 11, 34⟩⟩
    (TokenizedText.ofLabelledSource bracketedList none).tokens[13]? = some comma ∧
      openBrackets (((TokenizedText.ofLabelledSource bracketedList none).tokens.take 14).map
        (·.kind)) ≠ [] ∧
      brokenBehind bracketedList comma " " = "agent A:\n  agentConfig:\n    k: [a,\n  b]\n" ∧
      render .withoutPositions (ofSource (brokenBehind bracketedList comma " ") .standard).tree =
        render .withoutPositions (ofSource bracketedList .standard).tree := by
  have hi : (TokenizedText.ofLabelledSource bracketedList none).tokens[13]? =
      some ⟨.comma, ",", ⟨3, 10, 33⟩, ⟨3, 11, 34⟩⟩ := by decide +kernel
  have hopen :
      openBrackets (((TokenizedText.ofLabelledSource bracketedList none).tokens.take 14).map
      (·.kind)) ≠ [] := by decide +kernel
  have hblank : ∀ c ∈ " ".toList, CharClass.isInlineSpace c = true := by
    simp [CharClass.isInlineSpace]
  have h := ofSource_brokenBehind bracketedList .standard 13 _ hi rfl hopen " " hblank
  exact ⟨hi, hopen, by decide +kernel, h.2.2.1⟩

end AgentScript
