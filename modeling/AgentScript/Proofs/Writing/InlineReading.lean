import AgentScript.Proofs.Writing.InlineValues

/-!
# Reading inline values

An inline value is read as its tokens where neither a run of words nor a number goes on behind it.
Behind a colon literal words are preferred, and nothing within a value changes that before the line
ends. Where a value can begin otherwise they come to be preferred with its first entry of a
dictionary, and without one they do not. A name that begins with a literal word is divided where
they are preferred, so the value with such a name is read elsewhere only.
-/
namespace AgentScript

open CharClass Lexeme Writing

/-- What comes after a value: a comma, a closing bracket or the end of the line. -/
def endsValue : List Char → Bool
  | [] => false
  | c :: _ => c == ',' || c == '\n' || (Bracket.ofCloser? c).isSome

abbrev EndsValue (text : List Char) : Prop := endsValue text = true

/-- Neither a run of words nor a number goes on into the text. -/
def EndsInline (text : List Char) : Prop := EndsRun text ∧ text.head? ≠ some '.'

theorem exists_of_endsValue {text : List Char} (h : EndsValue text) :
    ∃ c rest, text = c :: rest ∧ (c = ',' ∨ c = '\n' ∨ ∃ b : Bracket, c = b.closer) := by
  cases text with
  | nil => exact nomatch h
  | cons c rest =>
    refine ⟨c, rest, rfl, ?_⟩
    simp only [EndsValue, endsValue, Bool.or_eq_true, beq_iff_eq] at h
    rcases h with (hc | hc) | hc
    · exact .inl hc
    · exact .inr (.inl hc)
    · refine .inr (.inr ?_)
      unfold Bracket.ofCloser? at hc
      split at hc
      · exact ⟨.paren, rfl⟩
      · exact ⟨.square, rfl⟩
      · exact ⟨.curly, rfl⟩
      · exact nomatch hc

theorem endsValue_of_newline {rest : List Char} (h : rest.head? = some '\n') : EndsValue rest := by
  obtain ⟨rest', rfl⟩ := List.head?_eq_some_iff.mp h
  rfl

theorem endsRun_of_endsValue {text : List Char} (h : EndsValue text) : EndsRun text := by
  obtain ⟨c, rest, rfl, rfl | rfl | ⟨b, rfl⟩⟩ := exists_of_endsValue h
  · rfl
  · rfl
  · cases b <;> rfl

theorem EndsInline.endsNumber {text : List Char} (h : EndsInline text) : EndsNumber text :=
  ⟨endsWord_of_endsRun h.1, h.2⟩

theorem endsInline_of_endsValue {text : List Char} (h : EndsValue text) : EndsInline text := by
  refine ⟨endsRun_of_endsValue h, ?_⟩
  obtain ⟨c, rest, rfl, rfl | rfl | ⟨b, rfl⟩⟩ := exists_of_endsValue h
  · simp
  · simp
  · cases b <;> simp [Bracket.closer]

namespace Mode

/-- The modes in which values are read. -/
def OfValue (m : Mode) : Prop := m = .default ∨ m = .booleanContext

/-- Literal words are preferred from now on, if it is so. -/
def preferring (preferred : Bool) (m : Mode) : Mode := if preferred then .booleanContext else m

variable {m : Mode}

theorem OfValue.preferring (h : m.OfValue) (preferred : Bool) :
    (m.preferring preferred).OfValue := by
  cases preferred with
  | false => exact h
  | true => exact .inr rfl

theorem preferring_booleanContext (preferred : Bool) :
    booleanContext.preferring preferred = booleanContext := by
  cases preferred <;> rfl

/-- Every part has its own effect on what is preferred, and together they have all of them. -/
theorem eq_of_foldlM {α : Type} {after : Mode → α → Option Mode} {preferred : α → Bool}
    {xs : List α} (h : ∀ x ∈ xs, ∀ m m', after m x = some m' → m' = m.preferring (preferred x))
    {m' : Mode} (hxs : xs.foldlM after m = some m') : m' = m.preferring (xs.any preferred) := by
  induction xs generalizing m with
  | nil =>
    cases hxs
    rfl
  | cons x xs ih =>
    rw [List.forall_mem_cons] at h
    rw [List.foldlM_cons] at hxs
    obtain ⟨m₁, hx, hxs⟩ := Option.bind_eq_some_iff.mp hxs
    rw [ih h.2 hxs, h.1 m m₁ hx, List.any_cons]
    cases preferred x with
    | false => rfl
    | true => exact preferring_booleanContext _

theorem foldlM_eq_self {α : Type} {after : Mode → α → Option Mode} {xs : List α}
    (h : ∀ x ∈ xs, after m x = some m) : xs.foldlM after m = some m := by
  induction xs with
  | nil => rfl
  | cons x xs ih =>
    rw [List.forall_mem_cons] at h
    rw [List.foldlM_cons, h.1]
    exact ih h.2

end Mode

/-- Whether there is an entry of a dictionary anywhere in the value. -/
def Writing.Inline.hasEntries : Inline → Bool :=
  make ⟨fun _ => false, fun _ parts => parts.any id, fun entries => !entries.isEmpty⟩

theorem Writing.Inline.hasEntries_list (b : ListBracket) (items : List Inline) :
    (list b items).hasEntries = items.any hasEntries := by
  rw [hasEntries, make_list]
  exact List.any_map

theorem Writing.Inline.hasEntries_dictionary (entries : List (String × Inline)) :
    (dictionary entries).hasEntries = entries.any fun _ => true := by
  rw [hasEntries, make_dictionary]
  cases entries <;> rfl

/-- The mode behind a value that is read in a mode, where a value is read at all: no name in it may
begin with a literal word where these are preferred. -/
def Writing.Inline.modeBehind? : Inline → Mode → Option Mode :=
  make ⟨fun s m => if m.prefersLiterals && !s.isFree then none else some m,
    fun _ parts m => parts.foldlM (fun m part => part m) m,
    fun entries m => entries.foldlM (fun _ e => e.2 .booleanContext) m⟩

theorem Writing.Inline.modeBehind?_scalar (s : Scalar) (m : Mode) :
    (scalar s).modeBehind? m = if m.prefersLiterals && !s.isFree then none else some m := rfl

theorem Writing.Inline.modeBehind?_list (b : ListBracket) (items : List Inline) (m : Mode) :
    (list b items).modeBehind? m = items.foldlM (fun m v => v.modeBehind? m) m := by
  rw [modeBehind?, make_list]
  exact List.foldlM_map

theorem Writing.Inline.modeBehind?_dictionary (entries : List (String × Inline)) (m : Mode) :
    (dictionary entries).modeBehind? m =
      entries.foldlM (fun _ e => e.2.modeBehind? .booleanContext) m := by
  rw [modeBehind?, make_dictionary]
  exact List.foldlM_map

/-- Behind a value literal words are preferred if they were, or if there is an entry in it. -/
theorem Writing.Inline.eq_of_modeBehind? {v : Inline} {m m' : Mode}
    (h : v.modeBehind? m = some m') :
    m' = m.preferring v.hasEntries := by
  induction v using Inline.ind generalizing m m' with
  | scalar s =>
    rw [modeBehind?_scalar] at h
    split_ifs at h
    cases h
    rfl
  | list b items ih =>
    rw [modeBehind?_list] at h
    rw [hasEntries_list]
    exact Mode.eq_of_foldlM (fun v hv m m' h => ih v hv h) h
  | dictionary entries ih =>
    rw [modeBehind?_dictionary] at h
    rw [hasEntries_dictionary]
    refine Mode.eq_of_foldlM (fun e he m m' h => ?_) h
    rw [ih e he h]
    exact Mode.preferring_booleanContext _

/-- With free names only a value is read also where literal words are preferred. -/
theorem Writing.Inline.modeBehind?_of_isFree {v : Inline} (h : v.isFree = true) :
    v.modeBehind? .booleanContext = some .booleanContext := by
  induction v using Inline.ind with
  | scalar s =>
    have hs : s.isFree = true := h
    rw [modeBehind?_scalar, hs]
    rfl
  | list b items ih =>
    rw [isFree_list, List.all_eq_true] at h
    rw [modeBehind?_list]
    exact Mode.foldlM_eq_self fun v hv => ih v hv (h v hv)
  | dictionary entries ih =>
    rw [isFree_dictionary, List.all_eq_true] at h
    rw [modeBehind?_dictionary]
    exact Mode.foldlM_eq_self fun e he => ih e he (h e he)

theorem LiteralWord.mem_all (w : LiteralWord) : w ∈ all := by
  cases w with
  | boolean b => cases b <;> decide
  | null => decide

/-- A literal word is one capitalized word or one word in lower case, and no other literal. -/
theorem Writing.Spelling.isWord (l : Spelling) :
    (isProperRun l.text.toList = true ∧ l.text.toList.takeWhile (· != ' ') = l.text.toList ∧
      TokenKind.ofLiteralWord? l.text = some (.literal l.word)) ∨
    (isLowerWord l.text.toList = true ∧ TokenKind.ofKeyword? l.text = some (.literal l.word)) :=
  (by decide : ∀ w ∈ LiteralWord.all, ∀ s ∈ w.words,
    (isProperRun s.toList = true ∧ s.toList.takeWhile (· != ' ') = s.toList ∧
      TokenKind.ofLiteralWord? s = some (.literal w)) ∨
    (isLowerWord s.toList = true ∧ TokenKind.ofKeyword? s = some (.literal w)))
    l.word l.word.mem_all l.text l.spells

section

variable {m : Mode} (hm : m.OfValue)

include hm

theorem readsAs_plainName (n : PlainName) (hfree : m.prefersLiterals = true → n.isFree = true) :
    WithinLine (· = m) Anything n.text.toList [n.form] (· = m) EndsRun := by
  obtain ⟨name, hplain⟩ := n
  cases name with
  | proper run =>
    rw [Name.isPlain, Option.isNone_iff_eq_none] at hplain
    refine (readsAs_run run m fun hm => Option.isNone_iff_eq_none.mp (hfree hm)).imp ?_
    rintro t ⟨hkind, htext⟩
    refine ⟨.inl (hkind.trans ?_), htext⟩
    rcases hm with rfl | rfl <;> simp [Mode.properWordKind, Mode.recognizesKeywords, hplain]
  | lower word =>
    rw [Name.isPlain, Option.isNone_iff_eq_none] at hplain
    have hkind : m.wordKind word.text = .commonNoun := by
      rcases hm with rfl | rfl <;>
        simp [Mode.wordKind, Mode.prefersTypeNames, Mode.recognizesKeywords, hplain]
    have hword := readsAs_plainWord word m (by rw [hkind]; rfl)
    refine (hword.around (fun _ hb => hb) fun _ => endsWord_of_endsRun).imp ?_
    rintro t ⟨hk, htext⟩
    exact ⟨.inr (hk.trans hkind), htext⟩

theorem readsAs_spelling (l : Spelling) :
    WithinLine (· = m) Anything l.text.toList [.ofKind (.literal l.word)] (· = m) EndsRun := by
  rcases l.isWord with ⟨hrun, hone, hliteral⟩ | ⟨hword, hliteral⟩
  · have hfirst : (ProperRun.mk l.text hrun).firstSegment = l.text := by
      rw [ProperRun.firstSegment, hone, String.ofList_toList]
    rcases hm with rfl | rfl
    · refine (readsAs_run ⟨l.text, hrun⟩ .default fun h => absurd h (by decide)).imp ?_
      rintro t ⟨hk, -⟩
      refine hk.trans ?_
      simp [Mode.properWordKind, Mode.recognizesKeywords, hliteral]
    · have htext : l.text.toList = (ProperRun.mk l.text hrun).firstSegment.toList ++ [] := by
        rw [hfirst, List.append_nil]
      have hsegment := readsAs_firstSegment ⟨l.text, hrun⟩ (m := .booleanContext) rfl
        (hfirst.symm ▸ hliteral) htext
      rw [hfirst] at hsegment
      exact (hsegment.around (fun _ hb => hb) fun rest hf => ⟨rest, rfl, hf⟩).imp fun _ ht => ht.1
  · have hkind : m.wordKind l.text = .literal l.word := by
      rcases hm with rfl | rfl <;>
        simp [Mode.wordKind, Mode.prefersTypeNames, Mode.recognizesKeywords, hliteral]
    have hread := readsAs_plainWord ⟨l.text, hword⟩ m (by rw [hkind]; rfl)
    refine (hread.around (fun _ hb => hb) fun _ => endsWord_of_endsRun).imp ?_
    rintro t ⟨hk, -⟩
    exact hk.trans hkind

theorem readsAs_identifier (first : PlainName) (more : List PlainName)
    (hfree : m.prefersLiterals = true → (Scalar.identifier first more).isFree = true) :
    WithinLine (· = m) Anything (Scalar.identifier first more).text
      (Scalar.identifier first more).forms (· = m) EndsRun := by
  simp only [Scalar.isFree, List.all_eq_true, List.forall_mem_cons] at hfree
  have hmore : WithinLine (· = m) Anything (eachBehind "." (·.text.toList) more)
      (more.flatMap fun n => [.ofKind .dot, n.form]) (· = m) EndsRun :=
    readsAs_eachBehind (fun n hn => readsAs_dot.append
      (readsAs_plainName hm n fun h => (hfree h).2 n hn) (fun _ _ => trivial) fun _ _ => trivial)
      fun _ _ => rfl
  exact (readsAs_plainName hm first fun h => (hfree h).1).append hmore (fun _ _ => trivial)
    fun _ => endsRun_eachBehind (fun _ _ => rfl) more

theorem readsAs_scalar (s : Scalar) (hfree : m.prefersLiterals = true → s.isFree = true) :
    WithinLine (· = m) BeginsValue s.text s.forms (· = m) EndsInline := by
  cases s with
  | string text => exact (readsAs_string text).around (fun _ _ => trivial) fun _ _ => trivial
  | number n =>
    exact (readsAs_number n).around (fun _ _ => trivial) fun _ => EndsInline.endsNumber
  | literal l => exact (readsAs_spelling hm l).around (fun _ _ => trivial) fun _ hf => hf.1
  | atom a =>
    exact (readsAs_atom a).around (fun _ hb => hb) fun _ hf => endsWord_of_endsRun hf.1
  | identifier first more =>
    exact (readsAs_identifier hm first more hfree).around (fun _ _ => trivial) fun _ hf => hf.1
  | typeTag t => exact (readsAs_typeTag t).around (fun _ _ => trivial) fun _ _ => trivial

end

section

variable {α : Type} {text : α → List Char} {forms : α → List TokenForm}
  {after : Mode → α → Option Mode} {xs : List α} {m m' : Mode}
  (hafter : ∀ x m m', m.OfValue → after m x = some m' → m'.OfValue)
  (h : ∀ x ∈ xs, ∀ m m' : Mode, m.OfValue → after m x = some m' →
    WithinLine (· = m) BeginsValue (text x) (forms x) (· = m') EndsValue)
  (hm : m.OfValue) (hxs : xs.foldlM after m = some m')

include hafter h hm hxs

/-- Parts with commas and blanks between them. -/
theorem readsAs_between :
    WithinLine (· = m) BeginsValue (Inline.between ", ".toList (xs.map text))
      (Inline.between [.ofKind .comma] (xs.map forms)) (· = m') EndsValue := by
  cases xs with
  | nil =>
    cases hxs
    exact .nil
  | cons x xs =>
    rw [List.forall_mem_cons] at h
    rw [List.foldlM_cons] at hxs
    obtain ⟨m₁, hx, hxs⟩ := Option.bind_eq_some_iff.mp hxs
    have hmore : WithinLine (· = m₁) Anything (eachBehind ", " text xs)
        (xs.flatMap fun x => [.ofKind .comma] ++ forms x) (· = m') EndsValue :=
      readsAs_eachBehind_modes hafter (fun y hy m m' hm hy' =>
        readsAs_comma.append (readsAs_blank_then (h.2 y hy m m' hm hy') rfl) (fun _ _ => trivial)
          fun _ _ => trivial) (fun _ _ => rfl) (hafter x m m₁ hm hx) hxs
    rw [Inline.between_map_cons, Inline.between_map_cons]
    refine (h.1 m m₁ hm hx).append hmore (fun _ _ => trivial) fun rest hrest => ?_
    cases xs with
    | nil => exact hrest
    | cons y xs => rfl

theorem readsAs_bracketed (b : Bracket) :
    WithinLine (· = m) Anything (Inline.bracketed b (xs.map text))
      (Inline.bracketedForms b (xs.map forms)) (· = m') Anything := by
  intro levels brackets
  have hinside := (readsAs_between hafter h hm hxs levels (b :: brackets)).append (readsAs_closer b)
    (fun _ _ => trivial) fun _ _ => by cases b <;> rfl
  exact (readsAs_opener b).append hinside (fun _ _ => by cases b <;> rfl) fun _ _ => trivial

end

theorem opensLine_number (n : NumberLiteral) (rest : List Char) : OpensLine (n.text ++ rest) := by
  obtain ⟨c, digits, hdigits, hc, -⟩ := n.whole.exists_cons
  have htext : n.text = n.signText ++ (c :: digits ++ (n.fractionText ++ n.exponentText)) := by
    rw [NumberLiteral.text, hdigits]
  rw [htext, NumberLiteral.signText]
  cases n.isNegative with
  | true => exact ⟨'-', _, rfl, rfl, rfl, by decide⟩
  | false => exact ⟨c, _, rfl, significant_of_isWordChar (isWordChar_of_isDigit hc)⟩

theorem opensLine_spelling (l : Spelling) (rest : List Char) :
    OpensLine (l.text.toList ++ rest) := by
  rcases l.isWord with ⟨hrun, -⟩ | ⟨hword, -⟩
  · exact opensLine_name (.proper ⟨l.text, hrun⟩) rest
  · exact opensLine_name (.lower ⟨l.text, hword⟩) rest

theorem Writing.Inline.opensLine_text (v : Inline) (rest : List Char) :
    OpensLine (v.text ++ rest) := by
  cases v with
  | scalar s =>
    cases s with
    | string text => exact opensLine_quoted text rest
    | number n => exact opensLine_number n rest
    | literal l => exact opensLine_spelling l rest
    | atom a => exact opensLine_atom a rest
    | identifier first more =>
      have htext : (scalar (.identifier first more)).text ++ rest =
          first.text.toList ++ (eachBehind "." (·.text.toList) more ++ rest) :=
        List.append_assoc _ _ _
      rw [htext]
      exact opensLine_name first.name _
    | typeTag t => exact ⟨'<', _, rfl, rfl, rfl, by decide⟩
  | list b items =>
    rw [text_list]
    cases b
    · exact ⟨'(', _, rfl, rfl, rfl, by decide⟩
    · exact ⟨'[', _, rfl, rfl, rfl, by decide⟩
  | dictionary entries =>
    rw [text_dictionary]
    exact ⟨'\x7b', _, rfl, rfl, rfl, by decide⟩

/-- A value is read where a value can begin and no name in it is divided. -/
theorem readsAs_inline_of {v : Inline} {m m' : Mode} (hm : m.OfValue)
    (h : v.modeBehind? m = some m') :
    WithinLine (· = m) BeginsValue v.text v.forms (· = m') EndsInline := by
  have hvalid (v : Inline) (m m' : Mode) (hm : m.OfValue) (h : v.modeBehind? m = some m') :
      m'.OfValue := by
    rw [v.eq_of_modeBehind? h]
    exact hm.preferring _
  induction v using Inline.ind generalizing m m' with
  | scalar s =>
    rw [Inline.modeBehind?_scalar] at h
    split_ifs at h with hfree
    cases h
    exact readsAs_scalar hm s fun hm => by simpa [hm] using hfree
  | list b items ih =>
    rw [Inline.modeBehind?_list] at h
    rw [Inline.text_list, Inline.forms_list]
    refine (readsAs_bracketed hvalid (fun v hv m m' hm h => ?_) hm h b.bracket).around
      (fun _ _ => trivial) fun _ _ => trivial
    exact (ih v hv hm h).around (fun _ hb => hb) fun _ => endsInline_of_endsValue
  | dictionary entries ih =>
    rw [Inline.modeBehind?_dictionary] at h
    rw [Inline.text_dictionary, Inline.forms_dictionary]
    refine (readsAs_bracketed (fun e _ m' _ h => hvalid e.2 _ m' (.inr rfl) h)
      (fun e he m m' hm h => ?_) hm h .curly).around (fun _ _ => trivial) fun _ _ => trivial
    have hvalue : WithinLine (· = m) Anything _ _ _ _ :=
      readsAs_colon_then (ih e he (.inr rfl) h) rfl e.2.opensLine_text
    exact ((readsAs_string e.1).append hvalue (fun _ _ => trivial) fun _ _ => trivial).around
      (fun _ _ => trivial) fun _ => endsInline_of_endsValue

/-- Behind a colon literal words stay preferred. -/
theorem readsAs_inline {v : Inline} (h : v.isFree = true) :
    WithinLine (· = .booleanContext) BeginsValue v.text v.forms (· = .booleanContext)
      EndsValue :=
  (readsAs_inline_of (.inr rfl) (v.modeBehind?_of_isFree h)).around (fun _ hb => hb)
    fun _ => endsInline_of_endsValue

end AgentScript
