import AgentScript.Proofs.Writing.FlowAgents
import AgentScript.Proofs.Writing.InlineTrees

/-!
# Branches under values

The condition of a branch can be any inline value that is read there. Behind an entry of a
dictionary literal words are preferred up to the end of the line, so a destination that begins with
a literal word is not read as a whole there. Otherwise the condition makes no difference to the
destinations.
-/
namespace AgentScript

open CharClass Lexeme Writing

/-- A line `when condition -> first -> ...`. Names in the condition can begin with a literal word as
long as they do not stand behind an entry of a dictionary. -/
structure ConditionalBranch where
  condition : Inline
  isRead : (condition.modeBehind? .default).isSome = true
  first : ProperRun
  more : List ProperRun

/-- A chain of operands with branches below it. -/
structure ConditionalRule where
  chain : Script.Rule
  branches : List ConditionalBranch

/-- Whether the run begins with a literal word and goes on. -/
def Writing.ProperRun.isDivided (run : ProperRun) : Bool :=
  (TokenKind.ofLiteralWord? run.firstSegment).isSome && run.firstSegment != run.text

namespace ConditionalBranch

def destinations (b : ConditionalBranch) : List ProperRun := b.first :: b.more

def text (b : ConditionalBranch) : List Char :=
  "when ".toList ++ b.condition.text ++ eachBehind " -> " (·.text.toList) b.destinations

def forms (b : ConditionalBranch) : List TokenForm :=
  .ofKind (.keyword .whenWord) :: b.condition.forms ++
    b.destinations.flatMap fun d => [.ofKind .arrow, .word d.text]

def tree (b : ConditionalBranch) : WhenClause :=
  ⟨b.condition.tree, b.destinations.map fun d => ⟨.identifier, d.text, none⟩, none, none⟩

/-- No destination is divided where the condition has an entry of a dictionary. -/
def KeepsDestinations (b : ConditionalBranch) : Prop :=
  b.condition.hasEntries = true → ∀ d ∈ b.destinations, d.isDivided = false

end ConditionalBranch

namespace ConditionalRule

inductive Line
  | chain (r : Script.Rule)
  | branch (b : ConditionalBranch)

def Line.text : Line → List Char
  | chain r => (Script.Line.rule r).text
  | branch b => b.text

def Line.forms : Line → List TokenForm
  | chain r => (Script.Line.rule r).forms
  | branch b => b.forms

def tree (r : ConditionalRule) : FlowRule :=
  { r.chain.tree with whenClauses := r.branches.map ConditionalBranch.tree }

/-- The branches stand below the chain. -/
def style : RuleStyle ConditionalRule Line :=
  ⟨fun r => .chain r.chain, fun r => r.branches.map .branch, Line.text, tree⟩

end ConditionalRule

section

variable {m : Mode}

/-- Where literal words are preferred one that begins a run is a word of its own. -/
theorem readsAs_segment {d : ProperRun} {k : TokenKind} {tail : List Char}
    (hm : m.prefersLiterals = true) (hk : TokenKind.ofLiteralWord? d.firstSegment = some k)
    (htext : d.text.toList = d.firstSegment.toList ++ tail) :
    WithinLine (· = m) Anything d.firstSegment.toList [.word d.firstSegment] (· = m)
      fun rest => ∃ behind, rest = tail ++ behind ∧ EndsRun behind := by
  refine (readsAs_firstSegment d hm hk htext).imp ?_
  rintro t ⟨hkind, hspelled⟩
  refine ⟨?_, hspelled⟩
  obtain ⟨w, -, rfl⟩ := Option.map_eq_some_iff.mp hk
  rw [hkind]
  rfl

/-- A run that is not divided is one word, also where literal words are preferred. -/
theorem readsAs_destination (d : ProperRun) (h : m.prefersLiterals = true → d.isDivided = false) :
    WithinLine (· = m) Anything d.text.toList [.word d.text] (· = m) EndsRun := by
  by_cases hfree : m.prefersLiterals = true → TokenKind.ofLiteralWord? d.firstSegment = none
  · refine (readsAs_run d m hfree).imp ?_
    rintro t ⟨hkind, htext⟩
    exact TokenForm.word_of_properName ⟨hkind ▸ Mode.properWordKind_eq m d.text, htext⟩
  · obtain ⟨hprefers, hliteral⟩ := Classical.not_imp.mp hfree
    obtain ⟨k, hk⟩ := Option.ne_none_iff_exists'.mp hliteral
    have hone : d.firstSegment = d.text := by simpa [ProperRun.isDivided, hk] using h hprefers
    have htext : d.text.toList = d.firstSegment.toList ++ [] := by rw [hone, List.append_nil]
    have hsegment := readsAs_segment hprefers hk htext
    rw [hone] at hsegment
    exact hsegment.around (fun _ hb => hb) fun rest hf => ⟨rest, rfl, hf⟩

theorem endsInline_arrow (rest : List Char) : EndsInline (' ' :: '-' :: rest) :=
  ⟨rfl, by simp⟩

theorem readsAs_arrows {ds : List ProperRun}
    (h : m.prefersLiterals = true → ∀ d ∈ ds, d.isDivided = false) :
    WithinLine (· = m) Anything (eachBehind " -> " (·.text.toList) ds)
      (ds.flatMap fun d => [.ofKind .arrow, .word d.text]) (· = m) EndsRun :=
  readsAs_eachBehind (fun d hd => readsAs_blank_then (readsAs_arrow.append (readsAs_blank_then
    (readsAs_destination d fun hprefers => h hprefers d hd) trivial) (fun _ _ => trivial)
    fun _ _ => trivial) trivial) fun _ _ => rfl

end

namespace ConditionalBranch

/-- The mode in which the destinations are read. -/
def mode (b : ConditionalBranch) : Mode := Mode.default.preferring b.condition.hasEntries

theorem prefersLiterals_mode (b : ConditionalBranch) :
    b.mode.prefersLiterals = b.condition.hasEntries := by
  rw [mode]
  cases b.condition.hasEntries <;> rfl

theorem modeBehind?_condition (b : ConditionalBranch) :
    b.condition.modeBehind? .default = some b.mode := by
  obtain ⟨m, hm⟩ := Option.isSome_iff_exists.mp b.isRead
  rw [hm, b.condition.eq_of_modeBehind? hm]
  rfl

theorem readsAs_condition (b : ConditionalBranch) :
    WithinLine (· = .default) Anything ("when ".toList ++ b.condition.text)
      (.ofKind (.keyword .whenWord) :: b.condition.forms) (· = b.mode) EndsInline :=
  (readsAs_keyword .whenWord rfl).append
    (readsAs_blank_then (readsAs_inline_of (.inl rfl) b.modeBehind?_condition) rfl)
    (fun _ _ => trivial) fun _ _ => rfl

theorem opensLine_text (b : ConditionalBranch) : OpensLine b.text :=
  ⟨'w', _, rfl, significant_of_isWordChar rfl⟩

theorem lineReadsAs {b : ConditionalBranch} (h : b.KeepsDestinations) :
    LineReadsAs b.text b.forms := by
  have hdestinations : WithinLine (· = b.mode) Anything
      (eachBehind " -> " (·.text.toList) b.destinations)
      (b.destinations.flatMap fun d => [.ofKind .arrow, .word d.text]) (· = b.mode) EndsRun :=
    readsAs_arrows (by rwa [prefersLiterals_mode])
  have hline := b.readsAs_condition.append hdestinations (fun _ _ => trivial)
    fun _ _ => endsInline_arrow _
  exact ⟨b.opensLine_text, (hline.around (fun _ _ => trivial) fun _ => endsRun_of_newline).widen
    fun _ _ => trivial⟩

end ConditionalBranch

/-- The kinds of tokens that a run can be read as from a segment on. -/
def TokenKind.IsSegment (k : TokenKind) : Prop :=
  k = .number ∨ k = .properWord ∨ ∃ w, k = .literal w

theorem TokenKind.isSegment_of_ofLiteralWord? {text : String} {k : TokenKind}
    (h : ofLiteralWord? text = some k) : k.IsSegment := by
  obtain ⟨w, -, rfl⟩ := Option.map_eq_some_iff.mp h
  exact .inr (.inr ⟨w, rfl⟩)

theorem Mode.isSegment_properWordKind (m : Mode) (run : String) :
    (m.properWordKind run).IsSegment := by
  unfold properWordKind
  split_ifs
  · cases hk : TokenKind.ofLiteralWord? run with
    | none => exact .inr (.inl rfl)
    | some k => exact TokenKind.isSegment_of_ofLiteralWord? hk
  · exact .inr (.inl rfl)

theorem Parser.isStray_of_isSegment {k : TokenKind} (h : k.IsSegment) : IsStray k := by
  rcases h with rfl | rfl | ⟨w, rfl⟩ <;> exact ⟨rfl, by simp, by simp⟩

theorem Round.exists_properWord (l : Layout) (text : List Char) :
    ∃ kind n, properWord l text = single l kind n ∧ kind.IsSegment := by
  unfold properWord
  dsimp only
  split
  · next kind hkind =>
    split_ifs at hkind
    exact ⟨kind, _, rfl, TokenKind.isSegment_of_ofLiteralWord? hkind⟩
  · exact ⟨_, _, rfl, Mode.isSegment_properWordKind _ _⟩

/-- Where a segment of a run can begin there is one more token. -/
theorem Reading.gathers_segment {levels : List Nat} {modes : Mode → Prop} {r : Reading} {c : Char}
    {more : List Char} (hl : r.layout.InLine levels [] modes) (hr : r.rest = c :: more)
    (hc : isUppercase c = true ∨ isDigit c = true) :
    ∃ r', r.Gathers r' [fun t => t.kind.IsSegment] := by
  have hround : Round.next r.layout r.transcript.cursor = Round.within r.layout
      r.transcript.cursor.previous r.transcript.cursor.position c (c :: more) :=
    Round.next_within hl.beginsLine_eq hr
  have hword : isWordChar c = true := by
    rcases hc with hupper | hdigit
    · exact isWordChar_of_isAlphabetic (isAlphabetic_of_isUppercase hupper)
    · exact isWordChar_of_isDigit hdigit
  rw [Round.within_of_isWordChar hword] at hround
  have hne : r.rest ≠ [] := by simp [hr]
  cases hdigit : isDigit c with
  | true =>
    rw [hdigit, if_pos rfl] at hround
    exact ⟨r.round, gathers_round hne hround fun _ _ _ => .inl rfl⟩
  | false =>
    obtain ⟨kind, n, hproper, hkind⟩ := Round.exists_properWord r.layout (c :: more)
    rw [hdigit, if_neg Bool.false_ne_true, if_pos (hc.resolve_right (by simp [hdigit])),
      hproper] at hround
    exact ⟨r.round, gathers_round hne hround fun _ _ _ => hkind⟩

/-- A literal word can serve as a name. -/
theorem exists_name_of_literal {text : String} {k : TokenKind}
    (h : TokenKind.ofLiteralWord? text = some k) : ∃ n : Name, n.text = text := by
  obtain ⟨w, hw, -⟩ := Option.map_eq_some_iff.mp h
  rcases Spelling.isWord ⟨w, text, LiteralWord.mem_words_of_ofWord? hw⟩ with ⟨hrun, -⟩ | ⟨hword, -⟩
  · exact ⟨.proper ⟨text, hrun⟩, rfl⟩
  · exact ⟨.lower ⟨text, hword⟩, rfl⟩

namespace ConditionalBranch

/-- The text up to the first segment of a destination. -/
def textUpTo (b : ConditionalBranch) (before : List ProperRun) (d : ProperRun) : List Char :=
  "when ".toList ++ b.condition.text ++ (eachBehind " -> " (·.text.toList) before ++
    (' ' :: (['-', '>'] ++ ' ' :: d.firstSegment.toList)))

/-- The tokens up to the first segment of a destination. -/
def formsUpTo (b : ConditionalBranch) (before : List ProperRun) (d : ProperRun) : List TokenForm :=
  .ofKind (.keyword .whenWord) :: b.condition.forms ++
    (before.flatMap (fun d => [.ofKind .arrow, .word d.text]) ++
      [.ofKind .arrow, .word d.firstSegment])

theorem text_eq_textUpTo {b : ConditionalBranch} {before after : List ProperRun} {d : ProperRun}
    {behind : List Char} (hds : b.destinations = before ++ d :: after)
    (htext : d.text.toList = d.firstSegment.toList ++ behind) :
    b.text = b.textUpTo before d ++ (behind ++ eachBehind " -> " (·.text.toList) after) := by
  have harrows : eachBehind " -> " (·.text.toList) b.destinations =
      eachBehind " -> " (·.text.toList) before ++
        (" -> ".toList ++ (d.firstSegment.toList ++ behind) ++
          eachBehind " -> " (·.text.toList) after) := by
    rw [hds, eachBehind_append_cons, htext]
  unfold text textUpTo
  rw [harrows]
  simp only [List.append_assoc]
  rfl

/-- Where literal words are preferred the arrow in front of a divided destination leads to its first
segment. -/
theorem readsAs_textUpTo {b : ConditionalBranch} {before : List ProperRun} {d : ProperRun}
    {k : TokenKind} {behind : List Char} (hmode : b.mode = .booleanContext)
    (hbefore : ∀ d ∈ before, d.isDivided = false)
    (hk : TokenKind.ofLiteralWord? d.firstSegment = some k)
    (htext : d.text.toList = d.firstSegment.toList ++ behind) :
    WithinLine (· = .default) Anything (b.textUpTo before d) (b.formsUpTo before d)
      (· = .booleanContext) fun rest => ∃ more, rest = behind ++ more ∧ EndsRun more := by
  have hcondition := b.readsAs_condition
  rw [hmode] at hcondition
  have hprefers : Mode.booleanContext.prefersLiterals = true := rfl
  have harrow := readsAs_blank_then (readsAs_arrow.append (readsAs_blank_then
    (readsAs_segment hprefers hk htext) trivial) (fun _ _ => trivial) fun _ _ => trivial) trivial
  have hdestinations := (readsAs_arrows fun _ => hbefore).append harrow (fun _ _ => trivial)
    fun _ _ => rfl
  exact hcondition.append hdestinations (fun _ _ => trivial) fun rest _ => by
    cases before <;> exact endsInline_arrow _

/-- A branch is read up to the second segment of the first destination that is divided. -/
theorem lineBegins {b : ConditionalBranch} {before after : List ProperRun} {d : ProperRun}
    (hentries : b.condition.hasEntries = true) (hds : b.destinations = before ++ d :: after)
    (hbefore : ∀ d ∈ before, d.isDivided = false) (hd : d.isDivided = true) :
    LineBegins b.text (b.formsUpTo before d) TokenKind.IsSegment := by
  have hmode : b.mode = .booleanContext := by rw [mode, hentries]; rfl
  rw [ProperRun.isDivided, Bool.and_eq_true, bne_iff_ne] at hd
  obtain ⟨k, hk⟩ := Option.isSome_iff_exists.mp hd.1
  obtain ⟨c, more, htext, hc⟩ := ProperRun.exists_tail hd.2
  have hline := readsAs_textUpTo hmode hbefore hk htext
  have hsplit := text_eq_textUpTo hds htext
  rw [hsplit]
  refine .of_withinLine (hsplit ▸ b.opensLine_text)
    (hline.around (fun _ _ => trivial) fun _ hf => hf) (fun rest => ?_)
    fun levels r rest hl hr => ?_
  · exact ⟨eachBehind " -> " (·.text.toList) after ++ '\n' :: rest, List.append_assoc _ _ _,
      endsRun_eachBehind (fun _ _ => rfl) after rfl⟩
  · -- What the second segment is read as depends on what follows, but it is a segment in any case.
    obtain ⟨r₁, hblank, hl₁⟩ := readsAs_blank levels [] hl trivial hr trivial
    obtain ⟨r₂, hgathers⟩ := Reading.gathers_segment hl₁ (hblank.rest_eq hr) hc
    exact ⟨r₂, hblank.gathers.trans hgathers⟩

open AgentScript.Parser

/-- The destinations as operands. -/
def operand (d : ProperRun) : Script.Operand := .name (.proper d)

theorem forms_destinations (ds : List ProperRun) :
    (ds.map operand).flatMap (fun o => [.ofKind .arrow, o.form]) =
      ds.flatMap fun d => [TokenForm.ofKind .arrow, .word d.text] :=
  List.flatMap_map _ _ _

theorem accepts_condition (b : ConditionalBranch) :
    inlineValue.Accepts b.condition.forms (· = .arrow) (·.erased = b.condition.tree) :=
  accepts_inlineValue b.condition fun k hk => by rw [hk]; decide

theorem accepts (b : ConditionalBranch) :
    whenClause.Accepts (b.forms ++ [.ofKind .newline]) (· ≠ .indent) (·.erased = b.tree) := by
  have htree : b.tree = ⟨b.condition.tree, (b.destinations.map operand).map Script.Operand.tree,
      none, none⟩ := by
    rw [List.map_map]
    rfl
  rw [forms, ← forms_destinations, htree]
  exact accepts_whenClause_of b.accepts_condition (List.cons_ne_nil _ _)

theorem objects (b : ConditionalBranch) (before : List ProperRun) {d : ProperRun}
    (hd : d.isDivided = true) :
    whenClause.Objects (b.formsUpTo before d) TokenKind.IsSegment := by
  rw [ProperRun.isDivided, Bool.and_eq_true] at hd
  obtain ⟨k, hk⟩ := Option.isSome_iff_exists.mp hd.1
  obtain ⟨n, hn⟩ := exists_name_of_literal hk
  have hforms : b.formsUpTo before d = .ofKind (.keyword .whenWord) ::
      (b.condition.forms ++ (before.map operand ++ [Script.Operand.name n]).flatMap
        fun o => .ofKind .arrow :: [o.form]) := by
    rw [List.flatMap_append, forms_destinations, formsUpTo, ← hn]
    rfl
  rw [hforms]
  exact objects_whenClause_word b.accepts_condition b.condition.flat (by simp)
    fun _ => isStray_of_isSegment

end ConditionalBranch

namespace ConditionalRule

open AgentScript.Parser

theorem opens_line (l : Line) : Opens l.forms := by
  cases l with
  | chain r => exact ⟨_, _, rfl, onLine_operand r.source⟩
  | branch b => exact ⟨_, _, rfl, TokenForm.onLine_ofKind rfl⟩

/-- A branch with nothing below it. -/
def item (b : ConditionalBranch) : FlowLine Line × Outline (FlowLine Line) :=
  (.inner (.branch b), .nil)

theorem outline_style (r : ConditionalRule) :
    style.outline r = (.inner (.chain r.chain), .ofList (r.branches.map item)) := by
  rw [RuleStyle.outline, style, List.map_map]
  rfl

theorem accepts_item (b : ConditionalBranch) :
    whenClause.Accepts (Outline.itemForms (FlowLine.forms Line.forms) (item b)) (· ≠ .indent)
      (·.erased = b.tree) := b.accepts

theorem accepted {r : ConditionalRule} (h : ∀ b ∈ r.branches, b.KeepsDestinations) :
    style.Accepted Line.forms r := by
  refine ⟨fun l hl => ?_, ?_⟩
  · rcases List.mem_cons.mp hl with rfl | hbranch
    · exact Script.lineReadsAs_line (.rule r.chain)
    · obtain ⟨b, hb, rfl⟩ := List.mem_map.mp hbranch
      exact ConditionalBranch.lineReadsAs (h b hb)
  · rw [outline_style]
    exact accepts_flowRule_block r.chain
      (accepts_block_items (opens_flowLine opens_line) fun b _ => accepts_item b)

theorem objected {r : ConditionalRule} (h : ¬ ∀ b ∈ r.branches, b.KeepsDestinations) :
    style.Objected Line.forms r := by
  obtain ⟨before, b, after, hbranches, hbefore, hb⟩ := exists_first h
  obtain ⟨hentries, hds⟩ := Classical.not_imp.mp hb
  obtain ⟨first, d, more, hdestinations, hfirst, hd⟩ := exists_first hds
  rw [Bool.not_eq_false] at hd
  have hforms : Opens (b.formsUpTo first d) := ⟨_, _, rfl, TokenForm.onLine_ofKind rfl⟩
  have hitems : ∀ x ∈ before.map item, whenClause.Accepts
      (Outline.itemForms (FlowLine.forms Line.forms) x) (· ≠ .indent) Anything := by
    intro x hx
    obtain ⟨b', -, rfl⟩ := List.mem_map.mp hx
    exact (accepts_item b').imp fun _ _ => trivial
  refine ⟨_, _, ⟨_, _, rfl, onLine_operand r.chain.source⟩,
    objects_flowRule_below r.chain (opens_flowLine opens_line) hforms hitems (b.objects first hd),
    fun depth next => ?_⟩
  rw [outline_style, hbranches, List.map_append, List.map_cons]
  refine .inside (Script.lineReadsAs_line (.rule r.chain)) (.ofList (fun x hx => ?_)
    (.here (ConditionalBranch.lineBegins hentries hdestinations hfirst hd)))
  obtain ⟨b', hb', rfl⟩ := List.mem_map.mp hx
  exact ⟨ConditionalBranch.lineReadsAs (hbefore b' hb'), .nil _⟩

end ConditionalRule

/-- Branches under values are read as they were written, all of them without an error, exactly if no
destination begins with a literal word and goes on where the condition has an entry of a
dictionary. -/
theorem Document.readAs_conditional (a : FlowAgent ConditionalRule) (options : ParseOptions) :
    (Document.ofSource (a.print ConditionalRule.style) options).ReadAs
        (a.tree ConditionalRule.style) ↔
      ∀ f ∈ a.flows, ∀ r ∈ f.rules, ∀ b ∈ r.branches, b.condition.hasEntries = true →
        ∀ d ∈ b.destinations, d.isDivided = false :=
  FlowAgent.readAs_iff ConditionalRule.opens_line (fun _ => ConditionalRule.accepted)
    (fun _ => ConditionalRule.objected) options

/-- Names that begin with a literal word: in a condition before an entry, alone in a condition, and
as a destination under a condition without an entry. -/
def ConditionalRule.survey : ConditionalRule where
  chain := ⟨.name (.lower ⟨"basket", by decide⟩), .name (.proper ⟨"Ask", by decide⟩), []⟩
  branches :=
    [⟨.list .square [.scalar (.identifier ⟨.proper ⟨"Yes Please", by decide⟩, by decide⟩ []),
        .dictionary [("sure", .scalar (.literal ⟨.boolean true, "true", by decide⟩))]], by decide,
      ⟨"Thanks", by decide⟩, [⟨"Main Menu", by decide⟩]⟩,
    ⟨.scalar (.identifier ⟨.proper ⟨"No Thanks", by decide⟩, by decide⟩ []), by decide,
      ⟨"No Offer", by decide⟩, []⟩]

def ConditionalRule.shop : FlowAgent ConditionalRule :=
  ⟨.proper ⟨"Shop", by decide⟩, [⟨.proper ⟨"Offers", by decide⟩, [.survey]⟩]⟩

theorem Document.readAs_conditional_shop :
    ConditionalRule.shop.print ConditionalRule.style =
      "agent Shop:\n" ++
        "  flow Offers:\n" ++
        "    basket -> Ask\n" ++
        "      when [Yes Please, \x7b\"sure\": true\x7d] -> Thanks -> Main Menu\n" ++
        "      when No Thanks -> No Offer\n" ∧
      (Document.ofSource (ConditionalRule.shop.print ConditionalRule.style) .standard).ReadAs
        (ConditionalRule.shop.tree ConditionalRule.style) :=
  ⟨by decide +kernel, (readAs_conditional ConditionalRule.shop .standard).mpr (by decide)⟩

/-- The same destination is read under a string and is not under a dictionary. -/
theorem Document.parseErrors_conditional_entry :
    (Document.ofSource "agent A:\n  flow F:\n    B -> C\n      when \"a\" -> Yes Please\n"
      default).parseErrors.map (·.message) = [] ∧
    (Document.ofSource
      "agent A:\n  flow F:\n    B -> C\n      when \x7b\"a\": 1\x7d -> Yes Please\n"
      default).parseErrors.map (·.message) =
        ["expected end of line, found proper noun 'Please'"] := by
  decide +kernel

end AgentScript
