import AgentScript.Proofs.Writing.FlowAgents
import AgentScript.Proofs.Writing.InlineTrees

/-!
# Rules with parameters

A rule can pass parameters on behind its chain of operands. The keyword for that is read as a
keyword unless an operand is spelled like the keyword of a section: behind such a word all words of
the line are names, so the rule does not end where it should.
-/
namespace AgentScript

open CharClass Lexeme Writing

/-- A parameter of a with clause. -/
structure Parameter where
  key : LowerWord
  value : Inline
  isFree : value.isFree = true

/-- A chain of operands with a with clause behind it. -/
structure PassingRule where
  chain : Script.Rule
  first : Parameter
  more : List Parameter

namespace Parameter

def text (p : Parameter) : List Char := p.key.text.toList ++ (": ".toList ++ p.value.text)

def forms (p : Parameter) : List TokenForm :=
  [.word p.key.text] ++ ([.ofKind .colon] ++ p.value.forms)

def tree (p : Parameter) : Attribute := ⟨p.key.text, p.value.tree, none⟩

end Parameter

namespace PassingRule

def text (r : PassingRule) : List Char :=
  (Script.Line.rule r.chain).text ++
    (" with ".toList ++ (r.first.text ++ eachBehind ", " Parameter.text r.more))

def tree (r : PassingRule) : FlowRule :=
  { r.chain.tree with withClause := some ⟨(r.first :: r.more).map Parameter.tree, none⟩ }

/-- A rule takes one line. -/
def style : RuleStyle PassingRule PassingRule := ⟨id, fun _ => [], text, tree⟩

end PassingRule

namespace Script

/-- An operand is spelled like the keyword of a section. -/
def Operand.isSectionWord (o : Operand) : Bool :=
  SectionForm.all.any fun form => o.text == form.word.toList

def Rule.operands (r : Rule) : List Operand := r.source :: r.destination :: r.more

/-- The mode behind an operand that something else follows. -/
def Operand.modeBehind (m : Mode) (o : Operand) : Mode :=
  if m.recognizesKeywords && o.isSectionWord then .sectionName else m

end Script

theorem SectionForm.mem_all (form : SectionForm) : form ∈ all := by
  cases form <;> decide

/-- A word that opens a section is one of the keywords for that. -/
theorem TokenKind.isSectionKeyword_ofKeyword? (word : String) :
    ((ofKeyword? word).getD .commonNoun).isSectionKeyword = true ↔
      ∃ form : SectionForm, word = form.word := by
  unfold ofKeyword?
  constructor
  · cases hword : Keyword.ofWord? word with
    | none =>
      cases hliteral : LiteralWord.ofWord? word <;>
        simp [ofLiteralWord?, hliteral, isSectionKeyword]
    | some k =>
      have hk := Keyword.word_of_ofWord? hword
      cases k with
      | opening form => exact fun _ => ⟨form, hk.symm⟩
      | _ => simp [isSectionKeyword]
  · rintro ⟨form, rfl⟩
    have hword : Keyword.ofWord? form.word = some (.opening form) :=
      Keyword.ofWord?_word (.opening form)
    rw [hword]
    rfl

namespace Script

theorem Operand.isSectionWord_iff {o : Operand} :
    o.isSectionWord = true ↔ ∃ form : SectionForm, o.text = form.word.toList := by
  simp [isSectionWord, SectionForm.mem_all]

theorem Operand.isSectionWord_lower (w : LowerWord) :
    (name (.lower w)).isSectionWord =
      ((TokenKind.ofKeyword? w.text).getD .commonNoun).isSectionKeyword := by
  rw [Bool.eq_iff_iff, isSectionWord_iff, TokenKind.isSectionKeyword_ofKeyword?]
  exact exists_congr fun form => String.toList_inj

/-- In a mode that knows keywords those of sections are read as such. -/
theorem Operand.isSectionKeyword_wordKind (w : LowerWord) {m : Mode}
    (hm : m.prefersTypeNames = false) : (m.wordKind w.text).isSectionKeyword =
      (m.recognizesKeywords && (name (.lower w)).isSectionWord) := by
  rw [isSectionWord_lower, Mode.wordKind, hm, if_neg Bool.false_ne_true]
  cases m.recognizesKeywords <;> rfl

/-- The keywords of sections are in lower case. -/
theorem Operand.isSectionWord_eq_false {o : Operand} (h : isLowerWord o.text = false) :
    o.isSectionWord = false := by
  rw [Bool.eq_false_iff, ne_eq, isSectionWord_iff]
  rintro ⟨form, htext⟩
  rw [htext] at h
  cases form <;> exact absurd h (by decide)

end Script

namespace Mode

variable {m : Mode} {o : Script.Operand} {os : List Script.Operand}

theorem naming_modeBehind (hm : m.Naming) (o : Script.Operand) : (o.modeBehind m).Naming := by
  unfold Script.Operand.modeBehind
  split_ifs
  · exact naming_sectionName
  · exact hm

theorem modeBehind_eq (h : o.isSectionWord = false) : o.modeBehind m = m := by
  rw [Script.Operand.modeBehind, h, Bool.and_false, if_neg Bool.false_ne_true]

/-- One operand that is spelled like a keyword makes names of all words behind it. -/
theorem foldl_modeBehind (os : List Script.Operand) :
    os.foldl Script.Operand.modeBehind .default =
      if os.any Script.Operand.isSectionWord then .sectionName else .default := by
  have hnames (os : List Script.Operand) :
      os.foldl Script.Operand.modeBehind .sectionName = .sectionName := by
    induction os with
    | nil => rfl
    | cons o os ih => exact ih
  induction os with
  | nil => rfl
  | cons o os ih =>
    rw [List.foldl_cons, List.any_cons]
    cases ho : o.isSectionWord with
    | false => rw [modeBehind_eq ho, ih, Bool.false_or]
    | true =>
      have hm : o.modeBehind .default = .sectionName := by simp [Script.Operand.modeBehind, ho,
        recognizesKeywords]
      rw [hm, hnames, Bool.true_or, if_pos rfl]

end Mode

/-- Something else follows on the line, behind a blank at least. -/
def GoesOn (rest : List Char) : Prop := EndsRun rest ∧ Round.nameFollows rest = true

/-- After the keyword of a section names are expected where something follows. -/
theorem readsAs_lowerWord_goesOn (word : LowerWord) (m : Mode) :
    WithinLine (· = m) Anything word.text.toList
      [.spelled (· = m.wordKind word.text) word.text]
      (· = if (m.wordKind word.text).isSectionKeyword then .sectionName else m) GoesOn := by
  refine readsAs_lowerWord_of word m (fun _ hrest => endsWord_of_endsRun hrest.1)
    fun rest hrest => ?_
  rw [hrest.2, Bool.and_true]

theorem readsAs_operand_goesOn (o : Script.Operand) {m : Mode} (hm : m.Naming) :
    WithinLine (· = m) BeginsValue o.text [o.form] (· = o.modeBehind m) GoesOn := by
  cases o with
  | atom a =>
    rw [Mode.modeBehind_eq (Script.Operand.isSectionWord_eq_false rfl)]
    exact (readsAs_atom a).around (fun _ hb => hb) fun _ hf => endsWord_of_endsRun hf.1
  | string s =>
    rw [Mode.modeBehind_eq (Script.Operand.isSectionWord_eq_false rfl)]
    exact (readsAs_string s).around (fun _ _ => trivial) fun _ _ => trivial
  | name n =>
    cases n with
    | proper run =>
      have hother : (Script.Operand.name (.proper run)).isSectionWord = false :=
        Script.Operand.isSectionWord_eq_false (isLowerWord_of_isProperRun run.isRun)
      have hrun : WithinLine (· = m) Anything run.text.toList [.properName run.text] (· = m)
          EndsRun := readsAs_properRun run fun m' hm' => by rw [hm']; exact hm.1
      rw [Mode.modeBehind_eq hother]
      exact (hrun.around (fun _ _ => trivial) fun _ hf => hf.1).imp
        fun _ => TokenForm.word_of_properName
    | lower word =>
      have hword := readsAs_lowerWord_goesOn word m
      rw [Script.Operand.isSectionKeyword_wordKind word hm.2] at hword
      refine (hword.around (fun _ _ => trivial) fun _ hf => hf).imp ?_
      rintro t ⟨hkind, htext⟩
      exact ⟨hkind ▸ Mode.isWordlike_wordKind hm.2 _, htext⟩

/-- The operands that arrows lead to, in the modes that each leaves to the next. -/
theorem readsAs_destinations (os : List Script.Operand) {m : Mode} (hm : m.Naming) :
    WithinLine (· = m) Anything (eachBehind " -> " Script.Operand.text os)
      (os.flatMap fun o => [.ofKind .arrow, o.form])
      (· = os.foldl Script.Operand.modeBehind m) GoesOn := by
  have hnaming (m : Mode) (o : Script.Operand) (hm : m.Naming) : (o.modeBehind m).Naming :=
    Mode.naming_modeBehind hm o
  have hafter (o : Script.Operand) (m m' : Mode) (hm : m.Naming)
      (h : some (o.modeBehind m) = some m') : m'.Naming := by
    cases h
    exact hnaming m o hm
  refine readsAs_eachBehind_modes hafter (fun o _ m m' hm h => ?_) (fun _ _ => ⟨rfl, rfl⟩) hm
    List.foldlM_pure
  cases h
  exact readsAs_blank_then (readsAs_arrow.append
    (readsAs_blank_then (readsAs_operand_goesOn o hm) rfl) (fun _ _ => trivial)
    fun _ _ => trivial) trivial

theorem readsAs_operands (r : Script.Rule) :
    WithinLine (· = .default) BeginsValue (Script.Line.rule r).text (Script.Line.rule r).forms
      (· = r.operands.foldl Script.Operand.modeBehind .default) GoesOn := by
  have hsource := readsAs_operand_goesOn r.source Mode.naming_default
  exact hsource.append (readsAs_destinations _ (Mode.naming_modeBehind Mode.naming_default _))
    (fun _ _ => trivial) fun _ _ => ⟨rfl, rfl⟩

theorem readsAs_parameter (p : Parameter) {modes : Mode → Prop}
    (hmodes : ∀ m, modes m → m.prefersTypeNames = false) :
    WithinLine modes Anything p.text p.forms (· = .booleanContext) EndsValue := by
  have hkey : WithinLine modes Anything p.key.text.toList [.word p.key.text] Anything EndsWord := by
    refine .of_mode fun m hm => ((readsAs_lowerWord p.key m).widen fun _ _ => trivial).imp ?_
    rintro t ⟨hkind, htext⟩
    exact ⟨hkind ▸ Mode.isWordlike_wordKind (hmodes m hm) _, htext⟩
  exact hkey.append (readsAs_colon_then (readsAs_inline p.isFree) rfl p.value.opensLine_text)
    (fun _ _ => trivial) fun _ _ => rfl

namespace PassingRule

def withForms (r : PassingRule) : List TokenForm :=
  .ofKind (.keyword .withWord) ::
    (r.first.forms ++ r.more.flatMap fun p => .ofKind .comma :: p.forms)

def forms (r : PassingRule) : List TokenForm := (Script.Line.rule r.chain).forms ++ r.withForms

theorem readsAs_withClause (r : PassingRule) :
    WithinLine (· = .default) Anything
      (" with ".toList ++ (r.first.text ++ eachBehind ", " Parameter.text r.more)) r.withForms
      Anything EndsValue := by
  have hmore : WithinLine (· = .booleanContext) Anything (eachBehind ", " Parameter.text r.more)
      (r.more.flatMap fun p => .ofKind .comma :: p.forms) (· = .booleanContext) EndsValue :=
    readsAs_eachBehind (fun p _ => readsAs_comma.append (readsAs_blank_then
      (readsAs_parameter p fun m hm => by rw [hm]; rfl) trivial) (fun _ _ => trivial)
      fun _ _ => trivial) fun _ _ => rfl
  have hfirst : WithinLine (· = .default) Anything r.first.text r.first.forms
      (· = .booleanContext) EndsValue := readsAs_parameter r.first fun m hm => by rw [hm]; rfl
  have hparameters := hfirst.append hmore (fun _ _ => trivial) fun rest hrest => by
    cases r.more with
    | nil => exact hrest
    | cons p more => rfl
  exact (readsAs_blank_then ((readsAs_keyword .withWord rfl).append
    (readsAs_blank_then hparameters trivial) (fun _ _ => trivial) fun _ _ => rfl)
    trivial).widen fun _ _ => trivial

theorem opensLine_text (r : PassingRule) : OpensLine r.text := by
  have hopens := Script.opensLine_operand r.chain.source
    (eachBehind " -> " Script.Operand.text (r.chain.destination :: r.chain.more) ++
      (" with ".toList ++ (r.first.text ++ eachBehind ", " Parameter.text r.more)))
  rwa [← List.append_assoc] at hopens

/-- Behind operands that are not spelled like the keyword of a section all is read. -/
theorem lineReadsAs {r : PassingRule} (h : ∀ o ∈ r.chain.operands, o.isSectionWord = false) :
    LineReadsAs r.text r.forms := by
  have hchain := readsAs_operands r.chain
  rw [Mode.foldl_modeBehind, if_neg (by simpa using h)] at hchain
  have hline := hchain.append r.readsAs_withClause (fun _ _ => trivial) fun _ _ => ⟨rfl, rfl⟩
  exact ⟨r.opensLine_text, hline.around (fun _ hb => hb) fun _ => endsValue_of_newline⟩

/-- Behind an operand that is spelled so the keyword is read as a name. -/
theorem lineBegins {r : PassingRule} (h : ¬ ∀ o ∈ r.chain.operands, o.isSectionWord = false) :
    LineBegins r.text (Script.Line.rule r.chain).forms (· = .commonNoun) := by
  have hchain := readsAs_operands r.chain
  rw [Mode.foldl_modeBehind, if_pos (by simpa using h)] at hchain
  -- The mode lasts up to the end of the line, so the keyword of the clause is a name as well.
  refine .of_withinLine r.opensLine_text hchain (fun _ => ⟨rfl, rfl⟩) fun levels l rest hl hr => ?_
  have hname : WithinLine (· = .sectionName) Anything (' ' :: Keyword.withWord.word.toList)
      [fun t => t.kind = .commonNoun] (· = .sectionName) EndsWord :=
    (readsAs_blank_then (readsAs_plainWord Keyword.withWord.lowerWord .sectionName rfl)
      trivial).imp fun _ ht => ht.1
  obtain ⟨l', hyields, -⟩ := hname levels [] hl trivial hr rfl
  exact ⟨l', hyields.gathers⟩

end PassingRule

theorem Parameter.flat (p : Parameter) : Flat p.forms :=
  flat_cons.mpr ⟨TokenForm.onLine_word _, flat_cons.mpr ⟨TokenForm.onLine_ofKind rfl,
    p.value.flat⟩⟩

namespace Parser

theorem accepts_parameter (p : Parameter) {follow : TokenKind → Prop}
    (hfollow : ∀ k, follow k → k ≠ .dot) :
    parameter.Accepts p.forms follow (·.erased = p.tree) :=
  accepts_keyed (accepts_takeName _ _) (accepts_inlineValue p.value hfollow)

theorem accepts_withClause (r : PassingRule) {follow : TokenKind → Prop}
    (hfollow : ∀ k, follow k → k = .newline) :
    optionalWith.Accepts r.withForms follow
      (·.map WithClause.erased = some ⟨(r.first :: r.more).map Parameter.tree, none⟩) := by
  refine .check_of (fun _ hk => heads_ofKind.mp hk) ?_
  refine Accepts.bind (accepts_pass (TokenForm.onLine_ofKind rfl)) fun t _ => ?_
  have hparameter (p : Parameter) :
      parameter.Accepts p.forms (· ≠ .dot) (Keyed.erased · = p.tree) :=
    accepts_parameter p fun _ hk => hk
  refine (accepts_separated Keyed.erased (by decide) (fun k hk => ?_) (fun k hk => ?_) hparameter
    rfl Parameter.flat hparameter r.first r.more).bind_last fun parameters hparameters => ?_
  · rw [hfollow k hk]
    decide
  · rw [hfollow k hk]
    decide
  · refine .spanFrom fun l => .pure ?_
    rw [Option.map_some, WithClause.erased, hparameters]

end Parser

namespace PassingRule

theorem accepted {r : PassingRule} (h : ∀ o ∈ r.chain.operands, o.isSectionWord = false) :
    style.Accepted forms r := by
  refine ⟨fun l hl => ?_, ?_⟩
  · rw [List.mem_singleton.mp hl]
    exact lineReadsAs h
  · refine Parser.accepts_flowRule_of r.chain (fun k hk => ?_)
      (Parser.accepts_withClause r fun _ hk => hk)
      ((Parser.accepts_block_nil []).imp fun _ hnil => by rw [hnil]; rfl)
    rw [heads_ofKind.mp hk]
    decide

theorem objected {r : PassingRule} (h : ¬ ∀ o ∈ r.chain.operands, o.isSectionWord = false) :
    style.Objected forms r := by
  refine ⟨_, _, ⟨_, _, rfl, Parser.onLine_operand r.chain.source⟩,
    Parser.objects_flowRule_word r.chain fun k hk => ?_, fun _ _ => .here (lineBegins h)⟩
  rw [hk]
  exact ⟨rfl, by decide, by decide⟩

end PassingRule

/-- Rules with parameters are read as they were written, all of them without an error, exactly if
none of their operands is spelled like the keyword of a section. -/
theorem Document.readAs_passing (a : FlowAgent PassingRule) (options : ParseOptions) :
    (Document.ofSource (a.print PassingRule.style) options).ReadAs (a.tree PassingRule.style) ↔
      ∀ f ∈ a.flows, ∀ r ∈ f.rules, ∀ o ∈ r.chain.operands, o.isSectionWord = false :=
  FlowAgent.readAs_iff (fun r => ⟨_, _, rfl, Parser.onLine_operand r.chain.source⟩)
    (fun _ => PassingRule.accepted) (fun _ => PassingRule.objected) options

/-- A keyword that is not one of a section among the operands, and a list among the parameters. -/
def PassingRule.transfer : PassingRule where
  chain := ⟨.name (.lower ⟨"ringing", by decide⟩), .name (.lower ⟨"with", by decide⟩),
    [.atom ⟨"end", by decide⟩]⟩
  first := ⟨⟨"retries", by decide⟩,
    .scalar (.number ⟨false, ⟨['4'], by decide, by decide⟩, none, none⟩), by decide⟩
  more := [⟨⟨"hosts", by decide⟩, .list .square [.scalar (.string "a"), .scalar (.string "b")],
    by decide⟩]

def PassingRule.pager : FlowAgent PassingRule :=
  ⟨.proper ⟨"Pager", by decide⟩, [⟨.proper ⟨"Calls", by decide⟩, [.transfer]⟩]⟩

theorem Document.readAs_passing_pager :
    PassingRule.pager.print PassingRule.style =
      "agent Pager:\n" ++
        "  flow Calls:\n" ++
        "    ringing -> with -> :end with retries: 4, hosts: [\"a\", \"b\"]\n" ∧
      (Document.ofSource (PassingRule.pager.print PassingRule.style) .standard).ReadAs
        (PassingRule.pager.tree PassingRule.style) :=
  ⟨by decide +kernel, (readAs_passing PassingRule.pager .standard).mpr (by decide)⟩

/-- Behind a destination that is spelled `flow` the clause is not found. -/
theorem Document.parseErrors_passing_flow :
    (Document.ofSource "agent A:\n  flow F:\n    B -> flow with k: 1\n" default).parseErrors.map
      (·.message) = ["expected end of line, found identifier 'with'"] := by
  decide +kernel

end AgentScript
