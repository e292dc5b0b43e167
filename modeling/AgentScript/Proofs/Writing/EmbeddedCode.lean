import AgentScript.Proofs.Writing.Phrases
import AgentScript.Proofs.Writing.ScriptTrees
import AgentScript.Tree.Value

/-!
# Code that was written

Code on a line consists of parts without quotes and of quoted texts between them, in which a
backslash stands before any character. An arrow ends the code outside of quotes only, so the code is
read up to the arrow that was written behind it, whatever the quoted texts contain.

A branch of a rule leads to a state under a condition, which is code. An agent with flows whose
rules have branches below them is written line by line like a script, and it is read again with
every condition as the very code that was written.
-/
namespace AgentScript

open CharClass Lexeme

namespace Writing

/-- What can stand in quotes: characters other than the quote and the backslash, and pairs of a
backslash and any character. -/
inductive InQuotes (quote : Char) : List Char → Prop
  | nil : InQuotes quote []
  | plain {c : Char} {text : List Char} (hquote : c ≠ quote) (hbackslash : c ≠ '\\')
      (h : InQuotes quote text) : InQuotes quote (c :: text)
  | pair (c : Char) {text : List Char} (h : InQuotes quote text) :
    InQuotes quote ('\\' :: c :: text)

/-- What can stand outside of quotes. -/
structure Unquoted (text : List Char) : Prop where
  noQuote : ∀ c ∈ text, isCodeQuote c = false
  noArrow : ¬ ['-', '>'] <:+: text

/-- Unquoted parts with quoted texts between them. -/
inductive IsCode : List Char → Prop
  | unquoted {text : List Char} (h : Unquoted text) : IsCode text
  | quoted {text body rest : List Char} {quote : Char} (h : Unquoted text)
      (hquote : isCodeQuote quote = true) (hbody : InQuotes quote body) (hrest : IsCode rest) :
      IsCode (text ++ quote :: (body ++ quote :: rest))

/-- An expression as it stands on a line. -/
structure Code where
  text : String
  isCode : IsCode text.toList
  unbroken : ∀ c ∈ text.toList, isLineBreak c = false
  begins : ∃ c ∈ text.toList.head?, isWhitespace c = false
  ends : ∃ c ∈ text.toList.getLast?, isWhitespace c = false

/-- The markers of code on a line. -/
inductive CodeMarker
  | javascript | typescript | default

namespace CodeMarker

def text : CodeMarker → List Char
  | javascript => "$js>".toList
  | typescript => "$ts>".toList
  | default => "$>".toList

def language : CodeMarker → Language
  | javascript => .javascript
  | typescript => .typescript
  | default => .default

end CodeMarker

theorem isLineBreak_of_isCodeQuote {c : Char} (h : isCodeQuote c = true) :
    isLineBreak c = false ∧ isWhitespace c = false ∧ c ≠ '-' := by
  simp only [isCodeQuote, Bool.or_eq_true, beq_iff_eq, or_assoc] at h
  rcases h with rfl | rfl | rfl <;> decide

/-- An expression goes on with a character inside or outside of quotes, unless it ends there. -/
theorem codeLength_cons {quote : Option Char} {c : Char} {rest : List Char}
    (hbreak : isLineBreak c = false)
    (harrow : ¬ (quote = none ∧ c = '-' ∧ rest.head? = some '>'))
    (hpair : ¬ (quote ≠ none ∧ c = '\\'))
    (hgoes : isWhitespace c = false ∨ codeLength (quoteAfter quote c) rest ≠ 0) :
    codeLength quote (c :: rest) = codeLength (quoteAfter quote c) rest + 1 := by
  cases rest with
  | nil =>
    have hspace : isWhitespace c = false := hgoes.resolve_right fun h => h (by rw [codeLength])
    simp [codeLength, hspace]
  | cons d rest =>
    have hnot : ¬ (quote ≠ none ∧ c = '\\' ∧ isLineBreak d = false) :=
      fun h => hpair ⟨h.1, h.2.1⟩
    rw [codeLength, if_neg (by simp [hbreak]), if_neg (by simpa using harrow), if_neg hnot]
    rcases hgoes with hspace | hne
    · simp [hspace]
    · simp [hne]

/-- A quoted text is passed up to its end. -/
theorem codeLength_inQuotes {quote : Char} {body : List Char} (h : InQuotes quote body)
    (hquote : isCodeQuote quote = true) (hbody : ∀ c ∈ body, isLineBreak c = false)
    (rest : List Char) :
    codeLength (some quote) (body ++ quote :: rest) = body.length + 1 + codeLength none rest := by
  have hmark := isLineBreak_of_isCodeQuote hquote
  induction h with
  | nil =>
    have hafter : quoteAfter (some quote) quote = none := by simp [quoteAfter]
    have hpair : quote ≠ '\\' := by rintro rfl; exact nomatch hquote
    rw [List.nil_append, codeLength_cons hmark.1 (by simp) (by simp [hpair]) (.inl hmark.2.1),
      hafter, List.length_nil]
    omega
  | @plain c text hne hbackslash _ ih =>
    obtain ⟨hc, htext⟩ := List.forall_mem_cons.mp hbody
    have hafter : quoteAfter (some quote) c = some quote := by simp [quoteAfter, hne]
    have hrest := ih htext
    rw [List.cons_append, codeLength_cons hc (by simp) (by simp [hbackslash])
      (.inr (by rw [hafter, hrest]; omega)), hafter, hrest, List.length_cons]
    omega
  | @pair c text _ ih =>
    obtain ⟨-, hc, htext⟩ : _ ∧ _ ∧ ∀ x ∈ text, isLineBreak x = false := by simpa using hbody
    have hbackslash : isLineBreak '\\' = false := rfl
    rw [List.cons_append, List.cons_append, codeLength, if_neg (by simp [hbackslash]),
      if_neg (by simp), if_pos ⟨by simp, rfl, hc⟩, ih htext, List.length_cons, List.length_cons]
    omega

/-- A part without quotes is passed if no blank at its end comes before the end of the code. -/
theorem codeLength_unquoted {text rest : List Char} (h : Unquoted text)
    (htext : ∀ c ∈ text, isLineBreak c = false) (hrest : rest.head? ≠ some '>')
    (hends : codeLength none rest ≠ 0 ∨ ∀ c ∈ text.getLast?, isWhitespace c = false) :
    codeLength none (text ++ rest) = text.length + codeLength none rest := by
  induction text with
  | nil => simp
  | cons c text ih =>
    obtain ⟨hquote, hquotes⟩ := List.forall_mem_cons.mp h.noQuote
    obtain ⟨hc, htext⟩ := List.forall_mem_cons.mp htext
    have hafter : quoteAfter none c = none := by simp [quoteAfter, hquote]
    have hmore : codeLength none (text ++ rest) = text.length + codeLength none rest := by
      have hnoArrow : ¬ ['-', '>'] <:+: text := fun hpart =>
        h.noArrow (hpart.trans (List.suffix_cons _ _).isInfix)
      refine ih ⟨hquotes, hnoArrow⟩ htext (hends.imp_right fun hlast x hx => hlast x ?_)
      rw [List.getLast?_cons, Option.mem_def.mp hx]
      rfl
    have harrow : ¬ (c = '-' ∧ (text ++ rest).head? = some '>') := by
      rintro ⟨rfl, hhead⟩
      cases text with
      | nil => exact hrest hhead
      | cons d text =>
        obtain rfl : d = '>' := by simpa using hhead
        exact h.noArrow ⟨[], text, rfl⟩
    -- A blank belongs to the code only where the code goes on behind it.
    have hgoes : isWhitespace c = false ∨ codeLength none (text ++ rest) ≠ 0 := by
      cases text with
      | nil => exact hends.symm.imp (fun hlast => hlast c (by simp)) fun hne => by simpa using hne
      | cons d text => exact .inr (by rw [hmore, List.length_cons]; omega)
    rw [List.cons_append, codeLength_cons hc (by simpa using harrow) (by simp)
      (by rwa [hafter]), hafter, hmore, List.length_cons]
    omega

/-- A blank before an arrow ends the code. -/
theorem codeLength_arrow (rest : List Char) : codeLength none (" ->".toList ++ rest) = 0 := by
  change codeLength none (' ' :: '-' :: '>' :: rest) = 0
  have harrow : codeLength none ('-' :: '>' :: rest) = 0 := by
    rw [codeLength, if_neg (by decide), if_pos ⟨rfl, rfl, rfl⟩]
  have hafter : quoteAfter none ' ' = none := rfl
  rw [codeLength, if_neg (by decide), if_neg (by simp), if_neg (by simp), hafter, harrow]
  rfl

/-- Code is read up to the arrow that was written behind it. -/
theorem codeLength_code {text : List Char} (h : IsCode text)
    (htext : ∀ c ∈ text, isLineBreak c = false)
    (hends : ∀ c ∈ text.getLast?, isWhitespace c = false) (rest : List Char) :
    codeLength none (text ++ (" ->".toList ++ rest)) = text.length := by
  induction h with
  | unquoted h =>
    rw [codeLength_unquoted h htext (by simp) (.inr hends), codeLength_arrow, Nat.add_zero]
  | @quoted text body more quote h hquote hbody hrest ih =>
    obtain ⟨htext, hquoted⟩ := List.forall_mem_append.mp htext
    obtain ⟨hbodyLine, hmore⟩ := List.forall_mem_append.mp (List.forall_mem_cons.mp hquoted).2
    have hmark := isLineBreak_of_isCodeQuote hquote
    have hmoreLength := ih (List.forall_mem_cons.mp hmore).2 fun c hc => hends c ?_
    · have hafter : quoteAfter none quote = some quote := by simp [quoteAfter, hquote]
      have hopened :
          codeLength none (quote :: (body ++ quote :: (more ++ (" ->".toList ++ rest)))) =
            body.length + 1 + more.length + 1 := by
        have hbodyLength := codeLength_inQuotes hbody hquote hbodyLine
          (more ++ (" ->".toList ++ rest))
        rw [codeLength_cons hmark.1 (by simp [hmark.2.2]) (by simp) (.inl hmark.2.1), hafter,
          hbodyLength, hmoreLength]
      have hhead : quote ≠ '>' := by rintro rfl; exact nomatch hquote
      have hwhole := codeLength_unquoted h htext
        (show (quote :: (body ++ quote :: (more ++ (" ->".toList ++ rest)))).head? ≠ some '>' by
          simpa using hhead) (.inl (by rw [hopened]; omega))
      simp only [List.append_assoc, List.cons_append] at hwhole ⊢
      rw [hwhole, hopened]
      simp
      omega
    · have hsplit : text ++ quote :: (body ++ quote :: more) =
          (text ++ quote :: (body ++ [quote])) ++ more := by simp
      rw [hsplit, List.getLast?_append, Option.mem_def.mp hc]
      rfl

namespace CodeMarker

/-- A marker before a blank is the marker of code on a line, in a language that is known. -/
theorem marker_eq (m : CodeMarker) (rest : List Char) :
    markerForm? (m.text ++ ' ' :: rest) = some .inline ∧
      marker .inline (m.text ++ ' ' :: rest) = [.token .embeddedMarker m.text.length] := by
  cases m <;> exact ⟨rfl, rfl⟩

end CodeMarker

namespace Code

/-- Code begins with no blank. -/
theorem exists_cons (code : Code) :
    ∃ c text, code.text.toList = c :: text ∧ isInlineSpace c = false := by
  obtain ⟨c, hc, hspace⟩ := code.begins
  obtain ⟨text, htext⟩ := List.head?_eq_some_iff.mp hc
  refine ⟨c, text, htext, Bool.eq_false_iff.mpr fun hblank => ?_⟩
  rw [isWhitespace_of_isInlineSpace hblank] at hspace
  exact nomatch hspace

theorem codeLength_eq (code : Code) (rest : List Char) :
    codeLength none (code.text.toList ++ (" ->".toList ++ rest)) = code.text.toList.length := by
  refine codeLength_code code.isCode code.unbroken (fun c hc => ?_) rest
  obtain ⟨d, hd, hspace⟩ := code.ends
  exact Option.some.inj (hc.symm.trans hd) ▸ hspace

/-- The blank behind a marker is skipped, and the code up to the arrow is one token. -/
theorem inlineCode_eq (code : Code) (rest : List Char) :
    inlineCode (' ' :: (code.text.toList ++ (" ->".toList ++ rest))) =
      [.skip 1, .token .embeddedCode code.text.toList.length] := by
  obtain ⟨c, text, htext, hc⟩ := code.exists_cons
  have hblank : blankLength (' ' :: (code.text.toList ++ (" ->".toList ++ rest))) = 1 := by
    have hspace : isInlineSpace ' ' = true := rfl
    simp [blankLength, spanLength, htext, hc, hspace]
  have hne : code.text.toList.length ≠ 0 := by simp [htext]
  simp only [inlineCode, Scanner.andThen, Scanner.skipping, hblank, Piece.total_cons, Piece.width,
    Piece.total_nil, Nat.add_zero, List.drop_succ_cons, List.drop_zero, Scanner.tokenOf,
    code.codeLength_eq, if_neg hne, List.cons_append, List.nil_append]

end Code

/-- A marker and the code behind it, where an arrow follows. -/
theorem readsAs_code (m : CodeMarker) (code : Code) {modes : Mode → Prop} :
    WithinLine modes Anything (m.text ++ ' ' :: code.text.toList)
      [.spelled (· = .embeddedMarker) (String.ofList m.text),
        .spelled (· = .embeddedCode) code.text] modes
      fun rest => ∃ more, rest = " ->".toList ++ more := by
  obtain ⟨tail, htail⟩ : ∃ tail, m.text = '$' :: tail := by cases m <;> exact ⟨_, rfl⟩
  have hcons : m.text ++ ' ' :: code.text.toList = '$' :: (tail ++ ' ' :: code.text.toList) := by
    rw [htail, List.cons_append]
  rw [hcons]
  refine fun _ _ => readsAs_of_within fun l previous p rest hl _ ⟨more, hmore⟩ => ?_
  subst hmore
  refine ⟨⟨[.token .embeddedMarker m.text.length, .skip 1,
    .token .embeddedCode code.text.toList.length], l⟩, ?_, ?_, hl⟩
  · rw [← hcons, List.append_assoc, List.cons_append]
    obtain ⟨hform, hmarker⟩ := m.marker_eq (code.text.toList ++ (" ->".toList ++ more))
    change Round.embeddedCode l _ = _
    simp only [Round.embeddedCode, hform, embedded, Scanner.andThen, hmarker, Piece.total_cons,
      Piece.width, Piece.total_nil, Nat.add_zero, List.drop_left, code.inlineCode_eq]
    rfl
  · rw [← hcons]
    have hcode : Divides [.token .embeddedCode code.text.toList.length] code.text.toList
        [.spelled (· = .embeddedCode) code.text] := .single fun _ _ => ⟨rfl, String.ofList_toList⟩
    exact .token m.text (fun _ _ => ⟨rfl, rfl⟩) (.skip [' '] hcode)

end Writing

open Writing

/-- A line `when code -> destination`. -/
structure Branch where
  marker : CodeMarker
  condition : Code
  destination : ProperRun

/-- A chain of operands with branches below it. -/
structure BranchingRule where
  chain : Script.Rule
  branches : List Branch

structure BranchingFlow where
  name : Name
  rules : List BranchingRule

/-- An agent with nothing but flows. -/
structure BranchingAgent where
  name : Name
  flows : List BranchingFlow

namespace BranchingAgent

inductive Line
  | header (form : SectionForm) (name : Option Name)
  | chain (r : Script.Rule)
  | branch (b : Branch)

def Line.text : Line → List Char
  | header form name => headerText form name
  | chain r => (Script.Line.rule r).text
  | branch b =>
    "when ".toList ++ ((b.marker.text ++ ' ' :: b.condition.text.toList) ++
      (" -> ".toList ++ b.destination.text.toList))

def Line.forms : Line → List TokenForm
  | header form name => headerForms form name
  | chain r => (Script.Line.rule r).forms
  | branch b =>
    [.ofKind (.keyword .whenWord)] ++
      ([.spelled (· = .embeddedMarker) (String.ofList b.marker.text),
        .spelled (· = .embeddedCode) b.condition.text] ++
        [.ofKind .arrow, .word b.destination.text])

def ruleOutline (r : BranchingRule) : Line × Outline Line :=
  (.chain r.chain, .ofList (r.branches.map fun b => (.branch b, .nil)))

def flowOutline (f : BranchingFlow) : Line × Outline Line :=
  (.header .flow f.name, .ofList (f.rules.map ruleOutline))

def outline (a : BranchingAgent) : Outline Line :=
  .ofList [(.header .agent a.name, .ofList (a.flows.map flowOutline))]

/-- The agent as it is written. -/
def print (a : BranchingAgent) : String := String.ofList (a.outline.print Line.text 0)

def branchTree (b : Branch) : WhenClause :=
  ⟨.expression b.marker.language b.condition.text none,
    [⟨.identifier, b.destination.text, none⟩], none, none⟩

def ruleTree (r : BranchingRule) : FlowRule :=
  { r.chain.tree with whenClauses := r.branches.map branchTree }

def flowTree (f : BranchingFlow) : Flow := ⟨f.name.text, f.rules.map ruleTree, none⟩

def agent (a : BranchingAgent) : Agent :=
  ⟨a.name.text, none, none, none, none, a.flows.map flowTree, none, none⟩

/-- The tree of the file, without locations. -/
def tree (a : BranchingAgent) : SourceFile := ⟨[], some a.agent, none⟩

theorem readsAs_branch (b : Branch) :
    WithinLine (· = .default) Anything (Line.branch b).text (Line.branch b).forms Anything
      EndsRun := by
  have hwhen : WithinLine (· = .default) Anything "when ".toList
      [.ofKind (.keyword .whenWord)] (· = .default) Anything :=
    (readsAs_keyword .whenWord rfl).append readsAs_blank (fun _ _ => trivial) fun _ _ => rfl
  have hrun : WithinLine (· = .default) Anything b.destination.text.toList
      [.word b.destination.text] (· = .default) EndsRun :=
    (readsAs_properRun b.destination fun m hm => by rw [hm]; rfl).imp
      fun _ => TokenForm.word_of_properName
  have harrow : WithinLine (· = .default) Anything (" -> ".toList ++ b.destination.text.toList)
      [.ofKind .arrow, .word b.destination.text] (· = .default) EndsRun :=
    readsAs_blank_then (readsAs_arrow.append (readsAs_blank_then hrun trivial)
      (fun _ _ => trivial) fun _ _ => trivial) trivial
  have hbehind := (readsAs_code b.marker b.condition).append harrow (fun _ _ => trivial)
    fun rest _ => ⟨' ' :: (b.destination.text.toList ++ rest), rfl⟩
  exact (hwhen.append hbehind (fun _ _ => trivial) fun _ _ => trivial).widen fun _ _ => trivial

theorem lineReadsAs_line (l : Line) : LineReadsAs l.text l.forms := by
  cases l with
  | header form name => exact lineReadsAs_header form name
  | chain r => exact Script.lineReadsAs_line (.rule r)
  | branch b =>
    refine ⟨⟨'w', _, rfl, significant_of_isWordChar rfl⟩, ?_⟩
    exact (readsAs_branch b).around (fun _ _ => trivial) fun _ => endsRun_of_newline

theorem opens_line (l : Line) : Opens l.forms := by
  cases l with
  | header form name => exact ⟨_, _, rfl, TokenForm.onLine_ofKind rfl⟩
  | chain r => exact Parser.opens_line (.rule r)
  | branch b => exact ⟨_, _, rfl, TokenForm.onLine_ofKind rfl⟩

open AgentScript.Parser

theorem ofMarker_text (m : CodeMarker) : Language.ofMarker (String.ofList m.text) = m.language := by
  cases m <;> decide +kernel

/-- A marker with the code behind it is a value. -/
theorem accepts_condition (m : CodeMarker) (code : Code) {follow : TokenKind → Prop} :
    inlineValue.Accepts [.spelled (· = .embeddedMarker) (String.ofList m.text),
      .spelled (· = .embeddedCode) code.text] follow
      (·.erased = .expression m.language code.text none) := by
  refine .look fun _ _ _ => .kind fun k hk => ?_
  rw [kind_of_heads (fun _ ht => ht.1) hk]
  change expression.Accepts ([.spelled (· = .embeddedMarker) (String.ofList m.text)] ++ _) _ _
  refine (accepts_pass (TokenForm.onLine_spelled rfl)).bind fun marker hmarker => ?_
  refine .check_of (fun _ => kind_of_heads fun _ ht => ht.1) ?_
  refine (accepts_pass (TokenForm.onLine_spelled rfl)).bind_last fun read hread => .pure ?_
  rw [Value.ofExpression, Value.erased, hmarker.2, ofMarker_text]
  exact congrArg (Value.expression _ · none) hread.2

theorem accepts_whenClause (b : Branch) :
    whenClause.Accepts (Outline.itemForms Line.forms (.branch b, .nil)) (· ≠ .indent)
      (·.erased = branchTree b) := by
  have hforms : Outline.itemForms Line.forms (.branch b, .nil) =
      .ofKind (.keyword .whenWord) ::
        ([.spelled (· = .embeddedMarker) (String.ofList b.marker.text),
          .spelled (· = .embeddedCode) b.condition.text] ++
          [Script.Operand.name (.proper b.destination)].flatMap
            fun o => .ofKind .arrow :: [o.form]) ++ [.ofKind .newline] := rfl
  rw [hforms]
  exact accepts_whenClause_of (accepts_condition b.marker b.condition) (List.cons_ne_nil _ _)

theorem accepts_rule (r : BranchingRule) :
    flowRule.Accepts (Outline.itemForms Line.forms (ruleOutline r)) (· ≠ .indent)
      (·.erased = ruleTree r) :=
  accepts_flowRule_block r.chain (accepts_block_items opens_line fun b _ => accepts_whenClause b)

theorem accepts_flow (f : BranchingFlow) :
    flowSection.Accepts (Outline.itemForms Line.forms (flowOutline f)) (· ≠ .indent)
      (·.erased = flowTree f) :=
  accepts_flowOf rfl opens_line fun r _ => accepts_rule r

theorem accepts_agent (a : BranchingAgent) :
    Parser.agent.Accepts
      (Outline.itemForms Line.forms (.header .agent a.name, .ofList (a.flows.map flowOutline)))
      (· ≠ .indent) (·.erased = a.agent) := by
  have hbody : (LineParser.whole agentPart).Collects .empty
      ((Outline.ofList (a.flows.map flowOutline ++ [])).forms Line.forms)
      fun p => (Agent.ofParts a.name.text p default).erased = a.agent := by
    refine collects_flows opens_line (fun _ _ hk => heads_ofKind.mp hk) (fun f _ => accepts_flow f)
      fun flows hflows => LineParser.collects_nil ?_
    simp [Agent.ofParts, Agent.erased, AgentParts.empty, agent, hflows]
  rw [List.append_nil] at hbody
  exact accepts_agentOf rfl hbody

theorem collects_outline (a : BranchingAgent) :
    FileParts.itemLine.Collects .empty (a.outline.forms Line.forms) (FileParts.Are [] a.agent) :=
  FileParts.collects_agent rfl opens_line a.accepts_agent rfl rfl

end BranchingAgent

/-- An agent with branches is read as it was written: there are no errors, and the condition of
every branch is the code that was written. -/
theorem Document.readAs_branches (a : BranchingAgent) (options : ParseOptions) :
    (Document.ofSource a.print options).ReadAs a.tree :=
  readAs_print BranchingAgent.lineReadsAs_line a.outline a.collects_outline options

/-- An arrow in quotes, behind an escaped quote. -/
def Writing.Code.quotedArrow : Code where
  text := "sign == \"\\\"->\""
  isCode := by
    have hsplit : "sign == \"\\\"->\"".toList =
        "sign == ".toList ++ '"' :: (['\\', '"', '-', '>'] ++ '"' :: []) := by simp
    have hbefore : Unquoted "sign == ".toList :=
      ⟨by simp [isCodeQuote], by simp [List.infix_cons_iff]⟩
    have hinside : InQuotes '"' ['\\', '"', '-', '>'] :=
      .pair '"' (.plain (by decide) (by decide) (.plain (by decide) (by decide) .nil))
    rw [hsplit]
    exact .quoted hbefore rfl hinside (.unquoted ⟨by simp, by simp⟩)
  unbroken := by simp [isLineBreak]
  begins := ⟨'s', by simp, by decide⟩
  ends := ⟨'"', by simp, by decide⟩

def BranchingAgent.router : BranchingAgent where
  name := .proper ⟨"Router", by decide⟩
  flows := [⟨.lower ⟨"main", by decide⟩,
    [⟨⟨.name (.lower ⟨"login", by decide⟩), .name (.proper ⟨"Menu", by decide⟩), []⟩,
      [⟨.typescript, .quotedArrow, ⟨"Next Page", by decide⟩⟩]⟩]⟩]

theorem Document.readAs_branches_router :
    BranchingAgent.router.print =
      "agent Router:\n" ++
        "  flow main:\n" ++
        "    login -> Menu\n" ++
        "      when $ts> sign == \"\\\"->\" -> Next Page\n" ∧
      (Document.ofSource BranchingAgent.router.print .standard).ReadAs
        BranchingAgent.router.tree :=
  ⟨by decide +kernel, readAs_branches BranchingAgent.router .standard⟩

end AgentScript
