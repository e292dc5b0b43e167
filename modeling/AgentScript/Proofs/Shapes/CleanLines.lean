import AgentScript.Proofs.Parsing.BalancedRounds
import AgentScript.Proofs.Shapes.CleanParses

/-!
# The lines of a parse that reports nothing

Where nothing is reported, every line of a block is read, and the items of the block can be told
from the tokens: each comes from a line with what is below it, in their order. So what is known of
a single item and the tokens it is read from holds all along the block.
-/
namespace AgentScript

open ParserState WholeLine

/-- The tokens with text of the language. -/
def Token.texts (tokens : List Token) : List Token := tokens.filter fun t => !t.isStructural

theorem Token.texts_append (tokens more : List Token) :
    texts (tokens ++ more) = texts tokens ++ texts more := List.filter_append _ _

theorem Token.texts_words {words : List Token} (h : ∀ t ∈ words, t.isStructural = false) :
    texts words = words :=
  List.filter_eq_self.mpr fun t ht => by rw [h t ht]; rfl

namespace ParserState

variable {s t : ParserState}

/-- Behind tokens with text the text passed ends with the last of them. -/
theorem Leads.lastEnd_eq (h : s.Leads t) {passed : List Token}
    (htokens : s.tokens = passed ++ t.tokens) :
    t.lastEnd = ((Token.texts passed).getLast?.map Token.stop).or s.lastEnd := by
  induction h generalizing passed with
  | refl =>
    rw [List.self_eq_append_left.mp htokens]
    rfl
  | @advance t h ih =>
    obtain ⟨before, hbefore⟩ := h.tokens_isSuffix
    cases hrest : t.rest with
    | nil =>
      have hsame : t.advance = t := by simp [ParserState.advance, hrest]
      rw [hsame] at htokens ⊢
      exact ih htokens
    | cons x rest =>
      have hnext : t.tokens = x :: t.advance.tokens := by
        simp [ParserState.advance, ParserState.tokens, hrest]
      have hpassed : passed = before ++ [x] := by
        rw [← hbefore, hnext, List.append_cons] at htokens
        exact (List.append_cancel_right htokens).symm
      have hlast : t.advance.lastEnd = if x.isStructural then t.lastEnd else some x.stop := by
        unfold ParserState.advance
        rw [hrest]
      rw [hlast, ih hbefore.symm, hpassed, Token.texts_append]
      cases hx : x.isStructural with
      | true => simp [hx, Token.texts]
      | false => simp [hx, Token.texts]
  | @report t h p ih =>
    rw [tokens_report] at htokens
    have hsame : (t.report p).lastEnd = t.lastEnd := by
      unfold ParserState.report
      split_ifs <;> rfl
    rw [hsame, ih htokens]

end ParserState

/-- The items of a block, each with the tokens it is read from; empty lines give none. -/
inductive InLines {α : Type} (Q : α → List Token → Prop) : List α → List Token → Prop
  | nil : InLines Q [] []
  | newline {items : List α} {rest : List Token} {newline : Token} (ends : newline.IsMark .newline)
      (later : InLines Q items rest) : InLines Q items (newline :: rest)
  | item {a : α} {items : List α} {tokens rest : List Token} (read : Q a tokens)
      (later : InLines Q items rest) : InLines Q (a :: items) (tokens ++ rest)

variable {α : Type} {Q : α → List Token → Prop} {S : ParserState → Prop} {p : Parser α}
  {s : ParserState} {tokens rest : List Token} {K : TokenKind → Prop}

/-- From a line with what is below it the parser makes an item that goes with these tokens. -/
def Parser.ReadsLine (S : ParserState → Prop) (Q : α → List Token → Prop) (p : Parser α) : Prop :=
  ∀ ⦃s t : ParserState⦄ ⦃a : α⦄ ⦃words below : List Token⦄ ⦃newline : Token⦄, S s →
    (∀ t ∈ words, t.isStructural = false) → newline.IsMark .newline → IsBelow below →
    s.tokens = words ++ newline :: (below ++ t.tokens) → p s = .ok a t →
    Q a (words ++ newline :: below)

/-- A parser that passes the block below its line ends behind that block. -/
theorem Parser.tokens_of_steps (hsteps : Steps .apart (On .apart fun _ => True) Beyond p)
    {t : ParserState} {a : α} {words below : List Token} {newline : Token}
    (hnewline : newline.IsMark .newline) (hbelow : IsBelow below)
    (hrest : ∀ t ∈ rest.head?, t.kind ≠ .indent) (hwords : ∀ t ∈ words, t.isStructural = false)
    (he : s.ending.kind = .eof) (hcap : s.cap = 0)
    (h : s.tokens = words ++ newline :: (below ++ rest))
    (heq : p s = .ok a t) : t.tokens = rest := by
  have hwithin := within_besideBare hnewline hbelow hrest hwords he hcap h
  have hout := hsteps ⟨hwithin, trivial⟩
  rw [heq] at hout
  generalize p (bare (words ++ newline :: below)) = right at hout
  cases hout with
  | ok a after => exact after.alike.left

/-- A line of a loop that reports nothing is read, and the loop goes on behind it. -/
theorem ParserState.runLines_of_clean {line : LineParser α} [line.Proceeds] {gathered : α}
    (hreads : Reads s) (hlt : (line gathered s).resumed.remaining < s.remaining)
    (hclean : (s.runLines line gathered).2.problems = #[]) :
    (line gathered s).problem = none ∧
      s.runLines line gathered =
        (line gathered s).state.runLines line (line gathered s).gathered := by
  rw [(lineLoop_runLines line).resumed hreads hlt] at hclean ⊢
  obtain ⟨hnone, -⟩ := LineResult.clean_of_resumed ((leads_lines _ _ _ _).clean hclean)
  refine ⟨hnone, ?_⟩
  unfold LineResult.resumed
  rw [hnone]

variable [Parser.Proceeds p] (hp : p.ReadsLine S Q)
  (hsteps : ∀ b, Parser.Steps b (WholeLine.On b fun _ => True) Beyond p) (hrefuses : p.Refuses)

include hp hsteps hrefuses

/-- A line with what is below it, in a loop that reports nothing. -/
theorem ParserState.runLines_item_of_clean {words below : List Token} {newline : Token}
    {items : List α}
    (hwords : ∀ t ∈ words, t.isStructural = false) (hnewline : newline.IsMark .newline)
    (hbelow : IsBelow below) (hrest : ∀ t ∈ rest.head?, t.kind ≠ .indent) (hs : S s)
    (hmid : s.Midway) (h : s.tokens = words ++ newline :: (below ++ rest))
    (hclean : (s.runLines (.item p) items).2.problems = #[]) :
    ∃ more t, s.runLines (.item p) items = t.runLines (.item p) (items ++ more) ∧ t.tokens = rest ∧
      s.Leads t ∧ ∀ later tokens, InLines Q later tokens →
        InLines Q (more ++ later) (words ++ newline :: below ++ tokens) := by
  have hcompletes : p.Completes fun _ => True := fun _ _ =>
    (hsteps _).passed.restrict fun _ _ => trivial
  have hread {s : ParserState} (hmid : s.Midway) (hreads : Reads s)
      (hclean : (s.runLines (.item p) items).2.problems = #[]) := by
    have hcrosses := crosses_resumed (Parser.BlockLine.completes_item_eq hcompletes)
      (LineParser.refuses_item hrefuses) (rfl : items = items) hmid hreads
    exact runLines_of_clean hreads hcrosses.remaining_lt hclean
  have hhalted {s : ParserState} (hmid : s.Midway) : s.halted = false :=
    halted_of_uncapped hmid.uncapped
  cases words with
  | nil =>
    have hend := atEnd_of_tokens hmid.ending h (hnewline.ne_eof (by decide))
    have hnext := (advance_of_tokens hmid.ending h (hnewline.ne_eof (by decide))).1
    have hrun : s.runLines (.item p) items = s.advance.runLines (.item p) items :=
      runLines_newline ((kind_of_tokens h).trans hnewline.kind_eq) hend
    have hmid' := hmid.leads (leads_advance s)
    cases hbelow with
    | none => exact ⟨[], s.advance, by rw [hrun, List.append_nil], hnext, leads_advance s,
        fun later tokens hlater => .newline hnewline hlater⟩
    | @block body indent dedent opens inner closes =>
      -- A block below no words is refused, which would have been reported.
      rw [hrun] at hclean
      have hcurrent := current_of_tokens (hnext.trans (List.cons_append ..))
      obtain ⟨e, he⟩ := hrefuses indent opens
      have hkind : s.advance.kind = .indent := by rw [kind, hcurrent, opens.kind_eq]
      have hreads := reads_of_beginsLine hmid'.ending (hhalted hmid') (.inr hkind)
      have hnone := (hread hmid' hreads hclean).1
      rw [LineParser.item_of_error (he s.advance hcurrent)] at hnone
      cases hnone
  | cons x words =>
    have hx := hwords x (List.mem_cons_self ..)
    have hword : s.kind.isStructural = false := by rwa [kind_of_tokens h]
    have hreads := reads_of_beginsLine hmid.ending (hhalted hmid) (.inl hword)
    obtain ⟨hnone, hrun⟩ := hread hmid hreads hclean
    cases heq : p s with
    | error e t =>
      rw [LineParser.item_of_error heq] at hnone
      cases hnone
    | ok a t =>
      rw [LineParser.item_of_ok heq] at hrun
      have htokens := Parser.tokens_of_steps (hsteps _) hnewline hbelow hrest hwords hmid.ending
        hmid.uncapped h heq
      have hitem := hp hs hwords hnewline hbelow (by rw [htokens]; exact h) heq
      exact ⟨[a], t, hrun, htokens, p.leads_of_ok heq, fun later tokens hlater =>
        .item hitem hlater⟩

/-- The items of a body, by induction on its lines. -/
theorem ParserState.runLines_items_of_clean [Enduring S] (hbody : LinesOf K tokens)
    (hrest : ∀ t ∈ rest.head?, t.kind ≠ .indent) (hs : S s) (hmid : s.Midway)
    (h : s.tokens = tokens ++ rest) {items : List α}
    (hclean : (s.runLines (.item p) items).2.problems = #[]) :
    ∃ more t, s.runLines (.item p) items = t.runLines (.item p) (items ++ more) ∧ t.tokens = rest ∧
      s.Leads t ∧ InLines Q more tokens := by
  induction hbody generalizing s items with
  | nil => exact ⟨[], s, by rw [List.append_nil], h, .refl, .nil⟩
  | @line K words later newline inLine allowed ends laterLines ih =>
    obtain ⟨first, t, ht, htokens, hleads, hfirst⟩ :=
      runLines_item_of_clean hp hsteps hrefuses inLine
      ends .none (laterLines.head_append_ne_indent hrest) hs hmid (by simpa using h) hclean
    rw [ht] at hclean ⊢
    obtain ⟨more, u, hu, hrestTokens, hleads', hmore⟩ :=
      ih (Enduring.leads hs hleads) (hmid.leads hleads) htokens hclean
    refine ⟨first ++ more, u, by rw [hu, List.append_assoc], hrestTokens, hleads.trans hleads', ?_⟩
    simpa using hfirst more later hmore
  | @block K words body later newline indent dedent inLine allowed ends opens inner closes
    laterLines _
      ih =>
    obtain ⟨first, t, ht, htokens, hleads, hfirst⟩ :=
      runLines_item_of_clean hp hsteps hrefuses inLine ends (.block opens inner closes)
        (laterLines.head_append_ne_indent hrest) hs hmid (by simpa using h)
      hclean
    rw [ht] at hclean ⊢
    obtain ⟨more, u, hu, hrestTokens, hleads', hmore⟩ :=
      ih (Enduring.leads hs hleads) (hmid.leads hleads) htokens hclean
    refine ⟨first ++ more, u, by rw [hu, List.append_assoc], hrestTokens, hleads.trans hleads', ?_⟩
    simpa using hfirst more later hmore

/-- Behind a line there is no block and no item, or the lines of the block are the items. -/
theorem Parser.eatBlock_of_clean [Enduring S] (hs : S s) (hmid : s.Midway) {items : List α}
    {t : ParserState}
    (heq : (eat .indent >>= fun c => if c = true then blockLines (.item p) [] else pure []) s =
      .ok items t) (hclean : t.problems = #[]) :
    s.kind ≠ .indent ∧ items = [] ∨
      ∃ indent body dedent rest, s.tokens = indent :: (body ++ dedent :: rest) ∧
        indent.IsMark .indent ∧ IsBody body ∧ dedent.IsMark .dedent ∧ InLines Q items body := by
  rw [eat_bind_eq, check_bind_apply] at heq
  split_ifs at heq with hk
  · right
    obtain ⟨_, _, ⟨⟩, heq⟩ := bind_eq_ok.mp heq
    rw [blockLines_eq, ← runLines] at heq
    have hend := atEnd_of_ne hmid.ending (by simp [hk])
    obtain ⟨first, below, rest, htokens, hbelow, hrest, hfirst⟩ :=
      hmid.exists_segment hend (by simp [hk])
    rcases hfirst with ⟨-, rfl, hne⟩ | ⟨hindent, -⟩
    · cases hbelow with
      | none => exact absurd rfl hne
      | @block body indent dedent opens inner closes =>
        have hall : s.tokens = indent :: (body ++ dedent :: rest) := by simpa using htokens
        have hinside := (advance_of_tokens hmid.ending hall (opens.ne_eof (by decide))).1
        have hdedent : ∀ t ∈ (dedent :: rest).head?, t.kind ≠ .indent := by simp [closes.kind_eq]
        have hleads := leads_advance s
        generalize hrun : s.advance.runLines (.item p) [] = run at heq
        cases heq
        rw [← hrun] at hclean
        obtain ⟨more, u, hu, hbehind, -, hmore⟩ := runLines_items_of_clean hp hsteps hrefuses inner
          hdedent (Enduring.leads hs hleads) (hmid.leads hleads) hinside hclean
        rw [hrun, runLines_dedent ((kind_of_tokens hbehind).trans closes.kind_eq)] at hu
        exact ⟨indent, body, dedent, rest, hall, opens, inner, closes, by simpa [hu] using hmore⟩
    · exact absurd hk hindent
  · cases heq
    exact .inl ⟨hk, rfl⟩

end AgentScript
