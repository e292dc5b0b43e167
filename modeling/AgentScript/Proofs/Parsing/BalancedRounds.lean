import AgentScript.Proofs.Parsing.Capping
import AgentScript.Proofs.Parsing.FailedLines
import AgentScript.Proofs.Parsing.OuterLines
import AgentScript.Proofs.Parsing.ValueLines

/-!
# Blocks nest in a parse as in the text

Whatever happens in a round of a loop over lines, it passes a line or a block as a whole: the
line ends where it ends, with the block below it or before that block, and recovery goes there
too. So the tokens that a round passes are balanced, every block is left at the token that ends
it, and a loop outside all blocks never comes to the end of one.
-/
namespace AgentScript

open ParserState WholeLine

namespace Parser.BlockLine

variable {α : Type} {line : LineParser α}

theorem proceeds (h : BlockLine line) : line.Proceeds := by
  cases h with
  | listItem depth => infer_instance
  | dictionaryEntry depth => infer_instance
  | rule => infer_instance
  | whenClause => infer_instance
  | suggestion => infer_instance
  | card => infer_instance
  | carousel => infer_instance
  | definition => infer_instance
  | message => infer_instance
  | mappedRow => infer_instance
  | settings => infer_instance
  | agentPart => infer_instance

theorem completes_item_eq {p : Parser α} (h : p.Completes fun _ => True) :
    (LineParser.item p).Completes (fun _ => True) Eq :=
  LineParser.completes_item (by rintro g _ a rfl; rfl) h

/-- From a word on every line of a block is passed with what is below it, or fails before its
end. -/
theorem completes (h : BlockLine line) : line.Completes (fun _ => True) Eq := by
  cases h with
  | listItem depth => exact (steps_valueWithin depth).completes_listLine
  | dictionaryEntry depth => exact (steps_valueWithin depth).completes_dictionaryLine
  | rule => exact completes_item_eq completes_flowRule
  | whenClause => exact completes_item_eq completes_whenClause
  | suggestion => exact completes_item_eq completes_suggestion
  | card => exact completes_cardLine
  | carousel => exact completes_carouselLine
  | definition => exact completes_definitionLine
  | message => exact completes_item_eq completes_message
  | mappedRow => exact completes_item_eq completes_mappedRow
  | settings => exact completes_settingsLine
  | agentPart => exact completes_agentPart_eq

/-- No line of a block begins with a block. -/
theorem refuses (h : BlockLine line) : line.Refuses := by
  cases h with
  | listItem depth => exact refuses_listLine _
  | dictionaryEntry depth => exact LineParser.refuses_item (refuses_keyedLine _ _ _)
  | rule => exact LineParser.refuses_item refuses_flowRule
  | whenClause => exact LineParser.refuses_item refuses_whenClause
  | suggestion => exact LineParser.refuses_item refuses_suggestion
  | card => exact refuses_cardLine
  | carousel => exact refuses_carouselLine
  | definition => exact refuses_definitionLine
  | message => exact LineParser.refuses_item refuses_message
  | mappedRow => exact LineParser.refuses_item refuses_mappedRow
  | settings => exact refuses_settingsLine
  | agentPart => exact refuses_agentPart

end Parser.BlockLine

namespace ParserState

/-- From the one state to the other tokens are passed, and they are balanced. -/
def Crosses (s t : ParserState) : Prop :=
  ∃ passed, s.tokens = passed ++ t.tokens ∧ passed ≠ [] ∧ Token.Balanced passed

/-- A state of a parse without a cap, on the way through the tokens of a text. -/
structure Midway (s : ParserState) : Prop where
  settled : Settled s.rest
  ending : s.ending.kind = .eof
  uncapped : s.cap = 0

variable {α : Type} {line : LineParser α} {G : α → α → Prop} {s t u : ParserState} {g : α}

theorem crosses_of_tokens {rest : List Token} (passed : List Token) (h : s.tokens = passed ++ rest)
    (ht : t.tokens = rest) (hne : passed ≠ []) (hpassed : Token.Balanced passed) : s.Crosses t :=
  ⟨passed, by rw [h, ht], hne, hpassed⟩

theorem Crosses.remaining_lt (h : s.Crosses t) : t.remaining < s.remaining := by
  obtain ⟨passed, htokens, hne, -⟩ := h
  obtain ⟨x, passed, rfl⟩ := List.exists_cons_of_ne_nil hne
  exact remaining_lt_of_tokens htokens rfl

/-- The end of a line may be passed in addition. -/
theorem Crosses.drops (h : s.Crosses t) (hdrops : t.Drops u) (he : t.ending.kind = .eof) :
    s.Crosses u := by
  rcases hdrops with rfl | ⟨hk, rfl⟩
  · exact h
  · obtain ⟨passed, htokens, hne, hpassed⟩ := h
    obtain ⟨rest, hrest⟩ := t.exists_tokens
    have hnewline : t.current.kind = .newline := hk
    have hnext := (advance_of_tokens he hrest (by simp [hnewline])).1
    have hend : Token.Balanced [t.current] :=
      Token.balanced_nil.cons (by simp [hnewline]) (by simp [hnewline])
    refine crosses_of_tokens (passed ++ [t.current]) ?_ hnext (by simp) (hpassed.append hend)
    rw [htokens, hrest, List.append_assoc, List.singleton_append]

namespace Midway

theorem leads (h : s.Midway) (hleads : s.Leads t) : t.Midway := by
  obtain ⟨passed, hpassed⟩ := hleads.rest_isSuffix
  have hsettled := h.settled
  rw [← hpassed] at hsettled
  exact ⟨hsettled.of_append, hleads.ending_eq ▸ h.ending, hleads.cap_eq.trans h.uncapped⟩

theorem exists_rest (hend : s.atEnd = false) : ∃ more, s.rest = s.current :: more := by
  cases hrest : s.rest with
  | nil => simp [atEnd, hrest] at hend
  | cons x more => exact ⟨more, by simp [current, ahead, hrest]⟩

/-- What stands behind a block or a line begins with no block, the end of the text included. -/
theorem head_ne_indent (h : s.Midway) {rest : List Token}
    (hrest : ∀ t ∈ rest.head?, t.kind ≠ .indent) :
    ∀ t ∈ (rest ++ [s.ending]).head?, t.kind ≠ .indent := by
  cases rest with
  | nil => simp [h.ending]
  | cons x rest => exact hrest

/-- Where no block ends there is a line with what is below it; where a block begins, the line is
missing. -/
theorem exists_segment (h : s.Midway) (hend : s.atEnd = false) (hdedent : s.kind ≠ .dedent) :
    ∃ line below rest, s.tokens = line ++ (below ++ rest) ∧ IsBelow below ∧
      (∀ t ∈ rest.head?, t.kind ≠ .indent) ∧
      (s.kind = .indent ∧ line = [] ∧ below ≠ [] ∨
        s.kind ≠ .indent ∧ ∃ words newline, line = words ++ [newline] ∧
          (∀ t ∈ words, t.isStructural = false) ∧ newline.IsMark .newline) := by
  obtain ⟨more, hrest⟩ := exists_rest hend
  have hsettled : Settled (s.current :: more) := hrest ▸ h.settled
  have htokens : s.tokens = (s.current :: more) ++ [s.ending] := by rw [tokens, hrest]
  by_cases hindent : s.kind = .indent
  · obtain ⟨below, rest, heq, hbelow, hhead⟩ := hsettled.exists_below
    refine ⟨[], below, rest ++ [s.ending], ?_, hbelow, h.head_ne_indent hhead,
      .inl ⟨hindent, rfl, ?_⟩⟩
    · rw [htokens, heq, List.append_assoc]
      rfl
    · rintro rfl
      rw [List.nil_append] at heq
      exact hhead s.current (by rw [← heq]; rfl) hindent
  · obtain ⟨words, newline, later, heq, hwords, hnewline⟩ := hsettled.exists_line hindent hdedent
    have hbehind : Settled (newline :: later) := (heq ▸ hsettled).of_append
    obtain ⟨below, rest, rfl, hbelow, hhead⟩ := hbehind.tail.exists_below
    refine ⟨words ++ [newline], below, rest ++ [s.ending], ?_, hbelow, h.head_ne_indent hhead,
      .inr ⟨hindent, words, newline, rfl, hwords, hbehind.isMark hnewline rfl⟩⟩
    rw [htokens, heq]
    simp

end Midway

/-- From the beginning of a line or of a block a loop goes on behind balanced tokens, whether the
line is read or fails. -/
theorem crosses_resumed [line.Proceeds] (hline : line.Completes (fun _ => True) G)
    (hrefuses : line.Refuses) (hG : G g g) (hs : s.Midway) (hreads : Reads s) :
    s.Crosses (line g s).resumed := by
  obtain ⟨first, below, rest, htokens, hbelow, hrest, hfirst⟩ :=
    hs.exists_segment hreads.notEnd hreads.notDedent
  have hclear := Frame.clear_besideBare (s := s) hrest
  have halike : (Frame.besideBare s rest).Alike .apart (first ++ below) s (bare (first ++ below)) :=
    Frame.alike_besideBare hs.ending hs.uncapped (by simpa using htokens)
  rcases hfirst with ⟨hindent, rfl, hne⟩ | ⟨hindent, words, newline, rfl, hwords, hnewline⟩
  · cases hbelow with
    | none => exact absurd rfl hne
    | @block body indent dedent opens inner closes =>
      obtain ⟨p, hp⟩ := hrefuses indent opens
      have hfails : line g s = ⟨g, some p, s⟩ := hp g s (current_of_tokens halike.left)
      have hafter := halike.recover_block opens inner closes (Nat.zero_le _) p hclear
      rw [hfails]
      exact crosses_of_tokens _ halike.left hafter.left (by simp)
        (inner.balanced.block opens.kind_eq closes.kind_eq)
  · have hwhole : (words ++ [newline]) ++ below = words ++ newline :: below := by simp
    rw [hwhole] at halike
    have hlineBalanced : Token.Balanced (words ++ [newline]) :=
      (Token.balanced_words hwords).append
        (Token.balanced_nil.cons (by simp [hnewline.kind_eq]) (by simp [hnewline.kind_eq]))
    have hallBalanced : Token.Balanced (words ++ newline :: below) :=
      hwhole ▸ hlineBalanced.append hbelow.balanced
    have hwithin := WholeLine.within_besideBare hnewline hbelow hrest hwords hs.ending hs.uncapped
      (by simpa using htokens)
    have hword : s.kind.isStructural = false := by
      cases words with
      | nil => exact absurd ((kind_of_tokens halike.left).trans hnewline.kind_eq) hreads.notNewline
      | cons x words => exact (kind_of_tokens halike.left).symm ▸ hwords x (List.mem_cons_self ..)
    have hout := hline (Nat.zero_le _) hwithin hword trivial hG
    generalize line g s = left at hout ⊢
    generalize line g (bare (words ++ newline :: below)) = right at hout
    cases hout with
    | failed gathered p within =>
      obtain ⟨left, hleft, halike'⟩ := within
      have hafter := halike'.recover_line hclear hleft hnewline hbelow (Nat.zero_le _) p
      exact crosses_of_tokens _ halike.left hafter.left (by simp) hallBalanced
    | done gathered passed =>
      cases passed with
      | behind hbehind =>
        exact crosses_of_tokens _ htokens hbehind.alike.left (by simp) hlineBalanced
      | beyond hbeyond hdrops _ =>
        exact (crosses_of_tokens _ halike.left hbeyond.left (by simp) hallBalanced).drops hdrops
          hbeyond.leftEnding

theorem crosses_lineRound (h : Parser.BlockLine line) (hs : s.Midway) (hreads : Reads s) (g : α) :
    s.Crosses (s.lineRound line g).2 := by
  have := h.proceeds
  have hcrosses := crosses_resumed h.completes h.refuses (rfl : g = g) hs hreads
  rw [lineRound_of_lt hcrosses.remaining_lt]
  exact hcrosses

/-- The token that ends a block is the one that matches its beginning, whatever the lines in it
are. -/
def EndsWithBlock (s : ParserState) : Prop :=
  ∃ body dedent rest, s.tokens = s.current :: (body ++ dedent :: rest) ∧
    Token.Balanced body ∧ dedent.kind = .dedent ∧ s.skipBlock.tokens = rest ∧
    ∀ {α : Type} {line : LineParser α}, Parser.BlockLine line → ∀ gathered,
      ∃ a t, Parser.blockLines line gathered s.advance = .ok a t ∧ t.tokens = rest

theorem endsWithBlock (hs : s.Midway) (hk : s.kind = .indent) : s.EndsWithBlock := by
  have hend : s.atEnd = false := atEnd_of_ne hs.ending (by simp [hk])
  obtain ⟨first, below, rest, htokens, hbelow, hrest, hfirst⟩ :=
    hs.exists_segment hend (by simp [hk])
  rcases hfirst with ⟨-, rfl, hne⟩ | ⟨hindent, -⟩
  · have hskip : s.skipBlock.tokens = rest := by
      rw [skipBlock_of_below hbelow hs.ending htokens hrest]
      exact tokens_iterate hs.ending htokens hbelow.ne_eof
    cases hbelow with
    | none => exact absurd rfl hne
    | @block body indent dedent opens inner closes =>
      have hall : s.tokens = indent :: (body ++ dedent :: rest) := by simpa using htokens
      have hcurrent := current_of_tokens hall
      have hinside := (advance_of_tokens hs.ending hall (opens.ne_eof (by decide))).1
      refine ⟨body, dedent, rest, hcurrent ▸ hall, inner.balanced, closes.kind_eq, hskip, ?_⟩
      intro α line hline gathered
      have := hline.proceeds
      obtain ⟨t, a, ht, -, hreaches⟩ := runLines_bodyBlock (K := fun _ => True) hline.completes
        hline.refuses inner closes (by simpa using hs.ending) (by simpa using hs.uncapped) hinside
        (rfl : gathered = gathered)
      exact ⟨a, t, by rw [Parser.blockLines_eq, ← runLines, ht], hreaches.tokens⟩
  · exact absurd hk hindent

end ParserState

namespace FileParts

/-- The parts and the state before an item of the file, when the loop over items begins at
`start`. -/
inductive Meets (start : ParserState) : FileParts → ParserState → Prop
  | start : Meets start .empty start
  | next {f : FileParts} {s : ParserState} (h : Meets start f s) (notEnd : s.atEnd = false)
      (notHalted : s.halted = false) : Meets start (f.nextItem s).1 (f.nextItem s).2

variable {start s : ParserState} {f : FileParts}

theorem Meets.leads (h : Meets start f s) : start.Leads s := by
  induction h with
  | start => exact .refl
  | @next f s _ _ _ ih => exact ih.trans (leads_nextItem f s)

/-- The loop over items comes to such states only. -/
theorem Meets.readItems (h : Meets start f s) (fuel : Nat) :
    Meets start (readItems fuel f s).1 (readItems fuel f s).2 := by
  induction fuel generalizing f s with
  | zero => exact h
  | succ fuel ih =>
    rw [readItems_succ]
    split_ifs with hstop
    · exact h
    · simp only [Bool.or_eq_true, not_or, Bool.not_eq_true] at hstop
      exact ih (h.next hstop.1 hstop.2)

theorem crosses_nextItem (hs : s.Midway) (hend : s.atEnd = false) (hdedent : s.kind ≠ .dedent) :
    s.Crosses (f.nextItem s).2 := by
  have hcrosses : s.Crosses (f.readItem s).2 := by
    by_cases hnewline : s.kind = .newline
    · obtain ⟨more, hrest⟩ := s.exists_tokens
      have hkind : s.current.kind = .newline := hnewline
      have hread : f.readItem s = (f, s.advance) := by
        unfold readItem
        rw [hnewline]
      rw [hread]
      exact crosses_of_tokens [s.current] hrest
        (advance_of_tokens hs.ending hrest (by simp [hkind])).1 (by simp)
        (Token.balanced_nil.cons (by simp [hkind]) (by simp [hkind]))
    · have hreads : Reads s := ⟨hnewline, hdedent, hend, halted_of_uncapped hs.uncapped⟩
      rw [readItem_eq hnewline]
      exact crosses_resumed completes_itemLine_eq refuses_itemLine ⟨rfl, rfl, rfl⟩ hs hreads
  have hlt := hcrosses.remaining_lt
  unfold nextItem
  rw [if_neg (by simpa using Nat.ne_of_lt hlt)]
  exact hcrosses

end FileParts

/-- Blocks nest in a parse as they do in the text, wherever the parse leads. -/
structure NestsBlocks (start : ParserState) : Prop where
  /-- In a block a round that does not end it passes balanced tokens. -/
  round : ∀ {α : Type} {line : LineParser α}, Parser.BlockLine line →
    ∀ {s : ParserState}, start.Leads s → Reads s →
      ∀ gathered, s.Crosses (s.lineRound line gathered).2
  block : ∀ {s : ParserState}, start.Leads s → s.kind = .indent → s.EndsWithBlock
  /-- The loop over the items of the file is outside all blocks wherever it stops. -/
  met : ∀ fuel, FileParts.Meets start (FileParts.empty.readItems fuel start).1
    (FileParts.empty.readItems fuel start).2
  /-- Outside all blocks none ends, and an item of the file passes balanced tokens. -/
  item : ∀ {f : FileParts} {s : ParserState}, FileParts.Meets start f s →
    s.kind ≠ .dedent ∧ (s.atEnd = false → s.Crosses (f.nextItem s).2)

namespace FileParts

variable {start s : ParserState} {f : FileParts}

/-- Where as many blocks have ended as begun, none can end. -/
theorem kind_ne_dedent {passed : List Token}
    (henough : ∀ first, first <+: start.rest →
      Token.countOf .dedent first ≤ Token.countOf .indent first)
    (hrest : start.rest = passed ++ s.rest) (hpassed : Token.Balanced passed)
    (he : s.ending.kind = .eof) : s.kind ≠ .dedent := by
  intro hk
  cases hs : s.rest with
  | nil =>
    have hcurrent : s.current = s.ending := by simp [current, ahead, hs]
    rw [kind, hcurrent, he] at hk
    cases hk
  | cons x more =>
    have hx : x.kind = .dedent := by simpa [kind, current, ahead, hs] using hk
    have hcount := henough (passed ++ [x]) ⟨more, by simp [hrest, hs]⟩
    have heven := hpassed.even
    simp [hx] at hcount
    omega

/-- Before every item of a file as many blocks have ended as begun. The induction is on the items
met before; it goes through because none of them begins where a block ends. -/
theorem Meets.balanced (h : Meets start f s) (hstart : start.Midway)
    (henough : ∀ first, first <+: start.rest →
      Token.countOf .dedent first ≤ Token.countOf .indent first) :
    ∃ passed, start.rest = passed ++ s.rest ∧ Token.Balanced passed := by
  induction h with
  | start => exact ⟨[], rfl, Token.balanced_nil⟩
  | @next f s h notEnd notHalted ih =>
    obtain ⟨before, hrest, hbefore⟩ := ih
    have hs := hstart.leads h.leads
    have hdedent := kind_ne_dedent henough hrest hbefore hs.ending
    obtain ⟨passed, htokens, -, hpassed⟩ := crosses_nextItem (f := f) hs notEnd hdedent
    rw [tokens, tokens, (leads_nextItem f s).ending_eq, ← List.append_assoc] at htokens
    refine ⟨before ++ passed, ?_, hbefore.append hpassed⟩
    rw [hrest, List.append_cancel_right htokens, List.append_assoc]

end FileParts

/-- A parse of a text begins before all its tokens, which are settled; before no point more blocks
have ended than begun. -/
theorem midway_ofSource (source : String) :
    (ofTokens (TokenizedText.ofSource source).tokens 0).Midway ∧
      ∀ first, first <+: (ofTokens (TokenizedText.ofSource source).tokens 0).rest →
        Token.countOf .dedent first ≤ Token.countOf .indent first := by
  obtain ⟨tokens, last, htokens, hlast, hsettled, henough⟩ := settled_ofSource source
  have hall : (ofTokens (tokens ++ [last]) 0).tokens = tokens ++ [last] := tokens_ofTokens hlast 0
  have hrest : (ofTokens (tokens ++ [last]) 0).rest = tokens := (List.append_inj' hall rfl).1
  rw [htokens]
  refine ⟨⟨?_, ending_kind_ofTokens _ _, rfl⟩, ?_⟩
  · rwa [hrest]
  · rwa [hrest]

/-- In the parse of every text a round that does not end its block passes balanced tokens. So every
block is left behind the token that matches its beginning, and no block ends outside all blocks. -/
theorem nestsBlocks_ofSource (source : String) :
    NestsBlocks (.ofTokens (TokenizedText.ofSource source).tokens 0) := by
  obtain ⟨hmidway, henough⟩ := midway_ofSource source
  constructor
  case round => exact fun hline s hs hreads g => crosses_lineRound hline (hmidway.leads hs) hreads g
  case block => exact fun hs hk => endsWithBlock (hmidway.leads hs) hk
  case met => exact FileParts.Meets.start.readItems
  case item =>
    intro f s hmeets
    have hs := hmidway.leads hmeets.leads
    obtain ⟨passed, hpassed, hbalanced⟩ := hmeets.balanced hmidway henough
    have hdedent := FileParts.kind_ne_dedent henough hpassed hbalanced hs.ending
    exact ⟨hdedent, fun hend => FileParts.crosses_nextItem hs hend hdedent⟩

end AgentScript
