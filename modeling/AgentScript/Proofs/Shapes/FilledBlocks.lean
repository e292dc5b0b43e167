import AgentScript.Proofs.Parsing.FilePlacement
import AgentScript.Proofs.Shapes.CleanParses
import AgentScript.Proofs.Shapes.TreeValues

/-!
# Blocks with something in them

A block list is read because a dash begins it, so its first line is read, and where nothing is
reported it adds an item. A block dictionary is read because nothing else is. If its block begins
with a token of a line there is an entry; but a block can consist of faults alone, of which the
parser sees nothing.
-/
namespace AgentScript

/-- A list in a block, without items. -/
def Value.isEmptyBlockList : Value → Bool
  | .list [] false _ => true
  | _ => false

/-- A dictionary in a block, without entries. -/
def Value.isEmptyBlockDictionary : Value → Bool
  | .dictionary [] false _ => true
  | _ => false

/-- The value is no block list without items and, if the condition holds, no block dictionary
without entries. -/
structure Value.Filled (C : Prop) (v : Value) : Prop where
  list : v.isEmptyBlockList = false
  dictionary : C → v.isEmptyBlockDictionary = false

/-- Every block in the value has something in it. -/
def Value.AllFilled (C : Prop) (v : Value) : Prop := ∀ w ∈ v.all, w.Filled C

variable {C : Prop}

namespace Value

theorem allFilled_list {items : List Value} {isInline : Bool} {l : Option Location}
    (below : ∀ v ∈ items, v.AllFilled C) (member : isInline = false → items ≠ []) :
    (Value.list items isInline l).AllFilled C := by
  refine each_list ⟨?_, fun _ => rfl⟩ below
  cases isInline with
  | true => cases items <;> rfl
  | false =>
    obtain ⟨v, items, rfl⟩ := List.exists_cons_of_ne_nil (member rfl)
    rfl

theorem allFilled_dictionary {entries : List (Keyed Value)} {isInline : Bool}
    {l : Option Location} (below : ∀ e ∈ entries, e.value.AllFilled C)
    (member : isInline = false → C → entries ≠ []) :
    (Value.dictionary entries isInline l).AllFilled C := by
  refine each_dictionary ⟨rfl, fun hC => ?_⟩ below
  cases isInline with
  | true => cases entries <;> rfl
  | false =>
    obtain ⟨e, entries, rfl⟩ := List.exists_cons_of_ne_nil (member rfl hC)
    rfl

/-- A value without values in it. -/
theorem allFilled_of_all_eq {v : Value} (h : v.all = [v]) (hlist : v.isEmptyBlockList = false)
    (hdictionary : v.isEmptyBlockDictionary = false) : v.AllFilled C :=
  each_of_all_eq h ⟨hlist, fun _ => hdictionary⟩

theorem IsInline.allFilled {v : Value} (h : v.IsInline) : v.AllFilled C := by
  induction h with
  | list below l ih => exact allFilled_list ih (by rintro ⟨⟩)
  | dictionary below l ih => exact allFilled_dictionary ih (by rintro ⟨⟩)
  | _ => exact allFilled_of_all_eq rfl rfl rfl

end Value

open ParserState

/-- If the condition holds, a block begins with a token of a line. -/
def OpensBlock (C : Prop) (a b : Token) : Prop := C → a.kind = .indent → b.isStructural = false

namespace Parser

variable {value : Parser Value} [Proceeds value] {s t : ParserState} {v : Value}

/-- A dash begins the block, so there is an item. -/
theorem filled_blockList (h : YieldsClean (Orderly (OpensBlock C)) (Value.AllFilled C) value)
    (hs : s.Orderly (OpensBlock C)) (hk : s.kind = .dash) (heq : blockList value s = .ok v t)
    (ht : t.problems = #[]) : v.AllFilled C := by
  obtain ⟨start, _, ⟨⟩, heq⟩ := bind_eq_ok.mp heq
  obtain ⟨items, u, hitems, ⟨⟩⟩ := bind_eq_ok.mp heq
  have hline : (listLine value).Brings (Orderly (OpensBlock C)) (fun l => ∀ v ∈ l, v.AllFilled C)
      fun l => l ≠ [] ∧ ∀ v ∈ l, v.AllFilled C :=
    (LineParser.brings_item (.skip fun _ => h)).thenFinish
  have hdash : True → s.kind.isStructural = false := fun _ => hk ▸ rfl
  obtain ⟨hmember, hbelow⟩ := blockLines_items hline hs hdash hitems ht
  exact Value.allFilled_list hbelow fun _ => hmember trivial

/-- There is an entry if the block begins with a token of a line. -/
theorem filled_blockDictionary (h : YieldsClean (Orderly (OpensBlock C)) (Value.AllFilled C) value)
    (hs : s.Orderly (OpensBlock C)) (hk : C → s.kind.isStructural = false)
    (heq : blockDictionary value s = .ok v t) (ht : t.problems = #[]) : v.AllFilled C := by
  obtain ⟨start, _, ⟨⟩, heq⟩ := bind_eq_ok.mp heq
  obtain ⟨entries, u, hentries, ⟨⟩⟩ := bind_eq_ok.mp heq
  have hline : (dictionaryLine value).Brings (Orderly (OpensBlock C))
      (fun l => ∀ e ∈ l, e.Formed (Value.AllFilled C))
      fun l => l ≠ [] ∧ ∀ e ∈ l, e.Formed (Value.AllFilled C) :=
    LineParser.brings_item (h.keyedLine _ _)
  obtain ⟨hmember, hbelow⟩ := blockLines_items hline hs hk hentries ht
  exact Value.allFilled_dictionary (fun e he => (hbelow e he).value) fun _ => hmember

theorem yieldsClean_valueWithin (depth : Nat) :
    YieldsClean (Orderly (OpensBlock C)) (Value.AllFilled C) (valueWithin depth) := by
  have hinline : Yields (Value.AllFilled C) inlineValue := fun _ _ _ heq =>
    (yields_inlineValue heq).isInline.allFilled
  have hlines (chomping : Chomping) : Yields (Value.AllFilled C) (multilineString chomping) :=
    .skip fun _ => .skip fun _ => .skip fun _ => .pure (Value.allFilled_of_all_eq rfl rfl rfl)
  have hcode : Yields (Value.AllFilled C) codeBlock :=
    .skip fun _ => .skip fun _ => .skip fun _ => .pure (Value.allFilled_of_all_eq rfl rfl rfl)
  induction depth with
  | zero => exact (yields_unexpected _).between
  | succ depth ih =>
    intro s t v hs heq ht
    obtain ⟨k, _, hkind, heq⟩ := bind_eq_ok.mp heq
    obtain ⟨rfl, rfl⟩ := EStateM.Result.ok.inj hkind
    generalize hk : s.kind = k at heq
    split at heq
    case h_1 hk =>
      obtain ⟨b, _, ⟨⟩, heq⟩ := bind_eq_ok.mp heq
      split_ifs at heq with hindent
      · obtain ⟨_, _, ⟨⟩, heq⟩ := bind_eq_ok.mp heq
        obtain ⟨_, _, ⟨⟩, heq⟩ := bind_eq_ok.mp heq
        obtain ⟨d, _, ⟨⟩, heq⟩ := bind_eq_ok.mp heq
        have hblock : s.advance.advance.Orderly (OpensBlock C) :=
          ((leads_advance _).trans (leads_advance _)).orderly hs
        split_ifs at heq with hdash
        · exact filled_blockList ih hblock (by simpa using hdash) heq ht
        · have hopens : s.advance.kind = .indent := by
            rw [kind_advance]
            simpa using hindent
          have hword := ((leads_advance s).orderly hs).rel_advance (by simp [hopens])
          exact filled_blockDictionary ih hblock (fun hC => hword hC hopens) heq ht
      · exact hinline heq
    case h_2 => exact hlines _ heq
    case h_3 => exact hcode heq
    case h_4 => exact hinline heq

end Parser

/-- A parse that reports nothing leaves a tree in which every block list has an item, and, if every
block begins with a token of a line, every block dictionary has an entry. -/
theorem ParsedFile.filled_read {s : ParserState} (hs : s.Orderly (OpensBlock C))
    (hclean : (read s).2.problems = #[]) :
    ∀ tree ∈ (read s).1, ∀ v ∈ tree.allValues, v.Filled C := by
  have hinline : Parser.YieldsClean (Orderly (OpensBlock C)) (Value.AllFilled C)
    Parser.inlineValue :=
    Parser.Yields.between fun _ _ _ heq => (Parser.yields_inlineValue heq).isInline.allFilled
  exact each_read (.skip fun _ => Parser.yieldsClean_valueWithin _) hinline hs hclean

theorem ParsedFile.filled_ofTokens {tokens : List Token} {options : ParseOptions}
    (hs : (ParserState.ofTokens tokens options.maxErrors).Orderly (OpensBlock C))
    (h : (ofTokens tokens options).errors = []) :
    ∀ tree ∈ (ofTokens tokens options).tree, ∀ v ∈ tree.allValues, v.Filled C :=
  filled_read hs (by simpa [ofTokens] using h)

/-- A parse of a text begins with its tokens, of which the first in a block is one of a line if
nothing is wrong with the text. -/
theorem ParserState.orderly_ofSource (source : String) (file : Option String) (cap : Nat) :
    (ofTokens (TokenizedText.ofLabelledSource source file).tokens cap).Orderly
      (OpensBlock ((TokenizedText.ofLabelledSource source file).errors = [])) := by
  have htokens : (ofTokens (TokenizedText.ofLabelledSource source file).tokens cap).tokens =
      (TokenizedText.ofLabelledSource source file).tokens := tokens_ofSource _ _
  refine ⟨ending_kind_ofTokens _ _, ?_⟩
  rw [htokens, List.isChain_iff_getElem]
  exact fun i hi hnone => List.isChain_iff_getElem.mp (tokens_begin source file hnone) i hi

/-- Where no parse error is found, every block list of the tree has an item, at whatever depth it
stands. Where no lexical error is found either, every block dictionary has an entry. -/
theorem Document.blocks_filled (source : String) (options : ParseOptions)
    (h : (ofSource source options).parseErrors = []) :
    ∀ tree ∈ (ofSource source options).tree, ∀ v ∈ tree.allValues,
      v.isEmptyBlockList = false ∧
      ((ofSource source options).lexicalErrors = [] → v.isEmptyBlockDictionary = false) := by
  intro tree htree v hv
  unfold ofSource at h htree ⊢
  dsimp only at h htree ⊢
  have hfilled := ParsedFile.filled_ofTokens
    (ParserState.orderly_ofSource source options.file options.maxErrors) h tree htree v hv
  exact ⟨hfilled.list, hfilled.dictionary⟩

/-- A list in a dictionary, both in blocks. -/
theorem Document.blocks_filled_nested :
    let document := ofSource "agent A:\n  agentConfig:\n    a:\n      b:\n        - 1\n" .standard
    document.parseErrors = [] ∧ document.lexicalErrors = [] ∧
      ∃ tree ∈ document.tree, tree.allValues.length = 3 ∧
        ∀ v ∈ tree.allValues, v.isEmptyBlockList = false ∧ v.isEmptyBlockDictionary = false := by
  intro document
  have hparse : document.parseErrors = [] := by decide +kernel
  have hlexical : document.lexicalErrors = [] := by decide +kernel
  have htree : document.tree.any (·.allValues.length == 3) = true := by decide +kernel
  obtain ⟨tree, htree, hlength⟩ := (Option.any_eq_true _ _).mp htree
  refine ⟨hparse, hlexical, tree, htree, by simpa using hlength, fun v hv => ?_⟩
  have hfilled := blocks_filled _ _ hparse tree htree v hv
  exact ⟨hfilled.1, hfilled.2 hlexical⟩

/-- A block of faults alone is a dictionary without entries, and the parser reports nothing. -/
theorem Document.blocks_filled_faultsAlone :
    let document := ofSource "agent A:\n  agentConfig:\n    a:\n      ;\n" .standard
    document.parseErrors = [] ∧
      ∃ tree ∈ document.tree, ∃ v ∈ tree.allValues, v.isEmptyBlockDictionary = true := by
  intro document
  have htree : document.tree.any (·.allValues.any Value.isEmptyBlockDictionary) = true := by
    decide +kernel
  obtain ⟨tree, htree, hempty⟩ := (Option.any_eq_true _ _).mp htree
  exact ⟨by decide +kernel, tree, htree, List.any_eq_true.mp hempty⟩

end AgentScript
