import AgentScript.Proofs.Parsing.FilePlacement
import AgentScript.Proofs.Shapes.TreeValues

/-!
# The numbers of trees

A number is made of a number token and stands where the token does. Wherever a parse stops and
whatever it gives up, so does every number of the tree it leaves.
-/
namespace AgentScript

open ParserState

/-- The state is before tokens that end a list. -/
def ParserState.Within (all : List Token) (s : ParserState) : Prop := s.tokens <:+ all

instance enduring_within {all : List Token} : Enduring (ParserState.Within all) :=
  ⟨fun hs h => h.tokens_isSuffix.trans hs⟩

theorem ParserState.Within.current_mem {all : List Token} {s : ParserState} (h : s.Within all) :
    s.current ∈ all := by
  obtain ⟨l, hl⟩ := s.exists_tokens
  exact h.mem (hl ▸ List.mem_cons_self)

/-- If the value is a number, it is what the text of a number token denotes, and it stands where
the token does. -/
def Value.FromToken (all : List Token) : Value → Prop
  | .number x l => ∃ t ∈ all, t.kind = .number ∧ l = some t.location ∧ readFloat? t.text = some x
  | _ => True

namespace Parser

variable {all : List Token} {item : Parser Value} [Proceeds item]

/-- Among these tokens, the numbers in what the parser answers with are those of number tokens. -/
abbrev ReadsNumbers (all : List Token) (p : Parser Value) : Prop :=
  YieldsBetween (ParserState.Within all) (fun _ => True) (Value.Each (Value.FromToken all)) p

/-- A number and all values in it, which is itself. -/
theorem number_fromToken : YieldsBetween (fun s => s.Within all ∧ s.kind = .number)
    (fun _ => True) (Value.Each (Value.FromToken all))
    (advance >>= fun t => ofNode (Value.ofNumberToken t) t.location) := by
  rintro s t v ⟨hs, hk⟩ heq -
  obtain ⟨_, _, ⟨⟩, heq⟩ := bind_eq_ok.mp heq
  refine yields_ofNode (P := Value.Each (Value.FromToken all)) (fun v hv => ?_) _ heq
  unfold Value.ofNumberToken at hv
  split at hv
  · next x hx =>
    cases hv
    exact Value.each_of_all_eq rfl ⟨s.current, hs.current_mem, hk, rfl, hx⟩
  · cases hv

section

variable (h : ReadsNumbers all item)

include h

theorem inlineList_fromToken (bracket : Bracket) (what : String) :
    ReadsNumbers all (inlineList item bracket what) :=
  .skip fun _ => .skip fun _ => ((itemLoop_listItems item _).yieldsBetween h _).bind
    fun _ hitems => .skip fun _ => .skip fun _ =>
      (Yields.pure (Value.each_list trivial hitems)).between

theorem inlineDictionary_fromToken : ReadsNumbers all (inlineDictionary item) :=
  .skip fun _ => .skip fun _ => ((itemLoop_dictionaryEntries item).yieldsBetween
    (h.keyed _ _) _).bind fun _ hentries => .skip fun _ => .skip fun _ =>
      (Yields.pure (Value.each_dictionary trivial fun e he => (hentries e he).value)).between

end

theorem inlineValueWithin_fromToken (depth : Nat) : ReadsNumbers all (inlineValueWithin depth) := by
  have hexpression : Yields (Value.Each (Value.FromToken all)) expression :=
    .skip fun _ => .skip fun _ => .ite (.skip fun _ => .pure (Value.each_of_all_eq rfl trivial))
      (.pure (Value.each_of_all_eq rfl trivial))
  have hidentifier : Yields (Value.Each (Value.FromToken all)) identifier :=
    .skip fun _ => .skip fun _ => .skip fun _ => .skip fun _ =>
      .pure (Value.each_of_all_eq rfl trivial)
  induction depth with
  | zero => exact (yields_unexpected _).between
  | succ depth ih =>
    refine .kind_bind fun k => ?_
    split
    case h_2 => exact number_fromToken
    all_goals refine YieldsBetween.restrict (S := ParserState.Within all) ?_ fun _ hs => hs.1
    case h_1 => exact .skip fun _ => (Yields.pure (Value.each_of_all_eq rfl trivial)).between
    case h_3 =>
      refine .skip fun t => Yields.between ?_
      split
      · next v hv =>
        refine .pure ?_
        unfold Value.ofLiteralToken? at hv
        split at hv
        · cases hv
          exact Value.each_of_all_eq rfl trivial
        · cases hv
          exact Value.each_of_all_eq rfl trivial
        · cases hv
      · exact yields_unexpected _
    case h_4 => exact .skip fun _ => (Yields.pure (Value.each_of_all_eq rfl trivial)).between
    case h_5 => exact .skip fun _ => (Yields.pure (Value.each_of_all_eq rfl trivial)).between
    case h_6 => exact hexpression.between
    case h_7 => exact inlineList_fromToken ih _ _
    case h_8 => exact inlineList_fromToken ih _ _
    case h_9 => exact inlineDictionary_fromToken ih
    case h_10 => exact hidentifier.between
    case h_11 => exact hidentifier.between
    case h_12 => exact (yields_unexpected _).between

theorem inlineValue_fromToken : ReadsNumbers all inlineValue :=
  .skip fun _ => inlineValueWithin_fromToken _

theorem blockList_fromToken (h : ReadsNumbers all item) : ReadsNumbers all (blockList item) := by
  have hline : (listLine item).KeepsBetween (ParserState.Within all) (fun _ => True)
      fun l => ∀ v ∈ l, v.Each (Value.FromToken all) :=
    (LineParser.keepsBetween_item (.skip fun _ => h)).thenFinish
  exact .skip fun _ => (yieldsBetween_blockLines hline (List.forall_mem_nil _)).bind
    fun _ hitems => .skip fun _ => (Yields.pure (Value.each_list trivial hitems)).between

theorem blockDictionary_fromToken (h : ReadsNumbers all item) :
    ReadsNumbers all (blockDictionary item) := by
  have hline : (dictionaryLine item).KeepsBetween (ParserState.Within all) (fun _ => True)
      fun l => ∀ e ∈ l, e.Formed (Value.Each (Value.FromToken all)) :=
    LineParser.keepsBetween_item (h.keyedLine _ _)
  exact .skip fun _ => (yieldsBetween_blockLines hline (List.forall_mem_nil _)).bind
    fun _ hentries => .skip fun _ => (Yields.pure
      (Value.each_dictionary trivial fun e he => (hentries e he).value)).between

theorem valueWithin_fromToken (depth : Nat) : ReadsNumbers all (valueWithin depth) := by
  induction depth with
  | zero => exact (yields_unexpected _).between
  | succ depth ih =>
    refine .skip fun k => ?_
    split
    case h_1 =>
      refine .skip fun _ => .ite (.skip fun _ => .skip fun _ => .skip fun _ => .ite ?_ ?_)
        inlineValue_fromToken
      · exact blockList_fromToken ih
      · exact blockDictionary_fromToken ih
    case h_2 =>
      exact .skip fun _ => .skip fun _ => .skip fun _ =>
        (Yields.pure (Value.each_of_all_eq rfl trivial)).between
    case h_3 =>
      exact .skip fun _ => .skip fun _ => .skip fun _ =>
        (Yields.pure (Value.each_of_all_eq rfl trivial)).between
    case h_4 => exact inlineValue_fromToken

theorem value_fromToken : ReadsNumbers all value :=
  .skip fun _ => valueWithin_fromToken _

end Parser

theorem ParsedFile.fromToken_ofTokens {tokens : List Token} {options : ParseOptions}
    (hs : (ParserState.ofTokens tokens options.maxErrors).tokens = tokens) :
    ∀ tree ∈ (ofTokens tokens options).tree, ∀ v ∈ tree.allValues, v.FromToken tokens := by
  have hwithin : (ParserState.ofTokens tokens options.maxErrors).Within tokens := ⟨[], hs⟩
  intro tree htree
  unfold ofTokens at htree
  dsimp only at htree
  exact each_read Parser.value_fromToken Parser.inlineValue_fromToken hwithin trivial tree htree

/-- Every number of the tree is what a number token of the source denotes, in its place. -/
theorem Document.values_fromToken (source : String) (options : ParseOptions) :
    ∀ tree ∈ (ofSource source options).tree, ∀ v ∈ tree.allValues,
      v.FromToken (ofSource source options).tokens := by
  intro tree htree
  unfold ofSource at htree ⊢
  dsimp only at htree ⊢
  have htokens := tokens_ofSource source.toList options.maxErrors
  exact ParsedFile.fromToken_ofTokens htokens tree htree

end AgentScript
