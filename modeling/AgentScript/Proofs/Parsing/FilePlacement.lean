import AgentScript.Document
import AgentScript.Proofs.Parsing.SectionPlacement
import AgentScript.Proofs.Reading.Openings

/-!
# Where the nodes of files are placed

A file is recognized by the keyword of an import or an agent, so its tree never stands for
an empty range. The tokens of a text without lexical errors are ordered, and from them
every node gets its place, whatever is wrong with the lines.
-/
namespace AgentScript

variable {limit : Nat} {lo : Position} {s t : ParserState}

namespace FileParts

def rows (f : FileParts) : List (List Node) :=
  [f.imports.map Import.node, f.agent.toList.map Agent.node]

/-- The rows of a file stand in place, and a recognized file has passed text. -/
structure Stands (limit : Nat) (lo : Position) (f : FileParts) (s : ParserState) : Prop where
  ordered : s.Ordered limit
  behind : lo.Before s.current.start
  rows : Rows limit lo s f.rows
  past : f.recognized = true → s.Past lo

variable {f : FileParts}

theorem Stands.leads (h : f.Stands limit lo s) (ht : s.Leads t) : f.Stands limit lo t :=
  ⟨h.ordered.leads ht, h.behind.trans (h.ordered.current_before ht), h.rows.leads h.ordered ht,
    fun hr => h.ordered.past_leads ht (h.past hr)⟩

/-- Behind its keyword the file is recognized. -/
theorem Stands.recognized (h : f.Stands limit lo s) (ht : s.Leads t)
    (hpast : t.Past s.current.start) :
    { f with recognized := true }.Stands limit lo t :=
  { h.leads ht with past := fun _ => hpast.mono h.behind }

/-- A keyword is passed before the parser behind it can fail. -/
theorem past_after_advance {α : Type} {f : Token → Parser α} [hf : ∀ t, Parser.Proceeds (f t)]
    (hs : s.Ordered limit) (hword : s.kind.isStructural = false) :
    ((Parser.advance >>= f).after s).Past s.current.start := by
  have hleads : s.advance.Leads ((Parser.advance >>= f).after s) := (hf s.current).leads s.advance
  have hpast := hs.past_current hword
  exact hs.advance.past_leads hleads (hpast.mono hs.current.1)

theorem stands_readImport (h : f.Stands limit lo s) (hword : s.kind.isStructural = false) :
    (f.readImport s).1.Stands limit lo (f.readImport s).2 := by
  have hpast : (Parser.importLine.after s).Past s.current.start :=
    past_after_advance h.ordered hword
  unfold Parser.after at hpast
  unfold readImport
  dsimp only
  cases heq : Parser.importLine s with
  | ok i t =>
    rw [heq] at hpast
    have hfound := h.recognized (Parser.leads_of_ok _ heq) hpast
    have hi := Parser.places_importLine h.ordered hword heq
    have himports := (h.rows _ (List.mem_cons_self ..)).append h.ordered
      (Parser.leads_of_ok _ heq) h.behind hi
    refine { hfound with rows := fun row hrow => ?_ }
    rcases List.mem_pair.mp hrow with rfl | rfl
    · simpa using himports
    · exact hfound.rows _ (List.mem_cons_of_mem _ (List.mem_singleton_self _))
  | error e t =>
    rw [heq] at hpast
    exact (h.recognized (Parser.leads_of_error _ heq) hpast).leads (t.leads_recover e)

theorem stands_readAgent (h : f.Stands limit lo s) (hword : s.kind.isStructural = false) :
    (f.readAgent s).1.Stands limit lo (f.readAgent s).2 := by
  have hpast : (Parser.agent.after s).Past s.current.start := past_after_advance h.ordered hword
  unfold Parser.after at hpast
  unfold readAgent
  dsimp only
  cases heq : Parser.agent s with
  | ok a t =>
    rw [heq] at hpast
    have hfound := h.recognized (Parser.leads_of_ok _ heq) hpast
    have ha := Parser.places_agent h.ordered hword heq
    dsimp only
    split
    · refine { hfound with rows := fun row hrow => ?_ }
      rcases List.mem_pair.mp hrow with rfl | rfl
      · exact hfound.rows _ (List.mem_cons_self ..)
      · exact ha.from_before h.behind
    · exact hfound.leads (t.leads_report _)
  | error e t =>
    rw [heq] at hpast
    exact (h.recognized (Parser.leads_of_error _ heq) hpast).leads (t.leads_recover e)

theorem stands_readItem (h : f.Stands limit lo s) :
    (f.readItem s).1.Stands limit lo (f.readItem s).2 := by
  unfold readItem
  split
  case h_1 => exact h.leads s.leads_advance
  case h_2 hk => exact stands_readImport h (by rw [hk]; rfl)
  case h_3 hk => exact stands_readAgent h (by rw [hk]; rfl)
  case h_4 => exact h.leads ((s.leads_report _).trans (ParserState.leads_skipBlock _))
  case h_5 => exact h.leads (s.leads_recover _)

theorem stands_readItems (h : f.Stands limit lo s) (fuel : Nat) :
    (readItems fuel f s).1.Stands limit lo (readItems fuel f s).2 := by
  induction fuel generalizing f s with
  | zero => exact h
  | succ fuel ih =>
    unfold readItems
    split_ifs
    · exact h
    · have hitem := stands_readItem h
      apply ih
      split_ifs
      · exact hitem.leads (ParserState.leads_advance _)
      · exact hitem

end FileParts

namespace ParsedFile

/-- From ordered tokens every node gets its place. -/
theorem placed_read {tree : SourceFile} (hs : s.Ordered limit) (h : (read s).1 = some tree) :
    tree.node.Placed limit := by
  have hstart : FileParts.empty.Stands limit s.current.start s := by
    refine ⟨hs, .refl _, ?_, fun hr => nomatch hr⟩
    intro row hrow
    rcases List.mem_pair.mp hrow with rfl | rfl
    · exact Row.nil _ _ _
    · exact Row.nil _ _ _
  have hstands := FileParts.stands_readItems hstart s.remaining
  unfold read at h
  dsimp only at h
  split_ifs at h with hrecognized hagent
  · cases h
    have hend := hstands.leads (ParserState.leads_report _ ⟨.missingAgent, none⟩)
    exact (Row.span hend.ordered (hend.past hrecognized) hend.rows).placed _
      (List.mem_singleton_self _)
  · cases h
    exact (Row.span hstands.ordered (hstands.past hrecognized) hstands.rows).placed _
      (List.mem_singleton_self _)

end ParsedFile

/-- The tokens of a text are all there when its parse begins. -/
theorem ParserState.tokens_ofSource (text : List Char) (cap : Nat) :
    (ofTokens (Reading.transcribe text).tokens.toList cap).tokens =
      (Reading.transcribe text).tokens.toList := by
  obtain ⟨body, stop, hbody, -⟩ := Reading.nested_transcribe text
  rw [hbody]
  exact tokens_ofTokens rfl cap

/-- Without lexical errors a parse begins with ordered tokens. -/
theorem ParserState.ordered_ofSource (source : String) (file : Option String) (cap : Nat)
    (h : (TokenizedText.ofLabelledSource source file).errors = []) :
    (ofTokens (TokenizedText.ofLabelledSource source file).tokens cap).Ordered
      source.toList.length := by
  have htokens : (ofTokens (TokenizedText.ofLabelledSource source file).tokens cap).tokens =
      (TokenizedText.ofLabelledSource source file).tokens := tokens_ofSource _ _
  have hfollows := Reading.follows_transcribe source.toList
  constructor
  case chain =>
    rw [htokens, List.isChain_iff_getElem]
    intro i hi
    exact ⟨List.isChain_iff_getElem.mp hfollows.ordered i hi,
      List.isChain_iff_getElem.mp (tokens_begin source file h) i hi⟩
  case inside =>
    rw [htokens]
    exact fun t ht => ⟨(hfollows.reads t ht).ordered, (hfollows.reads t ht).inside⟩
  case ending => exact ending_kind_ofTokens _ _
  case passed => exact fun p hp => nomatch hp

/-- Every node of the tree of a text without lexical errors lies in the text, around the nodes
below it, and the nodes of a list follow each other, whatever errors the parse finds. -/
theorem tree_placed (source : String) (options : ParseOptions) (tree : SourceFile)
    (herrors : (Document.ofSource source options).lexicalErrors = [])
    (htree : (Document.ofSource source options).tree = some tree) :
    tree.node.Placed source.toList.length := by
  unfold Document.ofSource ParsedFile.ofTokens at htree
  dsimp only at htree
  have hordered := ParserState.ordered_ofSource source options.file options.maxErrors herrors
  exact ParsedFile.placed_read hordered htree

/-- A file with a broken rule in a flow. -/
def brokenRule : String := "import a/b\nagent A:\n  flow main:\n    start -> Done\n    start Done\n"

theorem tree_placed_brokenRule :
    (Document.ofSource brokenRule .standard).lexicalErrors = [] ∧
      ∃ tree, (Document.ofSource brokenRule .standard).tree = some tree ∧
        tree.node.Placed brokenRule.toList.length := by
  have herrors : (Document.ofSource brokenRule .standard).lexicalErrors = [] := by
    decide +kernel
  have hsome : (Document.ofSource brokenRule .standard).tree.isSome = true := by
    decide +kernel
  obtain ⟨tree, htree⟩ := Option.isSome_iff_exists.mp hsome
  exact ⟨herrors, tree, htree, tree_placed _ _ tree herrors htree⟩

end AgentScript
