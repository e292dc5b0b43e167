import AgentScript.Proofs.Decimals.Literals
import AgentScript.Proofs.Decimals.Range
import AgentScript.Proofs.Serial.Refusals
import AgentScript.Proofs.Serial.RoundTrip
import AgentScript.Proofs.Shapes.TreeNumbers

/-!
# Numbers that are stored

Every number token is taken for a number, however large the decimal that it denotes. Where the
decimal is beyond the range of doubles the number of the tree is infinite, and the tree cannot be
read back from what is stored of it.
-/
namespace AgentScript

open Writing

def Value.float? : Value → Option Float
  | .number x _ => some x
  | _ => none

mutual

theorem Value.numbers_eq : ∀ v : Value, v.numbers = v.all.filterMap float?
  | .list items _ _ => by
    rw [numbers, all, List.filterMap_cons_none rfl]
    exact numbersOfItems_eq items
  | .dictionary entries _ _ => by
    rw [numbers, all, List.filterMap_cons_none rfl]
    exact numbersOfEntries_eq entries
  | .string _ _ _ _ | .number _ _ | .boolean _ _ | .null _ | .identifier _ _ _ | .atom _ _
  | .typeTag _ | .expression _ _ _ | .codeBlock _ _ _ => rfl

theorem Value.numbersOfItems_eq : ∀ vs : List Value,
    numbersOfItems vs = (allOfItems vs).filterMap float?
  | [] => rfl
  | v :: vs => by
    rw [numbersOfItems, allOfItems, List.filterMap_append, numbers_eq v, numbersOfItems_eq vs]

theorem Value.numbersOfEntries_eq : ∀ es : List (Keyed Value),
    numbersOfEntries es = (allOfEntries es).filterMap float?
  | [] => rfl
  | ⟨_, v, _⟩ :: es => by
    rw [numbersOfEntries, allOfEntries, List.filterMap_append, numbers_eq v, numbersOfEntries_eq es]

end

section

variable {α : Type} {numbers : α → List Float} {values : α → List Value}

/-- The numbers of several things are those that stand in their values. -/
theorem flatMap_numbers (h : ∀ a, numbers a = (values a).filterMap Value.float?) (items : List α) :
    items.flatMap numbers = (items.flatMap values).filterMap Value.float? := by
  rw [List.filterMap_flatMap]
  exact congrArg items.flatMap (funext h)

theorem append_numbers {numbers others : List Float} {values more : List Value}
    (h : numbers = values.filterMap Value.float?) (h' : others = more.filterMap Value.float?) :
    numbers ++ others = (values ++ more).filterMap Value.float? := by
  rw [List.filterMap_append, h, h']

end

theorem Keyed.flatMap_numbers (entries : List (Keyed Value)) :
    entries.flatMap numbers = (allValues entries).filterMap Value.float? := by
  have hentry (e : Keyed Value) : e.numbers = e.value.all.filterMap Value.float? :=
    Value.numbers_eq e.value
  exact AgentScript.flatMap_numbers hentry entries

theorem WithClause.numbers_eq (w : WithClause) :
    w.numbers = (Keyed.allValues w.parameters).filterMap Value.float? := Keyed.flatMap_numbers _

theorem WhenClause.numbers_eq (w : WhenClause) : w.numbers = w.allValues.filterMap Value.float? :=
  append_numbers w.condition.numbers_eq (flatMap_numbers WithClause.numbers_eq _)

theorem FlowRule.numbers_eq (r : FlowRule) : r.numbers = r.allValues.filterMap Value.float? :=
  append_numbers (flatMap_numbers WithClause.numbers_eq _) (flatMap_numbers WhenClause.numbers_eq _)

theorem Message.numbers_eq (m : Message) : m.numbers = m.allValues.filterMap Value.float? := by
  cases m with
  | definition d => exact Keyed.flatMap_numbers d.attributes
  | _ => rfl

theorem MappedType.numbers_eq (m : MappedType) :
    m.numbers = m.allValues.filterMap Value.float? := by
  have hrow (r : MappedRow) : r.numbers = (r.values.flatMap Value.all).filterMap Value.float? :=
    flatMap_numbers Value.numbers_eq _
  exact flatMap_numbers hrow _

theorem SettingsSection.numbers_eq (s : SettingsSection) :
    s.numbers = s.allValues.filterMap Value.float? :=
  append_numbers (Keyed.flatMap_numbers _) (flatMap_numbers MappedType.numbers_eq _)

theorem Agent.numbers_eq (a : Agent) : a.numbers = a.allValues.filterMap Value.float? := by
  have hflow (f : Flow) : f.numbers = f.allValues.filterMap Value.float? :=
    flatMap_numbers FlowRule.numbers_eq _
  have hmessages (s : MessageSection) : s.numbers = s.allValues.filterMap Value.float? :=
    flatMap_numbers Message.numbers_eq _
  have hsettings := flatMap_numbers SettingsSection.numbers_eq
  unfold numbers allValues
  rw [← List.append_assoc, ← List.append_assoc]
  exact append_numbers (append_numbers (append_numbers (hsettings _) (hsettings _))
    (flatMap_numbers hflow _)) (flatMap_numbers hmessages _)

theorem SourceFile.numbers_eq (f : SourceFile) : f.numbers = f.allValues.filterMap Value.float? :=
  flatMap_numbers Agent.numbers_eq _

/-- The numbers of a file are those that stand in its values. -/
theorem SourceFile.mem_numbers {f : SourceFile} {x : Float} :
    x ∈ f.numbers ↔ ∃ l, Value.number x l ∈ f.allValues := by
  rw [numbers_eq, List.mem_filterMap]
  constructor
  · rintro ⟨v, hv, hx⟩
    cases v with
    | number y l =>
      cases hx
      exact ⟨l, hv⟩
    | _ => cases hx
  · rintro ⟨l, hv⟩
    exact ⟨_, hv, rfl⟩

/-- No number of the file is infinite or no number at all. -/
def SourceFile.Finite (f : SourceFile) : Prop :=
  ∀ x l, Value.number x l ∈ f.allValues → x.isFinite = true

theorem SourceFile.finite_iff {f : SourceFile} : f.Finite ↔ AllFinite f.numbers := by
  constructor
  · intro h x hx
    obtain ⟨l, hl⟩ := mem_numbers.mp hx
    exact h x l hl
  · exact fun h x l hl => h x (mem_numbers.mpr ⟨l, hl⟩)

/-- The encoding of a file with a number that is not finite is not decoded. -/
theorem SourceFile.undecoded_of_infinite {f : SourceFile} (h : ¬ f.Finite) :
    ofJson? f.toJson = none := by
  refine Option.eq_none_iff_forall_ne_some.mpr fun g hg => ?_
  exact h (finite_iff.mpr (f.demands hg))

/-- What a literal is taken for: the double next to its decimal as long as that is in the range of
doubles, and the infinity of its sign beyond it. -/
structure Writing.NumberLiteral.Gives (n : NumberLiteral) (x : Float) : Prop where
  nearest : x = n.decimal.toFloat
  finite_iff : x.isFinite = true ↔ n.decimal.size < 2 ^ 1024 - 2 ^ 970
  infinite : ¬ x.isFinite = true → x = (NumberText.infinity n.isNegative).toFloat

theorem Writing.NumberLiteral.gives (n : NumberLiteral) : n.Gives n.decimal.toFloat :=
  ⟨rfl, n.decimal.isFinite_toFloat_iff, Decimal.toFloat_of_infinite⟩

/-- A token whose text is a literal is taken for a number, whatever its size. -/
theorem Writing.NumberLiteral.ofNumberToken (n : NumberLiteral) {t : Token}
    (h : t.text = String.ofList n.text) :
    ∃ x, n.Gives x ∧ Value.ofNumberToken t = .ok (.number x (some t.location)) := by
  refine ⟨n.decimal.toFloat, n.gives, ?_⟩
  rw [Value.ofNumberToken, h, n.readFloat?_text]

/-- So is a number token whose text is a literal. -/
theorem Token.Literal.ofNumberToken {t : Token} (h : t.Literal) (hk : t.kind = .number) :
    ∃ (n : NumberLiteral) (x : Float), t.text = String.ofList n.text ∧ n.Gives x ∧
      Value.ofNumberToken t = .ok (.number x (some t.location)) := by
  obtain ⟨n, hn⟩ := h hk
  obtain ⟨x, hgives, hread⟩ := n.ofNumberToken hn
  exact ⟨n, x, hn, hgives, hread⟩

/-- The text of every number token of a source is the longest number literal that the source begins
with where the token does. Every literal is taken for a number: the double next to its decimal,
which is finite as long as the decimal is in the range of doubles. -/
theorem numbers_longest (source : String) (file : Option String) :
    (∀ t ∈ (TokenizedText.ofLabelledSource source file).tokens, t.kind = .number →
      ∃ n : NumberLiteral, t.text = String.ofList n.text ∧
        n.IsLongest (source.toList.drop t.start.offset)) ∧
    ∀ (n : NumberLiteral) (t : Token), t.text = String.ofList n.text →
      ∃ x, n.Gives x ∧ Value.ofNumberToken t = .ok (.number x (some t.location)) :=
  ⟨Reading.longestLiteral_transcribe source.toList, fun n _ => n.ofNumberToken⟩

/-- A point without a digit behind it and an exponent mark without digits are cut off; a fraction
and an exponent with a sign are not. -/
theorem numbers_longest_tails :
    let source := "k: -5.e3 1e+ 2.50E-07x\n"
    let numbers : List Token := [⟨.number, "-5", ⟨1, 4, 3⟩, ⟨1, 6, 5⟩⟩,
      ⟨.number, "1", ⟨1, 10, 9⟩, ⟨1, 11, 10⟩⟩, ⟨.number, "2.50E-07", ⟨1, 14, 13⟩, ⟨1, 22, 21⟩⟩]
    ∀ t ∈ numbers, t ∈ (TokenizedText.ofLabelledSource source none).tokens ∧ t.kind = .number ∧
      ∃ (n : NumberLiteral) (x : Float), t.text = String.ofList n.text ∧
        n.IsLongest (source.toList.drop t.start.offset) ∧ n.Gives x ∧
        Value.ofNumberToken t = .ok (.number x (some t.location)) := by
  intro source numbers t ht
  have hall : ∀ t ∈ numbers, t ∈ (TokenizedText.ofLabelledSource source none).tokens ∧
      t.kind = .number := by
    decide +kernel
  obtain ⟨hmem, hk⟩ := hall t ht
  obtain ⟨n, htext, hlongest⟩ := (numbers_longest source none).1 t hmem hk
  obtain ⟨x, hgives, hread⟩ := (numbers_longest source none).2 n t htext
  exact ⟨hmem, hk, n, x, htext, hlongest, hgives, hread⟩

/-- Every number token of a source is taken for a number, and every number of its tree is one of
these; none is refused for its size, and one beyond the range of doubles is infinite. The encoding
of a tree with such a number decodes to nothing. Any other decodes to the tree, provided that its
positions fit, and the encoding is what is read from its text. -/
theorem Document.numbers_stored (source : String) (options : ParseOptions) :
    (∀ t ∈ (ofSource source options).tokens, t.kind = .number →
      ∃ (n : NumberLiteral) (x : Float), t.text = String.ofList n.text ∧ n.Gives x ∧
        Value.ofNumberToken t = .ok (.number x (some t.location))) ∧
    ∀ tree ∈ (ofSource source options).tree,
      (∀ x l, Value.number x l ∈ tree.allValues →
        ∃ t ∈ (ofSource source options).tokens, t.kind = .number ∧
          Value.ofNumberToken t = .ok (.number x l)) ∧
      (¬ tree.Finite → SourceFile.ofJson? tree.toJson = none) ∧
      (tree.node.Fits →
        (tree.Finite ↔ SourceFile.ofJson? tree.toJson = some tree) ∧
        ∀ read, Json.Restores read → (∀ x ∈ tree.numbers, Json.Survives read x) →
          tree.toJson.depth < Json.depthLimit → read tree.toJsonText = some tree.toJson) := by
  refine ⟨fun t ht hk => ?_, fun tree htree =>
    ⟨fun x l hx => ?_, SourceFile.undecoded_of_infinite, fun fits => ⟨⟨fun finite => ?_, ?_⟩, ?_⟩⟩⟩
  · exact (Reading.literal_transcribe source.toList t ht).ofNumberToken hk
  · obtain ⟨t, ht, hk, rfl, hread⟩ := values_fromToken source options tree htree _ hx
    exact ⟨t, ht, hk, by rw [Value.ofNumberToken, hread]⟩
  · exact SourceFile.ofJson?_toJson fits (SourceFile.finite_iff.mp finite)
  · exact fun h => SourceFile.finite_iff.mpr (tree.demands h)
  · exact fun _ restores survive shallow =>
      SourceFile.read_toJsonText restores fits survive shallow

/-- A finite number and one below the range of doubles, which stands as null in the text. -/
theorem Document.numbers_stored_negative :
    let document := ofSource "agent A:\n  agentConfig:\n    a: 1.5\n    b: [-1e400]\n" .standard
    let infinity := (NumberText.infinity true).toFloat
    document.parseErrors = [] ∧ document.lexicalErrors = [] ∧ ¬ infinity.isFinite = true ∧
      ∃ tree ∈ document.tree, tree.numbers = [1.5, infinity] ∧ tree.node.Fits ∧
        SourceFile.ofJson? tree.toJson = none ∧
        Json.Restores Json.read? ∧ (∀ x ∈ tree.numbers, Json.Survives Json.read? x) ∧
        tree.toJson.depth = 10 ∧ Json.read? tree.toJsonText = some tree.toJson := by
  intro document infinity
  have hinfinite : ¬ infinity.isFinite = true := by decide +kernel
  have htree : document.tree.any (fun tree => decide (tree.numbers = [1.5, infinity] ∧
      tree.node.Fits ∧ tree.toJson.depth = 10)) = true := by
    decide +kernel
  obtain ⟨tree, htree, hchecked⟩ := (Option.any_eq_true _ _).mp htree
  obtain ⟨hnumbers, hfits, hdepth⟩ := of_decide_eq_true hchecked
  have hsurvive : ∀ x ∈ tree.numbers, Json.Survives Json.read? x := by
    have htext : Json.Printer.float 1.5 = "1.5" := by decide +kernel
    have hread : Json.Survives Json.read? 1.5 := by
      intro _
      change Json.read? (Json.Printer.float 1.5) = _
      rw [htext]
      rfl
    simpa [hnumbers] using ⟨hread, fun finite => absurd finite hinfinite⟩
  obtain ⟨-, hrefused, hstored⟩ := (numbers_stored _ _).2 tree htree
  refine ⟨by decide +kernel, by decide +kernel, hinfinite, tree, htree, hnumbers, hfits,
    hrefused fun finite => ?_, Json.restores_read?, hsurvive, hdepth,
    (hstored hfits).2 _ Json.restores_read? hsurvive (by rw [hdepth]; decide)⟩
  exact hinfinite (SourceFile.finite_iff.mp finite infinity (by simp [hnumbers]))

/-- An exponent of three digits: nothing is reported, the number of the tree is infinite and is
written as null, and the encoding of the tree decodes to nothing. -/
theorem Document.numbers_stored_overflow :
    let document := ofSource "agent A:\n  agentConfig:\n    a: 1e999\n" .standard
    document.parseErrors = [] ∧ document.lexicalErrors = [] ∧
      ∃ tree ∈ document.tree, ∃ x l, Value.number x l ∈ tree.allValues ∧ ¬ x.isFinite = true ∧
        (Value.number x l).toJson.field? "value" = some .null ∧
        SourceFile.ofJson? tree.toJson = none := by
  intro document
  have htree : document.tree.any (·.numbers.any (!·.isFinite)) = true := by decide +kernel
  obtain ⟨tree, htree, hnumbers⟩ := (Option.any_eq_true _ _).mp htree
  obtain ⟨x, hx, hinfinite⟩ := List.any_eq_true.mp hnumbers
  have hinfinite : ¬ x.isFinite = true := by simpa using hinfinite
  obtain ⟨l, hl⟩ := SourceFile.mem_numbers.mp hx
  refine ⟨by decide +kernel, by decide +kernel, tree, htree, x, l, hl, hinfinite, ?_,
    SourceFile.undecoded_of_infinite fun finite => hinfinite (finite x l hl)⟩
  simp [Value.toJson, locationField, Json.ofFloat, hinfinite]

end AgentScript
