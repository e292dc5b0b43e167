import AgentScript.Proofs.Shapes.Parsers
import AgentScript.Tree.Build

/-!
# Well-formed trees, and the form of values

A tree read from tokens has more to it than its type says: chains of operands are long enough,
lists that need a member have one, the flags of a value fit it, what stands on a line is inline all
through, and every node knows where it was read.

An inline value is well-formed and inline all through, by induction on its depth; any other value
is well-formed, by induction on the depth of its blocks.
-/
namespace AgentScript

/-- A value that needs no lines of its own, nor does any value in it. -/
inductive Value.IsInline : Value → Prop
  | string (text : String) (chomping : Option Chomping) (l : Option Location) :
      IsInline (.string text false chomping l)
  | number (x : Float) (l : Option Location) : IsInline (.number x l)
  | boolean (b : Bool) (l : Option Location) : IsInline (.boolean b l)
  | null (l : Option Location) : IsInline (.null l)
  | identifier (name : String) (spaced : Bool) (l : Option Location) :
      IsInline (.identifier name spaced l)
  | atom (name : String) (l : Option Location) : IsInline (.atom name l)
  | typeTag (tag : TypeTag) : IsInline (.typeTag tag)
  | list {items : List Value} (below : ∀ v ∈ items, IsInline v) (l : Option Location) :
      IsInline (.list items true l)
  | dictionary {entries : List (Keyed Value)} (below : ∀ e ∈ entries, IsInline e.value)
      (l : Option Location) : IsInline (.dictionary entries true l)
  | expression (language : Language) (code : String) (l : Option Location) :
      IsInline (.expression language code l)

/-- A string is of several lines if it has a way to join them, a name is made of several words if
there is a space in it, and an inline collection holds inline values. -/
inductive Value.WellFormed : Value → Prop
  | string (text : String) (chomping : Option Chomping) (l : Location) :
      WellFormed (.string text chomping.isSome chomping (some l))
  | number (x : Float) (l : Location) : WellFormed (.number x (some l))
  | boolean (b : Bool) (l : Location) : WellFormed (.boolean b (some l))
  | null (l : Location) : WellFormed (.null (some l))
  | identifier (name : String) (l : Location) :
      WellFormed (.identifier name (name.toList.contains ' ') (some l))
  | atom (name : String) (l : Location) : WellFormed (.atom name (some l))
  | typeTag {tag : TypeTag} (located : tag.location.isSome) : WellFormed (.typeTag tag)
  | list {items : List Value} {isInline : Bool} (below : ∀ v ∈ items, WellFormed v)
      (flat : isInline = true → ∀ v ∈ items, v.IsInline) (l : Location) :
      WellFormed (.list items isInline (some l))
  | dictionary {entries : List (Keyed Value)} {isInline : Bool}
      (located : ∀ e ∈ entries, e.location.isSome) (below : ∀ e ∈ entries, WellFormed e.value)
      (flat : isInline = true → ∀ e ∈ entries, e.value.IsInline) (l : Location) :
      WellFormed (.dictionary entries isInline (some l))
  | expression (language : Language) (code : String) (l : Location) :
      WellFormed (.expression language code (some l))
  | codeBlock (language : Language) (lines : List String) (l : Location) :
      WellFormed (.codeBlock language lines (some l))

/-- A well-formed value that stands on a line. -/
structure Value.FlatFormed (v : Value) : Prop where
  wellFormed : v.WellFormed
  isInline : v.IsInline

/-- An attribute, a parameter or an entry with a value of a certain form. -/
structure Keyed.Formed (P : Value → Prop) (e : Keyed Value) : Prop where
  located : e.location.isSome
  value : P e.value

structure WithClause.WellFormed (w : WithClause) : Prop where
  located : w.location.isSome
  nonempty : w.parameters ≠ []
  parameters : ∀ p ∈ w.parameters, p.Formed Value.FlatFormed

structure WhenClause.WellFormed (w : WhenClause) : Prop where
  located : w.location.isSome
  condition : w.condition.FlatFormed
  nonempty : w.operands ≠ []
  operands : ∀ o ∈ w.operands, o.location.isSome
  withClause : ∀ c ∈ w.withClause, c.WellFormed

structure FlowRule.WellFormed (r : FlowRule) : Prop where
  located : r.location.isSome
  leads : 2 ≤ r.operands.length
  operands : ∀ o ∈ r.operands, o.location.isSome
  withClause : ∀ c ∈ r.withClause, c.WellFormed
  whenClauses : ∀ w ∈ r.whenClauses, w.WellFormed

structure Flow.WellFormed (f : Flow) : Prop where
  located : f.location.isSome
  rules : ∀ r ∈ f.rules, r.WellFormed

/-- The times of an event know where they were read. -/
inductive SuggestionAction.WellFormed : SuggestionAction → Prop
  | reply (postback : Option String) : WellFormed (.reply postback)
  | dial (phoneNumber : String) : WellFormed (.dial phoneNumber)
  | openUrl (url : String) (application : Option UrlApplication) (mode : Option WebviewMode) :
      WellFormed (.openUrl url application mode)
  | shareLocation : WellFormed .shareLocation
  | viewLocation (query : Option String) : WellFormed (.viewLocation query)
  | saveEvent {startTime endTime : TypeTag} (start : startTime.location.isSome)
      (stop : endTime.location.isSome) (title : String) (description : Option String) :
      WellFormed (.saveEvent title startTime endTime description)

structure Suggestion.WellFormed (s : Suggestion) : Prop where
  located : s.location.isSome
  action : s.action.WellFormed

structure MessageHeader.WellFormed (h : MessageHeader) : Prop where
  located : h.location.isSome
  suggestions : ∀ s ∈ h.suggestions, s.WellFormed

/-- What has been read of a card, whose suggestions may be wrong. -/
def CardParts.WellFormed (c : CardParts) : Prop := ∀ s ∈ c.suggestions, s.WellFormed

/-- The traffic of a carousel is that of the whole message; its cards have none. -/
inductive Message.WellFormed : Message → Prop
  | definition {d : MessageDefinition} (located : d.location.isSome)
      (attributes : ∀ a ∈ d.attributes, a.Formed Value.WellFormed)
      (suggestions : ∀ s ∈ d.suggestions, s.WellFormed) : WellFormed (.definition d)
  | text {h : MessageHeader} (header : h.WellFormed) (text : String) : WellFormed (.text h text)
  | richCard {c : RichCard} (header : c.header.WellFormed) : WellFormed (.richCard c)
  | carousel {h : MessageHeader} {cards : List RichCard} (header : h.WellFormed)
      (width : Option CardWidth) (headers : ∀ c ∈ cards, c.header.WellFormed)
      (traffic : ∀ c ∈ cards, c.header.traffic = none) : WellFormed (.carousel h width cards)
  | rbmFile {h : MessageHeader} (header : h.WellFormed) (fileUrl : String)
      (thumbnailUrl : Option String) : WellFormed (.rbmFile h fileUrl thumbnailUrl)
  | file {h : MessageHeader} (header : h.WellFormed) (url : String) : WellFormed (.file h url)

structure MessageSection.WellFormed (m : MessageSection) : Prop where
  located : m.location.isSome
  messages : ∀ x ∈ m.messages, x.WellFormed

structure MappedRow.WellFormed (r : MappedRow) : Prop where
  located : r.location.isSome
  nonempty : r.values ≠ []
  values : ∀ v ∈ r.values, v.FlatFormed

structure MappedType.WellFormed (m : MappedType) : Prop where
  located : m.location.isSome
  schema : m.schema ≠ []
  rows : ∀ r ∈ m.rows, r.WellFormed

structure SettingsSection.WellFormed (s : SettingsSection) : Prop where
  located : s.location.isSome
  attributes : ∀ a ∈ s.attributes, a.Formed Value.WellFormed
  mappedTypes : ∀ m ∈ s.mappedTypes, m.WellFormed

structure AgentParts.WellFormed (p : AgentParts) : Prop where
  config : ∀ s ∈ p.config, s.WellFormed
  defaults : ∀ s ∈ p.defaults, s.WellFormed
  flows : ∀ f ∈ p.flows, f.WellFormed
  messages : ∀ m ∈ p.messages, m.WellFormed

structure Agent.WellFormed (a : Agent) : Prop where
  located : a.location.isSome
  config : ∀ s ∈ a.config, s.WellFormed
  defaults : ∀ s ∈ a.defaults, s.WellFormed
  flows : ∀ f ∈ a.flows, f.WellFormed
  messages : ∀ m ∈ a.messages, m.WellFormed

structure Import.WellFormed (i : Import) : Prop where
  located : i.location.isSome
  path : i.path ≠ []

structure SourceFile.WellFormed (f : SourceFile) : Prop where
  located : f.location.isSome
  imports : ∀ i ∈ f.imports, i.WellFormed
  agent : ∀ a ∈ f.agent, a.WellFormed

namespace Parser

theorem yields_typeTag : Yields (fun t => t.location.isSome) typeTag :=
  .skip fun _ => .skip fun _ => .skip fun _ => .skip fun _ => .skip fun _ =>
    .skip fun _ => .pure rfl

theorem yields_identifier : Yields Value.FlatFormed identifier :=
  .skip fun _ => .skip fun _ => .skip fun _ => .skip fun l =>
    .pure ⟨.identifier _ l, .identifier _ _ _⟩

theorem yields_expression : Yields Value.FlatFormed expression := by
  refine .skip fun _ => .skip fun _ => .ite (.skip fun _ => .pure ?_) (.pure ?_)
  · exact ⟨.expression _ _ _, .expression _ _ _⟩
  · exact ⟨.expression _ _ _, .expression _ _ _⟩

/-- A key, a colon and a value of a certain form. -/
theorem Yields.keyed {P : Value → Prop} {value : Parser Value} (h : Yields P value)
    (key : Parser String) (colon : String) : Yields (Keyed.Formed P) (keyed key colon value) :=
  .skip fun _ => .skip fun _ => .skip fun _ => h.bind fun _ hv => .skip fun _ => .pure ⟨rfl, hv⟩

section

variable {item : Parser Value} (h : Yields Value.FlatFormed item)

include h

theorem yieldsAt_inlineList {bracket : Bracket}
    (hb : Value.opensList (some (.opening bracket)) = true) (what : String) :
    YieldsAt (.opening bracket) Value.FlatFormed (inlineList item bracket what) := by
  refine yieldsAt_advance fun opener hopener => .skip fun n => ?_
  refine ((itemLoop_listItems item _).yields h _).bind fun items hitems =>
    .skip fun _ => .skip fun l => .pure ?_
  have hinline : Value.opensList (some opener.kind) = true := hopener ▸ hb
  unfold Value.ofItems
  rw [hinline]
  exact ⟨.list (fun v hv => (hitems v hv).wellFormed) (fun _ v hv => (hitems v hv).isInline) l,
    .list (fun v hv => (hitems v hv).isInline) _⟩

theorem yieldsAt_inlineDictionary :
    YieldsAt (.opening .curly) Value.FlatFormed (inlineDictionary item) := by
  refine yieldsAt_advance fun opener hopener => .skip fun n => ?_
  refine ((itemLoop_dictionaryEntries item).yields (h.keyed _ _) _).bind fun entries hentries =>
    .skip fun _ => .skip fun l => .pure ?_
  have hinline : (some opener.kind == some (.opening .curly)) = true := by rw [hopener]; rfl
  unfold Value.ofEntries
  rw [hinline]
  exact ⟨.dictionary (fun e he => (hentries e he).located)
      (fun e he => (hentries e he).value.wellFormed)
      (fun _ e he => (hentries e he).value.isInline) l,
    .dictionary (fun e he => (hentries e he).value.isInline) _⟩

end

theorem yields_inlineValueWithin (depth : Nat) :
    Yields Value.FlatFormed (inlineValueWithin depth) := by
  induction depth with
  | zero => exact yields_unexpected _
  | succ depth ih =>
    refine yields_kind fun k => ?_
    split
    case h_1 => exact Yields.at (.skip fun t => .pure ⟨.string _ none _, .string _ _ _⟩) _
    case h_2 =>
      refine Yields.at (.skip fun t => yields_ofNode (fun v hv => ?_) _) _
      unfold Value.ofNumberToken at hv
      split at hv
      · cases hv
        exact ⟨.number _ _, .number _ _⟩
      · cases hv
    case h_3 =>
      refine Yields.at (.skip fun t => ?_) _
      split
      · next hv =>
        refine .pure ?_
        unfold Value.ofLiteralToken? at hv
        split at hv
        · cases hv
          exact ⟨.boolean _ _, .boolean _ _⟩
        · cases hv
          exact ⟨.null _, .null _⟩
        · cases hv
      · exact yields_unexpected _
    case h_4 => exact Yields.at (.skip fun t => .pure ⟨.atom _ _, .atom _ _⟩) _
    case h_5 => exact (yields_typeTag.map fun t ht => ⟨.typeTag ht, .typeTag _⟩).at _
    case h_6 => exact yields_expression.at _
    case h_7 => exact yieldsAt_inlineList ih rfl _
    case h_8 => exact yieldsAt_inlineList ih rfl _
    case h_9 => exact yieldsAt_inlineDictionary ih
    case h_10 => exact yields_identifier.at _
    case h_11 => exact yields_identifier.at _
    case h_12 => exact (yields_unexpected _).at _

theorem yields_inlineValue : Yields Value.FlatFormed inlineValue :=
  .skip fun _ => yields_inlineValueWithin _

/-- A line with a key and a value of a certain form. -/
theorem Yields.keyedLine {P : Value → Prop} {value : Parser Value} (h : Yields P value)
    (key colon : String) : Yields (Keyed.Formed P) (keyedLine key colon value) :=
  (h.keyed _ _).bind fun _ he => .skip fun _ => .pure he

theorem yields_blockList {value : Parser Value} (h : Yields Value.WellFormed value) :
    Yields Value.WellFormed (blockList value) := by
  refine .skip fun _ => ?_
  refine (yields_itemLines (LineParser.keeps_item (.skip fun _ => h)).thenFinish).bind
    fun items hitems => .skip fun l => .pure ?_
  have hflat : Value.opensList none = true → ∀ v ∈ items, v.IsInline :=
    fun hinline => nomatch hinline
  exact .list hitems hflat l

theorem yields_blockDictionary {value : Parser Value} (h : Yields Value.WellFormed value) :
    Yields Value.WellFormed (blockDictionary value) := by
  refine .skip fun _ => ?_
  refine (yields_itemLines (LineParser.keeps_item (h.keyedLine _ _))).bind
    fun entries hentries => .skip fun l => .pure ?_
  have hflat : false = true → ∀ e ∈ entries, e.value.IsInline := fun hinline => nomatch hinline
  exact .dictionary (fun e he => (hentries e he).located)
    (fun e he => (hentries e he).value) hflat l

theorem yields_multilineString (chomping : Chomping) :
    Yields Value.WellFormed (multilineString chomping) :=
  .skip fun _ => .skip fun _ => .skip fun l => .pure (.string _ (some chomping) l)

theorem yields_codeBlock : Yields Value.WellFormed codeBlock :=
  .skip fun _ => .skip fun _ => .skip fun l => .pure (.codeBlock _ _ l)

theorem yields_valueWithin (depth : Nat) : Yields Value.WellFormed (valueWithin depth) := by
  have hinline : Yields Value.WellFormed inlineValue := fun _ _ _ heq =>
    (yields_inlineValue heq).wellFormed
  induction depth with
  | zero => exact yields_unexpected _
  | succ depth ih =>
    refine .skip fun k => ?_
    split
    case h_1 =>
      refine .skip fun _ => .ite (.skip fun _ => .skip fun _ => .skip fun _ => .ite ?_ ?_) hinline
      · exact yields_blockList ih
      · exact yields_blockDictionary ih
    case h_2 => exact yields_multilineString _
    case h_3 => exact yields_codeBlock
    case h_4 => exact hinline

theorem yields_value : Yields Value.WellFormed value := .skip fun _ => yields_valueWithin _

end Parser

end AgentScript
