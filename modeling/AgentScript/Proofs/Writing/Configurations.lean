import AgentScript.Proofs.Writing.InlineTrees
import AgentScript.Proofs.Writing.MultilineStrings
import AgentScript.Proofs.Writing.WrittenFiles

/-!
# Configurations

A configuration is a file with an agent and nothing but the configuration of it, whose
attributes have inline values. What such an agent is read as is said of any attributes first.

A note is an attribute with a passage as its value, written below the marker of a chomping. Among
the other attributes of a configuration it is read again as what the chomping makes of the passage,
and the blank lines behind it do not touch the attributes that follow.
-/
namespace AgentScript

open Writing

/-- The agent with the attributes in its configuration. -/
def Agent.ofAttributes (name : String) (attributes : List Attribute) : Agent where
  name := name
  displayName := none
  brandName := none
  config := some ⟨none, attributes, [], none⟩
  defaults := none
  flows := []
  messages := none
  location := none

namespace Parser

section

variable {ι κ : Type} {words : ι → List TokenForm} {line : κ → ι} {key : κ → String}
  {forms : κ → List TokenForm} {meaning : κ → Value}
  (hline : ∀ x, words (line x) = .word (key x) :: .ofKind .colon :: forms x)
  (hvalue : ∀ x, value.Accepts (forms x) (· = .newline) (·.erased = meaning x))

include hline hvalue

theorem accepts_attributeEntry (x : κ) :
    attributeEntry.Accepts (Outline.itemForms words (line x, .nil)) (· ≠ .indent)
      (·.erased = ⟨key x, meaning x, none⟩) := by
  have hforms : Outline.itemForms words (line x, .nil) =
      ([.word (key x)] ++ ([.ofKind .colon] ++ forms x)) ++ [.ofKind .newline] := by
    rw [Outline.itemForms, hline]
    rfl
  rw [hforms]
  refine (accepts_keyed (accepts_takeName (key x) _) ((hvalue x).narrow fun k hk =>
    heads_ofKind.mp hk)).bind fun e he => ?_
  exact accepts_finishLine.bind_last fun _ _ => .pure he

theorem adds_attribute (gathered : List Attribute × List MappedType) (x : κ) :
    settingsLine.Adds gathered (Outline.itemForms words (line x, .nil))
      fun more => ∃ e : Attribute, e.erased = ⟨key x, meaning x, none⟩ ∧
        more = (gathered.1 ++ [e], gathered.2) := by
  intro state rest hs
  have hstarts : startsMappedType state = false := by
    have hs' := hs
    rw [Outline.itemForms, hline] at hs'
    obtain ⟨-, hcolon⟩ := hs'.cons_cons
    have hk : (state.ahead 1).kind = .colon := hcolon
    simp [startsMappedType, hk]
  obtain ⟨attributes, mappedTypes⟩ := gathered
  obtain ⟨e, t, hentry, he, ht⟩ := accepts_attributeEntry hline hvalue x hs
  have hread : (do
      let a ← attributeEntry
      return (attributes ++ [a], mappedTypes) : Parser _) state =
        .ok (attributes ++ [e], mappedTypes) t := bind_of_ok _ hentry
  refine ⟨_, t, ?_, ⟨e, he, rfl⟩, ht⟩
  rw [settingsLine, if_neg (by simp [hstarts]), LineParser.whole]
  dsimp only
  rw [hread]

theorem collects_attributes (hopens : ∀ l, Opens (words l)) (xs : List κ)
    (gathered : List Attribute) :
    settingsLine.Collects (gathered, [])
      ((Outline.ofList (xs.map fun x => (line x, .nil))).forms words)
      fun more => more.1.map Keyed.erased =
        gathered.map Keyed.erased ++ xs.map (fun x => ⟨key x, meaning x, none⟩) ∧ more.2 = [] := by
  induction xs generalizing gathered with
  | nil => exact LineParser.collects_nil ⟨by simp, rfl⟩
  | cons x xs ih =>
    refine LineParser.collects_cons hopens (adds_attribute hline hvalue _ x) ?_
    rintro _ ⟨e, he, rfl⟩
    have hrest := ih (gathered ++ [e])
    rwa [List.map_append, List.map_singleton, he, List.append_assoc] at hrest

variable {head outer : ι} (xs : List κ) (hhead : words head = headerForms .agentConfig none)
  (hopens : ∀ l, Opens (words l))

include hhead hopens

theorem accepts_settingsSection :
    settingsSection.Accepts
      (Outline.itemForms words (head, .ofList (xs.map fun x => (line x, .nil)))) (· ≠ .indent)
      (·.erased = ⟨none, xs.map fun x => ⟨key x, meaning x, none⟩, [], none⟩) := by
  rw [Outline.itemForms, hhead]
  unfold settingsSection
  refine (accepts_pass (TokenForm.onLine_ofKind rfl)).bind fun t _ => ?_
  refine (accepts_noSectionName (by simp)).bind fun name hname => ?_
  refine (accepts_expect (by decide) _).bind fun _ _ => ?_
  refine (accepts_block (collects_attributes hline hvalue hopens xs [])).bind_last
    fun parts hparts => .spanFrom fun l => .pure ?_
  rw [SettingsSection.erased, hname, hparts.1, hparts.2]
  rfl

theorem accepts_agentPart_settings :
    (agentPart .empty).Accepts
      (Outline.itemForms words (head, .ofList (xs.map fun x => (line x, .nil)))) (· ≠ .indent)
      fun p => ∃ read : SettingsSection,
        read.erased = ⟨none, xs.map fun x => ⟨key x, meaning x, none⟩, [], none⟩ ∧
          p = { AgentParts.empty with config := some read } := by
  have hsection := accepts_settingsSection hline hvalue xs hhead hopens
  rw [Outline.itemForms, hhead] at hsection ⊢
  unfold agentPart
  refine .peek_form fun t ht => ?_
  have hk : t.kind = .keyword (.opening .agentConfig) := ht
  simp only [hk]
  refine hsection.bind_last fun read hread => ?_
  exact (accepts_fillOnce rfl _ _ _).bind_last fun old hold => .pure ⟨read, hread, by rw [hold]⟩

theorem accepts_configuredAgent {name : Name} (houter : words outer = headerForms .agent name) :
    agent.Accepts (Outline.itemForms words
        (outer, .ofList [(head, .ofList (xs.map fun x => (line x, .nil)))])) (· ≠ .indent)
      (·.erased = Agent.ofAttributes name.text (xs.map fun x => ⟨key x, meaning x, none⟩)) := by
  refine accepts_agentOf houter (LineParser.collects_cons hopens
    (LineParser.adds_whole (accepts_agentPart_settings hline hvalue xs hhead hopens)) ?_)
  rintro _ ⟨read, hread, rfl⟩
  refine LineParser.collects_nil ?_
  simp [Agent.ofParts, Agent.erased, AgentParts.empty, Agent.ofAttributes, hread]

end

end Parser

/-- An attribute with an inline value. -/
structure Setting where
  key : Name
  value : Inline
  isFree : value.isFree = true

structure Configuration where
  name : Name
  settings : List Setting

namespace Configuration

/-- A line of a configuration. -/
inductive Line
  | header (form : SectionForm) (name : Option Name)
  | setting (s : Setting)

def Line.text : Line → List Char
  | header form name => headerText form name
  | setting s => s.key.text.toList ++ (": ".toList ++ s.value.text)

def Line.forms : Line → List TokenForm
  | header form name => headerForms form name
  | setting s => .word s.key.text :: .ofKind .colon :: s.value.forms

def item (s : Setting) : Line × Outline Line := (.setting s, .nil)

/-- The section with the settings. -/
def body (c : Configuration) : Line × Outline Line :=
  (.header .agentConfig none, .ofList (c.settings.map item))

def outline (c : Configuration) : Outline Line :=
  .ofList [(.header .agent c.name, .ofList [c.body])]

/-- A configuration as it is written. -/
def print (c : Configuration) : String := String.ofList (c.outline.print Line.text 0)

def settingTree (s : Setting) : Attribute := ⟨s.key.text, s.value.tree, none⟩

def agent (c : Configuration) : Agent :=
  .ofAttributes c.name.text (c.settings.map settingTree)

/-- The tree of a configuration, without locations. -/
def tree (c : Configuration) : SourceFile := ⟨[], some c.agent, none⟩

theorem lineReadsAs_line (l : Line) : LineReadsAs l.text l.forms := by
  cases l with
  | header form name => exact lineReadsAs_header form name
  | setting s =>
    refine ⟨opensLine_name s.key _, ?_⟩
    have hvalue : WithinLine Mode.Naming Anything _ _ _ _ :=
      readsAs_colon_then (readsAs_inline s.isFree) rfl s.value.opensLine_text
    have hline := (readsAs_name s.key).append hvalue (fun _ _ => trivial) fun _ _ => rfl
    refine ((hline.narrow ?_).around (fun _ _ => trivial) fun _ => endsValue_of_newline).widen
      fun _ _ => trivial
    rintro m rfl
    exact Mode.naming_default

theorem opens_line (l : Line) : Opens l.forms := by
  cases l with
  | header form name => exact ⟨_, _, rfl, TokenForm.onLine_ofKind rfl⟩
  | setting s => exact ⟨_, _, rfl, TokenForm.onLine_word s.key.text⟩

open AgentScript.Parser

theorem accepts_agent (c : Configuration) :
    Parser.agent.Accepts (Outline.itemForms Line.forms (.header .agent c.name, .ofList [c.body]))
      (· ≠ .indent) (·.erased = c.agent) := by
  have hline (s : Setting) :
      (Line.setting s).forms = .word s.key.text :: .ofKind .colon :: s.value.forms := rfl
  exact accepts_configuredAgent hline (fun s => accepts_value s.value (by simp)) c.settings rfl
    opens_line rfl

theorem collects_outline (c : Configuration) :
    FileParts.itemLine.Collects .empty (c.outline.forms Line.forms) (FileParts.Are [] c.agent) :=
  FileParts.collects_agent rfl opens_line c.accepts_agent rfl rfl

end Configuration

/-- A configuration is read as it was written: there are no errors, and every value is found
again. -/
theorem Document.readAs_configuration (c : Configuration) (options : ParseOptions) :
    (Document.ofSource c.print options).ReadAs c.tree :=
  readAs_print Configuration.lineReadsAs_line c.outline c.collects_outline options

/-- A list in a dictionary, and a dotted name, a type tag and a bracket in quotes in a list. -/
def Configuration.oven : Configuration where
  name := .proper ⟨"Oven", by decide⟩
  settings :=
    [⟨.lower ⟨"heat", by decide⟩, .dictionary [("limits", .list .square
        [.scalar (.number ⟨true, ⟨['2'], by decide, by decide⟩, none, none⟩),
          .scalar (.number ⟨false, ⟨['3'], by decide, by decide⟩,
            some ⟨['5'], by decide, by decide⟩, some ⟨false, none, ⟨['2'], by decide, by decide⟩⟩⟩),
          .scalar (.literal ⟨.boolean true, "Yes", by decide⟩)])], by decide⟩,
      ⟨.lower ⟨"when", by decide⟩, .list .paren
        [.scalar (.identifier ⟨.proper ⟨"Opening Hours", by decide⟩, by decide⟩
            [⟨.lower ⟨"first", by decide⟩, by decide⟩]),
          .scalar (.typeTag ⟨⟨"time", by decide⟩, ⟨"9 am", by decide⟩, some ⟨"local", by decide⟩⟩),
          .scalar (.string ")")], by decide⟩]

theorem Document.readAs_configuration_oven :
    Configuration.oven.print =
      "agent Oven:\n" ++
        "  agentConfig:\n" ++
        "    heat: \x7b\"limits\": [-2, 3.5e2, Yes]\x7d\n" ++
        "    when: (Opening Hours.first, <time 9 am|local>, \")\")\n" ∧
      (Document.ofSource Configuration.oven.print .standard).ReadAs Configuration.oven.tree :=
  ⟨by decide +kernel, readAs_configuration Configuration.oven .standard⟩

/-- An attribute with a passage as its value, and how many blank lines follow. -/
structure Note where
  key : Name
  chomping : Chomping
  passage : Passage
  blanks : Nat

namespace Note

/-- The lines below the marker, in six columns. -/
def lines (n : Note) : List Line := n.passage.written 6 n.blanks

def value (n : Note) : Value :=
  .string (String.ofList (n.passage.value n.chomping 6 n.blanks)) true (some n.chomping) none

end Note

namespace NotedConfiguration

inductive Entry
  | setting (s : Setting)
  | note (n : Note)

namespace Entry

def key : Entry → Name
  | setting s => s.key
  | note n => n.key

/-- What stands behind the colon. -/
def text : Entry → List Char
  | setting s => s.value.text
  | note n => blockText n.chomping n.lines

def forms : Entry → List TokenForm
  | setting s => s.value.forms
  | note n => blockForms n.chomping n.lines

def value : Entry → Value
  | setting s => s.value.tree
  | note n => n.value

end Entry

end NotedConfiguration

/-- A configuration in which attributes can be notes. -/
structure NotedConfiguration where
  name : Name
  entries : List NotedConfiguration.Entry

namespace NotedConfiguration

inductive Line
  | header (form : SectionForm) (name : Option Name)
  | entry (e : Entry)

def Line.text : Line → List Char
  | header form name => headerText form name
  | entry e => e.key.text.toList ++ (": ".toList ++ e.text)

def Line.forms : Line → List TokenForm
  | header form name => headerForms form name
  | entry e => .word e.key.text :: .ofKind .colon :: e.forms

def body (c : NotedConfiguration) : Line × Outline Line :=
  (.header .agentConfig none, .ofList (c.entries.map fun e => (.entry e, .nil)))

def outline (c : NotedConfiguration) : Outline Line :=
  .ofList [(.header .agent c.name, .ofList [c.body])]

/-- The configuration as it is written. -/
def print (c : NotedConfiguration) : String := String.ofList (c.outline.print Line.text 0)

def agent (c : NotedConfiguration) : Agent :=
  .ofAttributes c.name.text (c.entries.map fun e => ⟨e.key.text, e.value, none⟩)

/-- The tree of the file, without locations. -/
def tree (c : NotedConfiguration) : SourceFile := ⟨[], some c.agent, none⟩

theorem readable_entry (e : Entry) :
    (Outline.line (Line.entry e) .nil .nil).Readable Line.text Line.forms 2 := by
  cases e with
  | setting s => exact .line (Configuration.lineReadsAs_line (.setting s)) (.nil _) (.nil _)
  | note n =>
    have hdeep : 2 * 2 < 6 := by decide
    exact .capture (entryReadsAs_block n.key n.passage.written_ne_nil
      (fun _ => Passage.unbroken_written) fun _ => Passage.isCaptured_written hdeep) (.nil _)

theorem readable_outline (c : NotedConfiguration) :
    c.outline.Readable Line.text Line.forms 0 := by
  have hentries : (Outline.ofList (c.entries.map fun e => (Line.entry e, .nil))).Readable
      Line.text Line.forms 2 :=
    Outline.readable_ofList (List.forall_mem_map.mpr fun e _ => readable_entry e)
  exact .line (lineReadsAs_header _ _) (.line (lineReadsAs_header _ _) hentries (.nil _)) (.nil _)

theorem opens_line (l : Line) : Opens l.forms := by
  cases l with
  | header form name => exact ⟨_, _, rfl, TokenForm.onLine_ofKind rfl⟩
  | entry e => exact ⟨_, _, rfl, TokenForm.onLine_word e.key.text⟩

open AgentScript.Parser

theorem accepts_entry (e : Entry) :
    value.Accepts e.forms (· = .newline) (·.erased = e.value) := by
  cases e with
  | setting s => exact accepts_value s.value (by simp)
  | note n =>
    rw [Entry.value, Note.value, ← n.passage.fold_written]
    exact accepts_multilineValue n.chomping n.lines

theorem accepts_agent (c : NotedConfiguration) :
    Parser.agent.Accepts (Outline.itemForms Line.forms (.header .agent c.name, .ofList [c.body]))
      (· ≠ .indent) (·.erased = c.agent) := by
  have hline (e : Entry) :
      (Line.entry e).forms = .word e.key.text :: .ofKind .colon :: e.forms := rfl
  exact accepts_configuredAgent hline accepts_entry c.entries rfl opens_line rfl

theorem collects_outline (c : NotedConfiguration) :
    FileParts.itemLine.Collects .empty (c.outline.forms Line.forms) (FileParts.Are [] c.agent) :=
  FileParts.collects_agent rfl opens_line c.accepts_agent rfl rfl

end NotedConfiguration

/-- A configuration with notes is read as it was written: there are no errors, every note is what
its chomping makes of the passage, and the other attributes are found again. -/
theorem Document.readAs_notes (c : NotedConfiguration) (options : ParseOptions) :
    (Document.ofSource c.print options).ReadAs c.tree :=
  readAs_outline c.readable_outline c.collects_outline options

theorem CharClass.isWhitespace_stop : isWhitespace '.' = false := by decide

/-- Lines of different indentation with an empty one between them. -/
def Writing.Passage.recipe : Passage where
  lines := ["Knead it.".toList, [], "  Wait.".toList, "Bake it.".toList]
  unbroken := by simp [CharClass.isLineBreak]
  empty := by simp [Line.isBlank, CharClass.isWhitespace_stop]
  ends := by simp [Line.isBlank, CharClass.isWhitespace_stop]
  flush := ⟨_, .head _, by simp [Line.isBlank, CharClass.isWhitespace_stop],
    by simp [Line.indentation, CharClass.isInlineSpace]⟩

/-- The same passage under two markers, once with blank lines behind it. -/
def NotedConfiguration.baker : NotedConfiguration where
  name := .proper ⟨"Baker", by decide⟩
  entries := [.note ⟨.lower ⟨"note", by decide⟩, .preserveAll, .recipe, 2⟩,
    .setting ⟨.lower ⟨"size", by decide⟩, .scalar (.atom ⟨"large", by decide⟩), by decide⟩,
    .note ⟨.lower ⟨"text", by decide⟩, .strip, .recipe, 0⟩]

theorem Document.readAs_notes_baker :
    NotedConfiguration.baker.print =
      "agent Baker:\n" ++
        "  agentConfig:\n" ++
        "    note: +|+\n" ++
        "      Knead it.\n\n" ++
        "        Wait.\n" ++
        "      Bake it.\n\n\n" ++
        "    size: :large\n" ++
        "    text: |-\n" ++
        "      Knead it.\n\n" ++
        "        Wait.\n" ++
        "      Bake it.\n" ∧
      NotedConfiguration.baker.entries.map (·.value) =
        [.string "      Knead it.\n\n        Wait.\n      Bake it.\n\n\n" true
          (some .preserveAll) none,
          .atom "large" none, .string "Knead it.\n\n  Wait.\nBake it." true (some .strip) none] ∧
      (Document.ofSource NotedConfiguration.baker.print .standard).ReadAs
        NotedConfiguration.baker.tree :=
  ⟨by decide +kernel, rfl, readAs_notes NotedConfiguration.baker .standard⟩

end AgentScript
