import AgentScript.Proofs.Writing.Erasure
import AgentScript.Proofs.Writing.Phrases

/-!
# Scripts

A script is what a file of a common form says: imports, and an agent with its two names, its
flows of plain rules, and its text messages with replies. It is written one item a line,
and it has a tree.

Every line of a script is read as the tokens it was written with: no word runs into the next
one, and every word is read in the mode that it needs.
-/
namespace AgentScript

open CharClass Lexeme Writing

namespace Script

/-- An import, whose path has one segment at least. -/
structure Import where
  first : ProperRun
  more : List ProperRun
  localName : Option ProperRun
  source : Option String

inductive Operand
  | atom (name : AtomName)
  | string (text : String)
  | name (name : Name)

/-- A chain of two operands or more. -/
structure Rule where
  source : Operand
  destination : Operand
  more : List Operand

structure Flow where
  name : Name
  rules : List Rule

structure Reply where
  text : String
  postback : Option String

structure TextMessage where
  name : Option ProperRun
  text : String
  replies : List Reply

end Script

structure Script where
  imports : List Script.Import
  name : Name
  displayName : String
  brandName : Option String
  flows : List Script.Flow
  messages : List Script.TextMessage

namespace Script

def Operand.text : Operand → List Char
  | .atom a => ':' :: a.text.toList
  | .string s => quoted s
  | .name n => n.text.toList

/-- The attributes of an agent. -/
inductive Key
  | displayName | brandName

def Key.word : Key → LowerWord
  | displayName => ⟨"displayName", by decide⟩
  | brandName => ⟨"brandName", by decide⟩

/-- A line of a script. -/
inductive Line
  | importOf (i : Import)
  | header (form : SectionForm) (name : Option Name)
  | field (key : Key) (text : String)
  | rule (r : Rule)
  | textMessage (name : Option ProperRun) (text : String)
  | reply (r : Reply)

def Line.text : Line → List Char
  | .importOf i =>
    "import ".toList ++ i.first.text.toList ++ eachBehind "/" (·.text.toList) i.more ++
      behind " as " (·.text.toList) i.localName ++ behind " from " quoted i.source
  | .header form name => headerText form name
  | .field key text => key.word.text.toList ++ (": ".toList ++ quoted text)
  | .rule r => r.source.text ++ eachBehind " -> " Operand.text (r.destination :: r.more)
  | .textMessage name text =>
    "text".toList ++ behind " " (·.text.toList) name ++ ' ' :: quoted text
  | .reply r => "reply ".toList ++ quoted r.text ++ behind " " quoted r.postback

/-- A line with nothing below it. -/
def leaf (l : Line) : Line × Outline Line := (l, .nil)

def Flow.outline (f : Flow) : Line × Outline Line :=
  (.header .flow f.name, .ofList (f.rules.map fun r => leaf (.rule r)))

def TextMessage.outline (m : TextMessage) : Line × Outline Line :=
  (.textMessage m.name m.text, .ofList (m.replies.map fun r => leaf (.reply r)))

/-- The sections of the agent. -/
def sections (s : Script) : List (Line × Outline Line) :=
  s.flows.map Flow.outline ++
    [(.header .messages none, .ofList (s.messages.map TextMessage.outline))]

/-- The lines below the agent's own. -/
def parts (s : Script) : List (Line × Outline Line) :=
  leaf (.field .displayName s.displayName) ::
    (s.brandName.toList.map (fun b => leaf (.field .brandName b)) ++ s.sections)

def outline (s : Script) : Outline Line :=
  .ofList (s.imports.map (fun i => leaf (.importOf i)) ++
    [(.header .agent s.name, .ofList s.parts)])

/-- A script as it is written. -/
def print (s : Script) : String := String.ofList (s.outline.print Line.text 0)

def Import.tree (i : Import) : AgentScript.Import :=
  ⟨(i.first :: i.more).map (·.text), i.localName.map (·.text), i.source, none⟩

def Operand.tree : Operand → AgentScript.Operand
  | .atom a => ⟨.atom, a.text, none⟩
  | .string s => ⟨.string, s, none⟩
  | .name n => ⟨.identifier, n.text, none⟩

def Rule.tree (r : Rule) : FlowRule :=
  ⟨(r.source :: r.destination :: r.more).map Operand.tree, none, [], none⟩

def Flow.tree (f : Flow) : AgentScript.Flow := ⟨f.name.text, f.rules.map Rule.tree, none⟩

def Reply.tree (r : Reply) : Suggestion := ⟨r.text, .reply r.postback, none⟩

def TextMessage.tree (m : TextMessage) : Message :=
  .text ⟨m.name.map (·.text), none, m.replies.map Reply.tree, none⟩ m.text

def agent (s : Script) : Agent where
  name := s.name.text
  displayName := s.displayName
  brandName := s.brandName
  config := none
  defaults := none
  flows := s.flows.map Flow.tree
  messages := some ⟨none, s.messages.map TextMessage.tree, none⟩
  location := none

/-- The tree of a script, without locations. -/
def tree (s : Script) : SourceFile := ⟨s.imports.map Import.tree, some s.agent, none⟩

def Operand.form : Operand → TokenForm
  | .atom a => .atom a
  | .string s => .string s
  | .name n => .word n.text

def Line.forms : Line → List TokenForm
  | .importOf i =>
    [.ofKind (.keyword .importWord), .word i.first.text] ++
      i.more.flatMap (fun r => [.ofKind .slash, .word r.text]) ++
      i.localName.elim [] (fun r => [.ofKind (.keyword .asWord), .word r.text]) ++
      i.source.elim [] fun s => [.ofKind (.keyword .fromWord), .string s]
  | .header form name => headerForms form name
  | .field key text =>
    [.spelled (· = .commonNoun) key.word.text, .ofKind .colon, .string text]
  | .rule r =>
    [r.source.form] ++ (r.destination :: r.more).flatMap fun o => [.ofKind .arrow, o.form]
  | .textMessage name text =>
    [.ofKind (.keyword (.form .text))] ++ name.elim [] (fun r => [.properName r.text]) ++
      [.string text]
  | .reply r =>
    [.ofKind (.keyword (.suggestion .reply)), .string r.text] ++
      r.postback.elim [] fun s => [.string s]

theorem readsAs_import (i : Import) :
    WithinLine (· = .default) Anything (Line.importOf i).text (Line.importOf i).forms
      (· = .default) EndsRun := by
  have hrun : ∀ run : ProperRun, WithinLine (· = .default) Anything run.text.toList
      [.word run.text] (· = .default) EndsRun := fun run =>
    (readsAs_properRun run fun m hm => by rw [hm]; rfl).imp fun _ => TokenForm.word_of_properName
  have hstring : ∀ s : String, WithinLine (· = .default) Anything (quoted s) [.string s]
      (· = .default) EndsRun :=
    fun s => (readsAs_string s).around (fun _ hb => hb) fun _ _ => trivial
  have hfirst := (readsAs_keyword .importWord rfl).append
    (readsAs_blank_then (hrun i.first) trivial) (fun _ _ => trivial) fun _ _ => rfl
  have hmore : WithinLine (· = .default) Anything (eachBehind "/" (·.text.toList) i.more)
      (i.more.flatMap fun r => [.ofKind .slash, .word r.text]) (· = .default) EndsRun :=
    readsAs_eachBehind (fun r _ => readsAs_slash.append (hrun r) (fun _ _ => trivial)
      fun _ _ => trivial) fun _ _ => rfl
  have hlocal : WithinLine (· = .default) Anything (behind " as " (·.text.toList) i.localName)
      (i.localName.elim [] fun r => [.ofKind (.keyword .asWord), .word r.text]) (· = .default)
      EndsRun :=
    readsAs_behind (readsAs_clause .asWord rfl hrun) i.localName
  have hsource : WithinLine (· = .default) Anything (behind " from " quoted i.source)
      (i.source.elim [] fun s => [.ofKind (.keyword .fromWord), .string s]) (· = .default)
      EndsRun :=
    readsAs_behind (readsAs_clause .fromWord rfl hstring) i.source
  exact ((hfirst.append hmore (fun _ _ => trivial)
    fun _ => endsRun_eachBehind (fun _ _ => rfl) i.more).append hlocal (fun _ _ => trivial)
      fun _ => endsRun_behind (fun _ _ => rfl) i.localName).append hsource (fun _ _ => trivial)
        fun _ => endsRun_behind (fun _ _ => rfl) i.source

theorem wordKind_key (key : Key) : Mode.default.wordKind key.word.text = .commonNoun := by
  cases key <;> decide

/-- A word, and a string as its value. -/
theorem readsAs_field (key : Key) (text : String) :
    WithinLine (· = .default) Anything (Line.field key text).text (Line.field key text).forms
      Anything Anything := by
  have hvalue : WithinLine Anything Anything (": ".toList ++ quoted text)
      [.ofKind .colon, .string text] Anything Anything :=
    (readsAs_colon_then (readsAs_string text) trivial (opensLine_quoted text)).widen
      fun _ _ => trivial
  have hkey := ((readsAs_lowerWord key.word .default).widen fun _ _ => trivial).append hvalue
    (fun _ _ => trivial) fun _ _ => rfl
  rwa [wordKind_key] at hkey

theorem readsAs_operand (o : Operand) :
    WithinLine Mode.Naming BeginsValue o.text [o.form] Mode.Naming EndsRun := by
  cases o with
  | atom a => exact (readsAs_atom a).around (fun _ hb => hb) fun _ => endsWord_of_endsRun
  | string s => exact (readsAs_string s).around (fun _ _ => trivial) fun _ _ => trivial
  | name n => exact (readsAs_name n).around (fun _ _ => trivial) fun _ hf => hf

theorem readsAs_rule (r : Rule) :
    WithinLine (· = .default) BeginsValue (Line.rule r).text (Line.rule r).forms Anything
      EndsRun := by
  have harrow : ∀ o : Operand, WithinLine Mode.Naming Anything (" -> ".toList ++ o.text)
      [.ofKind .arrow, o.form] Mode.Naming EndsRun := fun o =>
    readsAs_blank_then (readsAs_arrow.append (readsAs_blank_then (readsAs_operand o) rfl)
      (fun _ _ => trivial) fun _ _ => trivial) trivial
  have hmore := readsAs_eachBehind (fun o (_ : o ∈ r.destination :: r.more) => harrow o)
    fun _ _ => rfl
  refine (((readsAs_operand r.source).append hmore (fun _ _ => trivial)
    fun _ => endsRun_eachBehind (fun _ _ => rfl) _).narrow ?_).widen fun _ _ => trivial
  rintro m rfl
  exact Mode.naming_default

theorem readsAs_textMessage (name : Option ProperRun) (text : String) :
    WithinLine (· = .default) Anything (Line.textMessage name text).text
      (Line.textMessage name text).forms (· = .default) Anything := by
  have hname : WithinLine (· = .default) Anything (behind " " (·.text.toList) name)
      (name.elim [] fun r => [.properName r.text]) (· = .default) EndsRun :=
    readsAs_behind (fun r => readsAs_blank_then
      (readsAs_properRun r fun m hm => by rw [hm]; rfl) trivial) name
  refine ((readsAs_keyword (.form .text) rfl).append hname (fun _ _ => trivial)
    fun rest hrest => ?_).append (readsAs_blank_then (readsAs_string text) trivial)
      (fun _ _ => trivial) fun _ _ => rfl
  cases name with
  | none => exact endsWord_of_endsRun hrest
  | some r => rfl

theorem readsAs_reply (r : Reply) :
    WithinLine (· = .default) Anything (Line.reply r).text (Line.reply r).forms (· = .default)
      Anything := by
  have hpostback : WithinLine (· = .default) Anything (behind " " quoted r.postback)
      (r.postback.elim [] fun s => [.string s]) (· = .default) Anything :=
    readsAs_behind (fun s => readsAs_blank_then (readsAs_string s) trivial) r.postback
  exact ((readsAs_keyword (.suggestion .reply) rfl).append
    (readsAs_blank_then (readsAs_string r.text) trivial) (fun _ _ => trivial)
    fun _ _ => rfl).append hpostback (fun _ _ => trivial) fun _ _ => trivial

theorem opensLine_operand (o : Operand) (rest : List Char) : OpensLine (o.text ++ rest) := by
  cases o with
  | atom a => exact opensLine_atom a rest
  | string s => exact opensLine_quoted s rest
  | name n => exact opensLine_name n rest

/-- Every line of a script is read as what it was written for. -/
theorem lineReadsAs_line (l : Line) : LineReadsAs l.text l.forms := by
  cases l with
  | importOf i =>
    refine ⟨⟨'i', _, rfl, significant_of_isWordChar rfl⟩, ?_⟩
    exact ((readsAs_import i).around (fun _ _ => trivial) fun _ => endsRun_of_newline).widen
      fun _ _ => trivial
  | header form name =>
    exact lineReadsAs_header form name
  | field key text =>
    refine ⟨opensLine_name (.lower key.word) _, ?_⟩
    exact (readsAs_field key text).around (fun _ _ => trivial) fun _ _ => trivial
  | rule r =>
    refine ⟨opensLine_operand r.source _, ?_⟩
    exact (readsAs_rule r).around (fun _ hb => hb) fun _ => endsRun_of_newline
  | textMessage name text =>
    refine ⟨⟨'t', _, rfl, significant_of_isWordChar rfl⟩, ?_⟩
    exact ((readsAs_textMessage name text).around (fun _ _ => trivial) fun _ _ => trivial).widen
      fun _ _ => trivial
  | reply r =>
    refine ⟨⟨'r', _, rfl, significant_of_isWordChar rfl⟩, ?_⟩
    exact ((readsAs_reply r).around (fun _ _ => trivial) fun _ _ => trivial).widen
      fun _ _ => trivial

end Script

end AgentScript
