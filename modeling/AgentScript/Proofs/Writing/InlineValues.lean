import AgentScript.Proofs.Writing.Erasure
import AgentScript.Proofs.Writing.Numbers
import AgentScript.Proofs.Writing.TypeTags
import Mathlib.Algebra.BigOperators.Group.List.Basic

/-!
# Inline values

A value that stands on one line is a scalar, or a list or a dictionary of such values to any
depth. Its text, the tokens that it is read as and its tree are each made from those of its
parts.
-/
namespace AgentScript

open CharClass Lexeme

namespace Writing

/-- Whether a name is neither a keyword nor a literal word. -/
def Name.isPlain : Name → Bool
  | proper run => (TokenKind.ofLiteralWord? run.text).isNone
  | lower word => (TokenKind.ofKeyword? word.text).isNone

/-- A name in a value. -/
structure PlainName where
  name : Name
  isPlain : name.isPlain = true

/-- A literal word in one of its spellings. -/
structure Spelling where
  word : LiteralWord
  text : String
  spells : text ∈ word.words

inductive Scalar
  | string (text : String)
  | number (literal : NumberLiteral)
  | literal (spelling : Spelling)
  | atom (name : AtomName)
  /-- A dotted name. -/
  | identifier (first : PlainName) (more : List PlainName)
  | typeTag (tag : Tag)

def PlainName.text (n : PlainName) : String := n.name.text

def PlainName.form (n : PlainName) : TokenForm :=
  .spelled (fun k => k = .properWord ∨ k = .commonNoun) n.text

/-- Whether a name is one word also where literal words are preferred: it begins with none. -/
def PlainName.isFree (n : PlainName) : Bool :=
  match n.name with
  | .proper run => (TokenKind.ofLiteralWord? run.firstSegment).isNone
  | .lower _ => true

namespace Scalar

def text : Scalar → List Char
  | string s => quoted s
  | number n => n.text
  | literal l => l.text.toList
  | atom a => ':' :: a.text.toList
  | identifier first more => first.text.toList ++ eachBehind "." (·.text.toList) more
  | typeTag t => t.text

def forms : Scalar → List TokenForm
  | string s => [.string s]
  | number n => [.spelled (· = .number) (String.ofList n.text)]
  | literal l => [.ofKind (.literal l.word)]
  | atom a => [.atom a]
  | identifier first more => first.form :: more.flatMap fun n => [.ofKind .dot, n.form]
  | typeTag t => t.forms

def isFree : Scalar → Bool
  | identifier first more => (first :: more).all PlainName.isFree
  | _ => true

end Scalar

def Tag.tree (t : Tag) : TypeTag :=
  ⟨t.name.text, t.value.text, t.modifier.map (·.text), none⟩

def literalTree : LiteralWord → Value
  | .boolean b => .boolean b none
  | .null => .null none

def identifierTree (names : List String) : Value :=
  let name := ".".intercalate names
  .identifier name (name.toList.contains ' ') none

def Scalar.tree : Scalar → Value
  | string s => .string s false none none
  | number n => .number n.value none
  | literal l => literalTree l.word
  | atom a => .atom a.text none
  | identifier first more => identifierTree ((first :: more).map (·.text))
  | typeTag t => .typeTag t.tree

/-- The brackets that a list can stand in. -/
inductive ListBracket
  | paren | square

def ListBracket.bracket : ListBracket → Bracket
  | paren => .paren
  | square => .square

inductive Inline
  | scalar (s : Scalar)
  | list (bracket : ListBracket) (items : List Inline)
  | dictionary (entries : List (String × Inline))

/-- How something is made of a value from what is made of its parts. -/
structure Making (β : Type) where
  scalar : Scalar → β
  list : ListBracket → List β → β
  dictionary : List (String × β) → β

namespace Inline

variable {β : Type}

mutual

def make (m : Making β) : Inline → β
  | scalar s => m.scalar s
  | list b items => m.list b (makeItems m items)
  | dictionary entries => m.dictionary (makeEntries m entries)

def makeItems (m : Making β) : List Inline → List β
  | [] => []
  | v :: vs => make m v :: makeItems m vs

def makeEntries (m : Making β) : List (String × Inline) → List (String × β)
  | [] => []
  | (key, v) :: entries => (key, make m v) :: makeEntries m entries

end

theorem makeItems_eq_map (m : Making β) (items : List Inline) :
    makeItems m items = items.map (make m) := by
  induction items with
  | nil => rfl
  | cons v vs ih => rw [makeItems, ih, List.map_cons]

theorem makeEntries_eq_map (m : Making β) (entries : List (String × Inline)) :
    makeEntries m entries = entries.map fun e => (e.1, make m e.2) := by
  induction entries with
  | nil => rfl
  | cons e entries ih => rw [makeEntries, ih, List.map_cons]

theorem make_list (m : Making β) (b : ListBracket) (items : List Inline) :
    make m (list b items) = m.list b (items.map (make m)) := by
  rw [make, makeItems_eq_map]

theorem make_dictionary (m : Making β) (entries : List (String × Inline)) :
    make m (dictionary entries) = m.dictionary (entries.map fun e => (e.1, make m e.2)) := by
  rw [make, makeEntries_eq_map]

/-- What holds of a collection if it holds of its parts holds of all values. -/
theorem ind {motive : Inline → Prop} (scalar : ∀ s, motive (scalar s))
    (list : ∀ b items, (∀ v ∈ items, motive v) → motive (list b items))
    (dictionary : ∀ entries, (∀ e ∈ entries, motive e.2) → motive (dictionary entries)) :
    ∀ v, motive v := by
  refine @Inline.rec motive (fun items => ∀ v ∈ items, motive v)
    (fun entries => ∀ e ∈ entries, motive e.2) (fun e => motive e.2) scalar list dictionary
    (fun _ h => nomatch h) ?_ (fun _ h => nomatch h) ?_ fun _ _ h => h
  · exact fun v vs hv hvs => List.forall_mem_cons.mpr ⟨hv, hvs⟩
  · exact fun e entries he hentries => List.forall_mem_cons.mpr ⟨he, hentries⟩

/-- Parts with a separator between them. -/
def between (separator : List β) : List (List β) → List β
  | [] => []
  | part :: parts => part ++ parts.flatMap (separator ++ ·)

theorem between_map_cons {α : Type} (separator : List β) (f : α → List β) (x : α) (xs : List α) :
    between separator ((x :: xs).map f) = f x ++ xs.flatMap fun y => separator ++ f y :=
  congrArg (f x ++ ·) (List.flatMap_map _ _ _)

theorem sublist_between (separator : List β) {part : List β} {parts : List (List β)}
    (h : part ∈ parts) :
    part.Sublist (between separator parts) := by
  cases parts with
  | nil => exact nomatch h
  | cons first parts =>
    rcases List.mem_cons.mp h with rfl | hmem
    · exact List.sublist_append_left _ _
    · have hpart : (separator ++ part).Sublist (parts.flatMap (separator ++ ·)) :=
        List.sublist_flatten_of_mem (List.mem_map_of_mem hmem)
      exact (List.sublist_append_right separator part).trans
        (hpart.trans (List.sublist_append_right _ _))

theorem length_le_between (separator : List β) {parts : List (List β)}
    (h : ∀ part ∈ parts, 1 ≤ part.length) : parts.length ≤ (between separator parts).length := by
  cases parts with
  | nil => exact Nat.le_refl 0
  | cons first parts =>
    rw [List.forall_mem_cons] at h
    have hone := List.length_le_sum_of_one_le (parts.map fun part => (separator ++ part).length)
      (by simpa using fun part hpart => Nat.le_add_left_of_le (h.2 part hpart))
    have hmore : parts.length ≤ (parts.flatMap fun part => separator ++ part).length := by
      rwa [List.length_flatMap, ← List.length_map]
    rw [between, List.length_append, List.length_cons]
    omega

def bracketed (b : Bracket) (parts : List (List Char)) : List Char :=
  b.opener :: (between ", ".toList parts ++ [b.closer])

def bracketedForms (b : Bracket) (parts : List (List TokenForm)) : List TokenForm :=
  .ofKind (.opening b) :: (between [.ofKind .comma] parts ++ [.ofKind (.closing b)])

def entryText (entry : String × List Char) : List Char :=
  quoted entry.1 ++ (": ".toList ++ entry.2)

def entryForms (entry : String × List TokenForm) : List TokenForm :=
  .string entry.1 :: .ofKind .colon :: entry.2

/-- A value as it is written. -/
def text : Inline → List Char :=
  make ⟨Scalar.text, fun b => bracketed b.bracket, fun es => bracketed .curly (es.map entryText)⟩

def forms : Inline → List TokenForm :=
  make ⟨Scalar.forms, fun b => bracketedForms b.bracket,
    fun es => bracketedForms .curly (es.map entryForms)⟩

/-- The tree of a value, without locations. -/
def tree : Inline → Value :=
  make ⟨Scalar.tree, fun _ vs => .list vs true none,
    fun es => .dictionary (es.map fun e => ⟨e.1, e.2, none⟩) true none⟩

/-- Whether all names in a value are free. -/
def isFree : Inline → Bool :=
  make ⟨Scalar.isFree, fun _ parts => parts.all id, fun es => es.all (·.2)⟩

theorem text_list (b : ListBracket) (items : List Inline) :
    (list b items).text = bracketed b.bracket (items.map text) := by
  rw [text, make_list]

theorem text_dictionary (entries : List (String × Inline)) :
    (dictionary entries).text =
      bracketed .curly (entries.map fun e => entryText (e.1, e.2.text)) := by
  rw [text, make_dictionary]
  exact congrArg (bracketed .curly) List.map_map

theorem forms_list (b : ListBracket) (items : List Inline) :
    (list b items).forms = bracketedForms b.bracket (items.map forms) := by
  rw [forms, make_list]

theorem forms_dictionary (entries : List (String × Inline)) :
    (dictionary entries).forms =
      bracketedForms .curly (entries.map fun e => entryForms (e.1, e.2.forms)) := by
  rw [forms, make_dictionary]
  exact congrArg (bracketedForms .curly) List.map_map

theorem isFree_list (b : ListBracket) (items : List Inline) :
    (list b items).isFree = items.all isFree := by
  rw [isFree, make_list]
  exact List.all_map

theorem isFree_dictionary (entries : List (String × Inline)) :
    (dictionary entries).isFree = entries.all (·.2.isFree) := by
  rw [isFree, make_dictionary]
  exact List.all_map

theorem tree_list (b : ListBracket) (items : List Inline) :
    (list b items).tree = .list (items.map tree) true none := by
  rw [tree, make_list]

theorem tree_dictionary (entries : List (String × Inline)) :
    (dictionary entries).tree =
      .dictionary (entries.map fun e => ⟨e.1, e.2.tree, none⟩) true none := by
  rw [tree, make_dictionary]
  exact congrArg (Value.dictionary · true none) List.map_map

end Inline

end Writing

end AgentScript
