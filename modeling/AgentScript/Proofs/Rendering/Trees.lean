import AgentScript.Grammar.File
import Mathlib.Tactic.Common

/-!
# Renderings

The tokens of a text can be rendered elsewhere: their positions are moved, in their order, and
the ends of lines are written in another way. What is read from them is rendered with them: every
position in a tree or in a problem is moved, and nothing else in it changes.
-/
namespace AgentScript

structure Rendering where
  /-- Where a position is moved. -/
  point : Position → Position
  monotone : ∀ {p q : Position}, p ≤ q → point p ≤ point q
  /-- What the end of a line is written as. -/
  lineEnd : String → String

/-- Nothing is moved and nothing is written in another way. -/
def Rendering.same : Rendering := ⟨id, fun h => h, id⟩

/-- What can be read from tokens and is rendered with them. -/
class Rendered (α : Type) where
  render : Rendering → α → α
  render_same : ∀ a : α, render .same a = a

open Rendered (render render_same)

variable {α β : Type}

instance : Rendered Position := ⟨fun r p => r.point p, fun _ => rfl⟩

instance : Rendered Location := ⟨fun r l => ⟨render r l.start, render r l.stop⟩, fun _ => rfl⟩

instance : Rendered Token where
  render r t :=
    { kind := t.kind
      text := if t.kind = .newline then r.lineEnd t.text else t.text
      start := render r t.start
      stop := render r t.stop }
  render_same t := by
    cases t
    exact congrArg (Token.mk _ · _ _) (ite_self _)

theorem Token.kind_render (r : Rendering) (t : Token) : (render r t).kind = t.kind := rfl

theorem Token.text_render {r : Rendering} {t : Token} (h : t.kind ≠ .newline) :
    (render r t).text = t.text := if_neg h

instance : Rendered Unit := ⟨fun _ a => a, fun _ => rfl⟩

instance : Rendered Bool := ⟨fun _ a => a, fun _ => rfl⟩

instance : Rendered Nat := ⟨fun _ a => a, fun _ => rfl⟩

instance : Rendered String := ⟨fun _ a => a, fun _ => rfl⟩

instance : Rendered TrafficType := ⟨fun _ a => a, fun _ => rfl⟩

instance : Rendered CardWidth := ⟨fun _ a => a, fun _ => rfl⟩

instance : Rendered UrlOptions := ⟨fun _ a => a, fun _ => rfl⟩

instance [Rendered α] : Rendered (Option α) where
  render r a := a.map (render r)
  render_same a := by
    cases a with
    | none => rfl
    | some a => exact congrArg some (render_same a)

instance [Rendered α] : Rendered (List α) where
  render r l := l.map (render r)
  render_same l := by
    induction l with
    | nil => rfl
    | cons a l ih => rw [List.map_cons, ih, render_same]

instance [Rendered α] [Rendered β] : Rendered (α × β) where
  render r p := (render r p.1, render r p.2)
  render_same p := by rw [render_same, render_same]

/-- What no position is in is rendered as it is. -/
class Unplaced (α : Type) [Rendered α] : Prop where
  render_unplaced : ∀ (r : Rendering) (a : α), render r a = a

open Unplaced (render_unplaced)

instance : Unplaced String := ⟨fun _ _ => rfl⟩

instance : Unplaced TrafficType := ⟨fun _ _ => rfl⟩

instance : Unplaced CardWidth := ⟨fun _ _ => rfl⟩

instance [Rendered α] [Unplaced α] : Unplaced (Option α) where
  render_unplaced r a := by
    cases a with
    | none => rfl
    | some a => exact congrArg some (render_unplaced r a)

instance [Rendered α] [Unplaced α] : Unplaced (List α) where
  render_unplaced r l := by
    induction l with
    | nil => rfl
    | cons a l ih => exact congrArg₂ List.cons (render_unplaced r a) ih

theorem render_append [Rendered α] (r : Rendering) (l m : List α) :
    render r (l ++ m) = render r l ++ render r m := List.map_append

theorem render_concat [Rendered α] (r : Rendering) (l : List α) (a : α) :
    render r l ++ [render r a] = render r (l ++ [a]) := (render_append r l [a]).symm

theorem length_render [Rendered α] (r : Rendering) (l : List α) :
    (render r l).length = l.length := List.length_map _

instance : Rendered TypeTag where
  render r t := { t with location := render r t.location }
  render_same t := by rw [render_same]

namespace Value

mutual

/-- A value with every position in it moved. -/
def rendered (r : Rendering) : Value → Value
  | string text isMultiline chomping l => string text isMultiline chomping (render r l)
  | number value l => number value (render r l)
  | boolean value l => boolean value (render r l)
  | null l => null (render r l)
  | identifier name isSpaceSeparated l => identifier name isSpaceSeparated (render r l)
  | atom name l => atom name (render r l)
  | typeTag tag => typeTag (render r tag)
  | list items isInline l => list (renderedItems r items) isInline (render r l)
  | dictionary entries isInline l => dictionary (renderedEntries r entries) isInline (render r l)
  | expression language code l => expression language code (render r l)
  | codeBlock language lines l => codeBlock language lines (render r l)

def renderedItems (r : Rendering) : List Value → List Value
  | [] => []
  | v :: vs => rendered r v :: renderedItems r vs

def renderedEntries (r : Rendering) : List (Keyed Value) → List (Keyed Value)
  | [] => []
  | ⟨key, v, l⟩ :: es => ⟨key, rendered r v, render r l⟩ :: renderedEntries r es

end

mutual

theorem rendered_same : ∀ v : Value, v.rendered .same = v
  | string .. | number .. | boolean .. | null .. | identifier .. | atom .. | typeTag ..
  | expression .. | codeBlock .. => by simp only [rendered, render_same]
  | list items .. => by rw [rendered, render_same, renderedItems_same items]
  | dictionary entries .. => by rw [rendered, render_same, renderedEntries_same entries]

theorem renderedItems_same : ∀ vs : List Value, renderedItems .same vs = vs
  | [] => rfl
  | v :: vs => by rw [renderedItems, rendered_same v, renderedItems_same vs]

theorem renderedEntries_same : ∀ es : List (Keyed Value), renderedEntries .same es = es
  | [] => rfl
  | ⟨_, v, _⟩ :: es => by
    rw [renderedEntries, rendered_same v, render_same, renderedEntries_same es]

end

end Value

instance : Rendered Value := ⟨Value.rendered, Value.rendered_same⟩

instance [Rendered α] : Rendered (Keyed α) where
  render r e := ⟨e.key, render r e.value, render r e.location⟩
  render_same e := by rw [render_same, render_same]

theorem Value.renderedItems_eq (r : Rendering) (vs : List Value) :
    renderedItems r vs = render r vs := by
  induction vs with
  | nil => rfl
  | cons v vs ih =>
    rw [renderedItems, ih]
    rfl

theorem Value.renderedEntries_eq (r : Rendering) (es : List (Keyed Value)) :
    renderedEntries r es = render r es := by
  induction es with
  | nil => rfl
  | cons e es ih =>
    rw [renderedEntries, ih]
    rfl

instance : Rendered Operand where
  render r o := { o with location := render r o.location }
  render_same o := by rw [render_same]

instance : Rendered WithClause where
  render r w := ⟨render r w.parameters, render r w.location⟩
  render_same w := by rw [render_same, render_same]

instance : Rendered WhenClause where
  render r w :=
    ⟨render r w.condition, render r w.operands, render r w.withClause, render r w.location⟩
  render_same w := by simp only [render_same]

instance : Rendered FlowRule where
  render r w :=
    ⟨render r w.operands, render r w.withClause, render r w.whenClauses, render r w.location⟩
  render_same w := by simp only [render_same]

instance : Rendered Flow where
  render r f := ⟨f.name, render r f.rules, render r f.location⟩
  render_same f := by rw [render_same, render_same]

instance : Rendered SuggestionAction where
  render r a :=
    match a with
    | .saveEvent title startTime endTime description =>
      .saveEvent title (render r startTime) (render r endTime) description
    | action => action
  render_same a := by cases a <;> simp only [render_same]

instance : Rendered Suggestion where
  render r s := ⟨s.text, render r s.action, render r s.location⟩
  render_same s := by rw [render_same, render_same]

instance : Rendered MessageHeader where
  render r h := ⟨h.name, h.traffic, render r h.suggestions, render r h.location⟩
  render_same h := by rw [render_same, render_same]

instance : Rendered RichCard where
  render r c := { c with header := render r c.header }
  render_same c := by rw [render_same]

instance : Rendered MessageDefinition where
  render r d :=
    ⟨d.name, d.traffic, render r d.attributes, render r d.suggestions, render r d.location⟩
  render_same d := by simp only [render_same]

instance : Rendered Message where
  render r m :=
    match m with
    | .definition d => .definition (render r d)
    | .text h text => .text (render r h) text
    | .richCard c => .richCard (render r c)
    | .carousel h width cards => .carousel (render r h) width (render r cards)
    | .rbmFile h fileUrl thumbnailUrl => .rbmFile (render r h) fileUrl thumbnailUrl
    | .file h url => .file (render r h) url
  render_same m := by cases m <;> simp only [render_same]

instance : Rendered MessageSection where
  render r m := ⟨m.name, render r m.messages, render r m.location⟩
  render_same m := by rw [render_same, render_same]

instance : Rendered CardParts where
  render r c := { c with suggestions := render r c.suggestions }
  render_same c := by rw [render_same]

instance : Rendered MappedRow where
  render r m := ⟨render r m.values, render r m.location⟩
  render_same m := by rw [render_same, render_same]

instance : Rendered MappedType where
  render r m := ⟨m.name, m.schema, render r m.rows, render r m.location⟩
  render_same m := by rw [render_same, render_same]

instance : Rendered SettingsSection where
  render r s := ⟨s.name, render r s.attributes, render r s.mappedTypes, render r s.location⟩
  render_same s := by simp only [render_same]

instance : Rendered AgentParts where
  render r p :=
    ⟨p.displayName, p.brandName, render r p.config, render r p.defaults, render r p.flows,
      render r p.messages⟩
  render_same p := by simp only [render_same]

instance : Rendered Agent where
  render r a :=
    ⟨a.name, a.displayName, a.brandName, render r a.config, render r a.defaults, render r a.flows,
      render r a.messages, render r a.location⟩
  render_same a := by simp only [render_same]

instance : Rendered Import where
  render r i := { i with location := render r i.location }
  render_same i := by rw [render_same]

instance : Rendered FileParts where
  render r f := ⟨render r f.imports, render r f.agent, f.recognized⟩
  render_same f := by rw [render_same, render_same]

instance : Rendered SourceFile where
  render r f := ⟨render r f.imports, render r f.agent, render r f.location⟩
  render_same f := by simp only [render_same]

instance : Rendered ParseCause where
  render r c :=
    match c with
    | .expected what kind text =>
      .expected what kind (if kind = .newline then r.lineEnd text else text)
    | cause => cause
  render_same c := by
    cases c with
    | expected what kind text => exact congrArg (ParseCause.expected what kind) (ite_self _)
    | _ => rfl

instance : Rendered ParseProblem where
  render r p := ⟨render r p.cause, render r p.location⟩
  render_same p := by rw [render_same, render_same]

instance : Rendered ParseError where
  render r e := { e with location := render r e.location }
  render_same e := by rw [render_same]

instance : Rendered ParsedFile where
  render r p := ⟨render r p.tree, render r p.errors⟩
  render_same p := by rw [render_same, render_same]

/-- A message does not speak of how a line end is written. -/
theorem ParseCause.message_render (r : Rendering) (c : ParseCause) :
    (render r c).message = c.message := by
  cases c with
  | expected what kind text =>
    change s!"expected {what}, found {describeFound kind _}" = _
    split_ifs with h
    · rw [h]
      rfl
    · rfl
  | _ => rfl

theorem ParseProblem.toError_render (r : Rendering) (file : Option String) (p : ParseProblem) :
    (render r p).toError file = render r (p.toError file) :=
  congrArg (ParseError.mk · _ _) (p.cause.message_render r)

end AgentScript
