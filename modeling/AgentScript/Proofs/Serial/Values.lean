import AgentScript.Proofs.Parsing.Nodes
import AgentScript.Proofs.Serial.Records
import AgentScript.Serial.Value

/-!
# Values decoded from their encoding

A position comes back if its numbers fit the widths they are written with. A value comes back
with all values in it, however deeply they are nested, if all locations in it do and all its
numbers are finite.
-/
namespace AgentScript

open Json

structure Position.Fits (p : Position) : Prop where
  line : p.line < limit32
  column : p.column < limit32
  offset : p.offset < limit64

structure Location.Fits (l : Location) : Prop where
  start : l.start.Fits
  stop : l.stop.Fits

/-- All locations at the node and below it have positions that fit. -/
inductive Node.Fits : Node → Prop
  | mk {l : Option Location} {fields : List (List Node)} (here : ∀ k ∈ l, k.Fits)
      (below : ∀ row ∈ fields, ∀ n ∈ row, Fits n) : Fits ⟨l, fields⟩

theorem Node.fits_mk {l : Option Location} {fields : List (List Node)} :
    (Node.mk l fields).Fits ↔ (∀ k ∈ l, k.Fits) ∧ ∀ row ∈ fields, ∀ n ∈ row, n.Fits :=
  ⟨fun | .mk here below => ⟨here, below⟩, fun h => .mk h.1 h.2⟩

instance (p : Position) : Decidable p.Fits :=
  decidable_of_iff (p.line < limit32 ∧ p.column < limit32 ∧ p.offset < limit64)
    ⟨fun h => ⟨h.1, h.2.1, h.2.2⟩, fun h => ⟨h.line, h.column, h.offset⟩⟩

instance (l : Location) : Decidable l.Fits :=
  decidable_of_iff (l.start.Fits ∧ l.stop.Fits) ⟨fun h => ⟨h.1, h.2⟩, fun h => ⟨h.start, h.stop⟩⟩

namespace Node

mutual

def fits : Node → Bool
  | mk l fields => l.all (fun k => decide k.Fits) && fieldsFit fields

def fieldsFit : List (List Node) → Bool
  | [] => true
  | row :: rows => rowFits row && fieldsFit rows

def rowFits : List Node → Bool
  | [] => true
  | n :: ns => n.fits && rowFits ns

end

mutual

theorem fits_iff : ∀ n : Node, n.fits = true ↔ n.Fits
  | mk l fields => by
    rw [fits, Bool.and_eq_true, fieldsFit_iff fields, fits_mk, Option.all_eq_true]
    simp

theorem fieldsFit_iff : ∀ rows : List (List Node),
    fieldsFit rows = true ↔ ∀ row ∈ rows, ∀ n ∈ row, n.Fits
  | [] => by simp [fieldsFit]
  | row :: rows => by
    rw [fieldsFit, Bool.and_eq_true, rowFits_iff row, fieldsFit_iff rows, List.forall_mem_cons]

theorem rowFits_iff : ∀ ns : List Node, rowFits ns = true ↔ ∀ n ∈ ns, n.Fits
  | [] => by simp [rowFits]
  | n :: ns => by
    rw [rowFits, Bool.and_eq_true, fits_iff n, rowFits_iff ns, List.forall_mem_cons]

end

instance (n : Node) : Decidable n.Fits := decidable_of_iff _ n.fits_iff

end Node

theorem Json.nat?_nat {bound n : Nat} (h : n < bound) : nat? bound (nat n) = some n := by
  simp [nat, nat?, h]

theorem Position.ofJson?_toJson {p : Position} (h : p.Fits) : ofJson? p.toJson = some p := by
  have line : required nat32? "line" p.toJson = some p.line :=
    required_of_field? rfl (nat?_nat h.line)
  have column : required nat32? "column" p.toJson = some p.column :=
    required_of_field? rfl (nat?_nat h.column)
  have offset : required nat64? "offset" p.toJson = some p.offset :=
    required_of_field? rfl (nat?_nat h.offset)
  simp only [ofJson?, Option.bind_eq_bind, Option.bind_eq_some_iff]
  exact ⟨_, rfl, _, line, _, column, _, offset, rfl⟩

theorem Location.ofJson?_toJson {l : Location} (h : l.Fits) : ofJson? l.toJson = some l := by
  have start : required Position.ofJson? "start" l.toJson = some l.start :=
    required_of_field? rfl (Position.ofJson?_toJson h.start)
  have stop : required Position.ofJson? "end" l.toJson = some l.stop :=
    required_of_field? rfl (Position.ofJson?_toJson h.stop)
  simp only [ofJson?, Option.bind_eq_bind, Option.bind_eq_some_iff]
  exact ⟨_, rfl, _, start, _, stop, rfl⟩

theorem location?_of_field? {v : Json} {l : Option Location}
    (found : v.field? "location" = l.map (·.toJson)) (h : ∀ k ∈ l, k.Fits) : location? v = some l :=
  optional_of_field? found (fun k mem => Location.ofJson?_toJson (h k mem)) rfl

theorem optional_str?_of_field? {key : String} {v : Json} {o : Option String}
    (found : v.field? key = o.map str) : optional str? key v = some o :=
  optional_of_field? found (fun _ _ => rfl) rfl

theorem optional_str?_of_nullable {key : String} {v : Json} {o : Option String}
    (found : v.field? key = some ((o.map str).getD null)) : optional str? key v = some o :=
  optional_of_nullable found (fun _ _ => rfl) rfl

@[simp]
theorem Language.ofJson?_toJson (site : Site) (l : Language) : ofJson? site l.toJson = some l := by
  cases l <;> rfl

@[simp]
theorem Chomping.ofJson?_toJson (site : Site) (c : Chomping) : ofJson? site c.toJson = some c := by
  cases c <;> rfl

/-- A tag is read alike from a record of its own and from the member of a union. -/
theorem TypeTag.ofJson?_of_field? {v : Json} {t : TypeTag} (whole : shape.record? v = some v)
    (found : ∀ key ≠ "type", v.field? key = t.toJson.field? key) (h : t.node.Fits) :
    ofJson? v = some t := by
  have typeName : optional str? "typeName" v = some t.typeName :=
    optional_str?_of_nullable (by simp [found, toJson, fields, locationField])
  have value : required str? "value" v = some t.value :=
    required_of_field? (x := str t.value) (by simp [found, toJson, fields, locationField]) rfl
  have modifier : optional str? "modifier" v = some t.modifier :=
    optional_str?_of_field? (by simp [found, toJson, fields, locationField])
  have location : location? v = some t.location :=
    location?_of_field? (by simp [found, toJson, fields, locationField]) (Node.fits_mk.mp h).1
  simp only [ofJson?, Option.bind_eq_bind, Option.bind_eq_some_iff]
  exact ⟨_, whole, _, typeName, _, value, _, modifier, _, location, rfl⟩

theorem TypeTag.ofJson?_toJson {t : TypeTag} (h : t.node.Fits) : ofJson? t.toJson = some t :=
  ofJson?_of_field? rfl (fun _ _ => rfl) h

theorem Value.listToJson_eq_map (items : List Value) :
    Value.listToJson items = items.map Value.toJson := by
  induction items with
  | nil => rfl
  | cons v items ih => rw [Value.listToJson, ih, List.map_cons]

theorem Value.entriesToJson_eq_map (entries : List (Keyed Value)) :
    Value.entriesToJson entries = entries.map Attribute.toJson := by
  induction entries with
  | nil => rfl
  | cons e entries ih =>
    rw [Value.entriesToJson, ih, List.map_cons]
    rfl

theorem Keyed.fits_node {e : Keyed Value} :
    e.node.Fits ↔ (∀ k ∈ e.location, k.Fits) ∧ e.value.node.Fits := by
  simp [Keyed.node, Node.fits_mk]

/-- An attribute comes back with a value that comes back. -/
theorem Keyed.ofJson?_toJson {decode : Json → Option Value} {e : Keyed Value}
    (value : decode e.value.toJson = some e.value) (h : ∀ k ∈ e.location, k.Fits) :
    Keyed.ofJson? decode (Attribute.toJson e) = some e := by
  have key : required str? "key" (Attribute.toJson e) = some e.key :=
    required_of_field? rfl rfl
  have value : required decode "value" (Attribute.toJson e) = some e.value :=
    required_of_field? rfl value
  have location : location? (Attribute.toJson e) = some e.location :=
    location?_of_field? (by simp [Attribute.toJson, locationField]) h
  simp only [Keyed.ofJson?, Option.bind_eq_bind, Option.bind_eq_some_iff]
  exact ⟨_, rfl, _, key, _, value, _, location, rfl⟩

mutual

def Value.numbers : Value → List Float
  | .number x _ => [x]
  | .list items _ _ => Value.numbersOfItems items
  | .dictionary entries _ _ => Value.numbersOfEntries entries
  | .string _ _ _ _ | .boolean _ _ | .null _ | .identifier _ _ _ | .atom _ _ | .typeTag _
  | .expression _ _ _ | .codeBlock _ _ _ => []

def Value.numbersOfItems : List Value → List Float
  | [] => []
  | v :: vs => v.numbers ++ Value.numbersOfItems vs

def Value.numbersOfEntries : List (Keyed Value) → List Float
  | [] => []
  | ⟨_, v, _⟩ :: es => v.numbers ++ Value.numbersOfEntries es

end

def Keyed.numbers (e : Keyed Value) : List Float := e.value.numbers

theorem Value.numbersOfItems_eq_flatMap (items : List Value) :
    numbersOfItems items = items.flatMap numbers := by
  induction items with
  | nil => rfl
  | cons v items ih => rw [numbersOfItems, ih, List.flatMap_cons]

theorem Value.numbersOfEntries_eq_flatMap (entries : List (Keyed Value)) :
    numbersOfEntries entries = entries.flatMap Keyed.numbers := by
  induction entries with
  | nil => rfl
  | cons e entries ih =>
    rw [numbersOfEntries, ih, List.flatMap_cons]
    rfl

/-- None of the numbers is infinite or no number at all. -/
abbrev AllFinite (numbers : List Float) : Prop := ∀ x ∈ numbers, x.isFinite = true

theorem Value.depth_pos (v : Value) : 0 < v.toJson.depth := by
  cases v <;> exact Nat.succ_pos _

theorem Value.depth_item_lt {items : List Value} {v : Value} (mem : v ∈ items) (isInline : Bool)
    (l : Option Location) : v.toJson.depth < (toJson (list items isInline l)).depth :=
  calc v.toJson.depth < (arr (items.map toJson)).depth := depth_lt_arr_map mem
    _ < _ := depth_lt_record "items" (by simp [listToJson_eq_map])

theorem Value.depth_entry_lt {entries : List (Keyed Value)} {e : Keyed Value} (mem : e ∈ entries)
    (isInline : Bool) (l : Option Location) :
    e.value.toJson.depth < (toJson (dictionary entries isInline l)).depth :=
  calc e.value.toJson.depth < (Attribute.toJson e).depth := depth_lt_record "value" (by simp)
    _ < (arr (entries.map Attribute.toJson)).depth := depth_lt_arr_map mem
    _ < _ := depth_lt_record "entries" (by simp [entriesToJson_eq_map])

/-- The name a value has in the union of its forms. -/
def Value.type : Value → String
  | .string _ _ _ _ => "StringValue"
  | .number _ _ => "NumberValue"
  | .boolean _ _ => "BooleanValue"
  | .null _ => "NullValue"
  | .identifier _ _ _ => "IdentifierValue"
  | .atom _ _ => "AtomValue"
  | .typeTag _ => "TypeTag"
  | .list _ _ _ => "ListValue"
  | .dictionary _ _ _ => "DictionaryValue"
  | .expression _ _ _ => "EmbeddedExpression"
  | .codeBlock _ _ _ => "EmbeddedCodeBlock"

theorem Value.member?_toJson (site : Site) (v : Value) :
    member? shapes site v.toJson = some (v.type, v.toJson) := by
  cases v <;> exact member?_tagged shapes site _ _

theorem Value.location?_toJson {v : Value} (h : v.node.Fits) :
    location? v.toJson = some v.location := by
  cases v with
  | typeTag t =>
    exact location?_of_field? (by simp [toJson, TypeTag.fields, locationField, location])
      (Node.fits_mk.mp h).1
  | _ =>
    exact location?_of_field? (by simp [toJson, locationField, location]) (Node.fits_mk.mp h).1

/-- The induction is on the bound of the depth, which every step into a list or an entry lowers. -/
theorem Value.decode?_toJson {depth : Nat} {v : Value} (site : Site) (h : v.node.Fits)
    (finite : AllFinite v.numbers) (deep : v.toJson.depth ≤ depth) :
    decode? depth site v.toJson = some v := by
  induction depth generalizing v site with
  | zero => exact absurd v.depth_pos (by omega)
  | succ depth ih =>
    have located := location?_toJson h
    rw [decode?, member?_toJson]
    simp only [located, Option.bind_eq_bind, Option.bind_some]
    cases v with
    | string text isMultiline chomping l =>
      simp only [type, location, Option.bind_eq_some_iff]
      exact ⟨_, required_of_field? (x := str text) (by simp [toJson, locationField]) rfl, _,
        defaulted_of_field? (x := bool isMultiline) (by simp [toJson, locationField]) rfl, _,
        optional_of_field? (by simp [toJson, locationField])
          (fun c _ => c.ofJson?_toJson .inside) rfl, rfl⟩
    | number x l =>
      simp only [type, location, Option.bind_eq_some_iff]
      have written : ofFloat x = float x := if_pos (finite x (by simp [numbers]))
      exact ⟨_, required_of_field? (x := float x) (by simp [toJson, locationField, written]) rfl,
        rfl⟩
    | boolean b l =>
      simp only [type, location, Option.bind_eq_some_iff]
      exact ⟨_, required_of_field? (x := bool b) (by simp [toJson, locationField]) rfl, rfl⟩
    | null l => simp only [type, location, Option.pure_def]
    | identifier name isSpaceSeparated l =>
      simp only [type, location, Option.bind_eq_some_iff]
      exact ⟨_, required_of_field? (x := str name) (by simp [toJson, locationField]) rfl, _,
        defaulted_of_field? (x := bool isSpaceSeparated) (by simp [toJson, locationField]) rfl, rfl⟩
    | atom name l =>
      simp only [type, location, Option.bind_eq_some_iff]
      exact ⟨_, required_of_field? (x := str name) (by simp [toJson, locationField]) rfl, rfl⟩
    | typeTag t =>
      simp only [type, Option.bind_eq_some_iff]
      have found (key : String) (differ : key ≠ "type") :
          (toJson (typeTag t)).field? key = t.toJson.field? key := field?_tagged differ _
      exact ⟨_, t.ofJson?_of_field? rfl found h, rfl⟩
    | list items isInline l =>
      have below := (Node.fits_mk.mp h).2
      simp only [nodes_eq_map, List.mem_singleton, forall_eq, List.forall_mem_map] at below
      rw [numbers, numbersOfItems_eq_flatMap, AllFinite, List.forall_mem_flatMap] at finite
      have decoded : ∀ v ∈ items, decode? depth .inside v.toJson = some v := fun v mem =>
        ih .inside (below v mem) (finite v mem) (by have := depth_item_lt mem isInline l; omega)
      simp only [type, location, Option.bind_eq_some_iff]
      exact ⟨_, required_of_field? (x := arr (items.map toJson))
          (by simp [toJson, locationField, listToJson_eq_map]) (listOf_map decoded), _,
        required_of_field? (x := bool isInline) (by simp [toJson, locationField]) rfl, rfl⟩
    | dictionary entries isInline l =>
      have below := (Node.fits_mk.mp h).2
      simp only [entryNodes_eq_map, List.mem_singleton, forall_eq, List.forall_mem_map,
        Keyed.fits_node] at below
      rw [numbers, numbersOfEntries_eq_flatMap, AllFinite, List.forall_mem_flatMap] at finite
      have decoded : ∀ e ∈ entries,
          Keyed.ofJson? (decode? depth .inside) (Attribute.toJson e) = some e := fun e mem =>
        Keyed.ofJson?_toJson (ih .inside (below e mem).2 (finite e mem)
          (by have := depth_entry_lt mem isInline l; omega)) (below e mem).1
      simp only [type, location, Option.bind_eq_some_iff]
      exact ⟨_, required_of_field? (x := arr (entries.map Attribute.toJson))
          (by simp [toJson, locationField, entriesToJson_eq_map]) (listOf_map decoded), _,
        required_of_field? (x := bool isInline) (by simp [toJson, locationField]) rfl, rfl⟩
    | expression language code l =>
      simp only [type, location, Option.bind_eq_some_iff]
      exact ⟨_, required_of_field? (x := language.toJson) (by simp [toJson, locationField])
          (language.ofJson?_toJson .inside), _,
        required_of_field? (x := str code) (by simp [toJson, locationField]) rfl, rfl⟩
    | codeBlock language lines l =>
      simp only [type, location, Option.bind_eq_some_iff]
      exact ⟨_, required_of_field? (x := language.toJson) (by simp [toJson, locationField])
          (language.ofJson?_toJson .inside), _,
        required_of_field? (x := arr (lines.map str)) (by simp [toJson, locationField])
          (strings?_map lines), rfl⟩

theorem Value.ofJson?_toJson (site : Site) {v : Value} (h : v.node.Fits)
    (finite : AllFinite v.numbers) : ofJson? site v.toJson = some v :=
  decode?_toJson site h finite le_rfl

theorem Attribute.ofJson?_toJson (site : Site) {e : Keyed Value} (h : e.node.Fits)
    (finite : AllFinite e.numbers) : Attribute.ofJson? site (Attribute.toJson e) = some e := by
  obtain ⟨here, value⟩ := Keyed.fits_node.mp h
  exact Keyed.ofJson?_toJson (Value.ofJson?_toJson site value finite) here

end AgentScript
