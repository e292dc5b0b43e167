import AgentScript.Json.Printing
import AgentScript.Json.Reading
import AgentScript.Json.Record

/-!
# Readers of texts

Reading a text is left open here: all that is asked of a reader is that it gives back what was
printed, as far as the printed value has different names in every object, whole numbers of 64
bits, doubles whose own texts denote them, and a depth below the limit. The encodings of trees
are such values.
-/
namespace AgentScript.Json

/-- A double that the reader gets back from the double's own text, unless it has none. -/
def Survives (read : String → Option Json) (x : Float) : Prop :=
  x.isFinite = true → read (compact (.float x)) = some (.float x)

/-- A value without anything that a reader could lose, except for its depth. -/
inductive Readable (read : String → Option Json) : Json → Prop
  | null : Readable read null
  | bool (b : Bool) : Readable read (bool b)
  | int {i : Int} (low : -Reader.signedLimit ≤ i) (high : i < Reader.unsignedLimit) :
      Readable read (int i)
  | float {x : Float} (finite : x.isFinite = true) (survives : Survives read x) :
      Readable read (float x)
  | str (s : String) : Readable read (str s)
  | arr {items : List Json} (below : ∀ v ∈ items, Readable read v) : Readable read (arr items)
  | obj {fields : List (String × Json)} (apart : (fields.map (·.1)).Nodup)
      (below : ∀ f ∈ fields, Readable read f.2) : Readable read (obj fields)

/-- A reader that gets back the values that are not too deep from the texts printed for them. -/
def Restores (read : String → Option Json) : Prop :=
  ∀ v : Json, v.Readable read → v.depth < depthLimit → read v.pretty = some v

variable {read : String → Option Json} {α : Type} {encode : α → Json}

theorem keys_sublist (fields : List (String × Option Json)) :
    ((fields.filterMap fun (key, value) => value.map fun v => (key, v)).map (·.1)).Sublist
      (fields.map (·.1)) := by
  induction fields with
  | nil => exact .slnil
  | cons f fields ih =>
    obtain ⟨key, written⟩ := f
    cases written with
    | none => simpa using ih.cons key
    | some v => simpa using ih

theorem readable_ofFloat {x : Float} (survives : Survives read x) : (ofFloat x).Readable read := by
  unfold ofFloat
  split
  · next finite => exact .float finite survives
  · exact .null

theorem readable_record {fields : List (String × Option Json)} (apart : (fields.map (·.1)).Nodup)
    (below : ∀ f ∈ fields, ∀ v ∈ f.2, v.Readable read) : (record fields).Readable read := by
  refine .obj (apart.sublist (keys_sublist fields)) ?_
  simp only [List.mem_filterMap, Option.map_eq_some_iff]
  rintro - ⟨f, mem, v, written, rfl⟩
  exact below f mem v written

theorem readable_some {v : Json} (h : v.Readable read) : ∀ w ∈ some v, w.Readable read := by
  rintro w ⟨⟩
  exact h

theorem readable_map {o : Option α} (h : ∀ a ∈ o, (encode a).Readable read) :
    ∀ v ∈ o.map encode, v.Readable read := by
  cases o with
  | none => simp
  | some a => exact readable_some (h a rfl)

theorem readable_tagged {type : String} {fields : List (String × Option Json)}
    (apart : ("type" :: fields.map (·.1)).Nodup)
    (below : ∀ f ∈ fields, ∀ v ∈ f.2, v.Readable read) : (tagged type fields).Readable read :=
  readable_record apart (List.forall_mem_cons.mpr ⟨readable_some (.str type), below⟩)

theorem readable_text (o : Option String) : ∀ v ∈ o.map str, v.Readable read :=
  readable_map fun s _ => .str s

theorem readable_nullable {o : Option α} (h : ∀ a ∈ o, (encode a).Readable read) :
    ∀ v ∈ some ((o.map encode).getD null), v.Readable read := by
  cases o with
  | none => exact readable_some .null
  | some a => exact readable_some (h a rfl)

theorem readable_arr {items : List α} (h : ∀ a ∈ items, (encode a).Readable read) :
    (arr (items.map encode)).Readable read :=
  .arr (List.forall_mem_map.mpr h)

theorem readable_list {items : List α} (h : ∀ a ∈ items, (encode a).Readable read) :
    ∀ v ∈ some (arr (items.map encode)), v.Readable read :=
  readable_some (readable_arr h)

theorem readable_nonEmpty {items : List α} (h : ∀ a ∈ items, (encode a).Readable read) :
    ∀ v ∈ nonEmpty (items.map encode), v.Readable read := by
  unfold nonEmpty
  split
  · simp
  · exact readable_list h

end AgentScript.Json
