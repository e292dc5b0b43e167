import AgentScript.Json.Record

/-!
# Records read back

A record gives under each of its names what was written there, provided the name occurs
once. So each way of reading a field undoes the way of writing it that belongs to it: an
absent field may be left out or written as null, and an empty list may be left out.
-/
namespace AgentScript.Json

variable {α : Type} {decode : Json → Option α} {encode : α → Json}
variable {key other : String} {written : Option Json} {fields : List (String × Option Json)}

@[simp]
theorem field?_record_nil : (record []).field? key = none := rfl

theorem field?_record_cons : (record ((other, written) :: fields)).field? key =
    if key = other then written.or ((record fields).field? key)
    else (record fields).field? key := by
  by_cases same : key = other
  · cases written <;> simp [record, field?, same]
  · have : (key == other) = false := by simpa using same
    cases written <;> simp [record, field?, List.lookup_cons, this, same]

theorem field?_record_absent (absent : key ∉ fields.map (·.1)) :
    (record fields).field? key = none := by
  induction fields with
  | nil => rfl
  | cons f fields ih =>
    obtain ⟨other, written⟩ := f
    simp only [List.map_cons, List.mem_cons, not_or] at absent
    simp [field?_record_cons, absent.1, ih absent.2]

theorem field?_record_append {more : List (String × Option Json)} :
    (record (fields ++ more)).field? key =
      ((record fields).field? key).or ((record more).field? key) := by
  induction fields with
  | nil => rfl
  | cons f fields ih =>
    obtain ⟨other, written⟩ := f
    rw [List.cons_append, field?_record_cons, field?_record_cons, ih]
    split
    · rw [Option.or_assoc]
    · rfl

@[simp]
theorem field?_record_self (absent : key ∉ fields.map (·.1)) :
    (record ((key, written) :: fields)).field? key = written := by
  simp [field?_record_cons, field?_record_absent absent]

@[simp]
theorem field?_record_skip (differ : key ≠ other) :
    (record ((other, written) :: fields)).field? key = (record fields).field? key := by
  simp [field?_record_cons, differ]

@[simp]
theorem field?_tagged (differ : key ≠ "type") (type : String) :
    (tagged type fields).field? key = (record fields).field? key :=
  field?_record_skip differ

theorem required_of_field? {v x : Json} {a : α} (found : v.field? key = some x)
    (decoded : decode x = some a) : required decode key v = some a := by
  simp [required, found, decoded]

/-- Nothing that is decoded is null, or else it would be taken for an absent field. -/
theorem optional_of_field? {v : Json} {o : Option α} (found : v.field? key = o.map encode)
    (decoded : ∀ a ∈ o, decode (encode a) = some a) (noNull : decode null = none) :
    optional decode key v = some o := by
  cases o with
  | none => simp [optional, found]
  | some a =>
    have back := decoded a rfl
    cases form : encode a with
    | null => simp [form, noNull] at back
    | _ => simp_all [optional]

/-- An absent field may be written as null. -/
theorem optional_of_nullable {v : Json} {o : Option α}
    (found : v.field? key = some ((o.map encode).getD null))
    (decoded : ∀ a ∈ o, decode (encode a) = some a) (noNull : decode null = none) :
    optional decode key v = some o := by
  cases o with
  | none => simp [optional, found]
  | some a => exact optional_of_field? found decoded noNull

theorem defaulted_of_field? {v x : Json} {a value : α} (found : v.field? key = some x)
    (decoded : decode x = some a) : defaulted value decode key v = some a := by
  simp [defaulted, found, decoded]

theorem listOf_map {items : List α} (decoded : ∀ a ∈ items, decode (encode a) = some a) :
    listOf decode (arr (items.map encode)) = some items := by
  induction items with
  | nil => rfl
  | cons a items ih =>
    obtain ⟨first, rest⟩ := List.forall_mem_cons.mp decoded
    have tail := ih rest
    simp only [listOf] at tail ⊢
    simp [first, tail]

theorem required_listOf {v : Json} {items : List α}
    (found : v.field? key = some (arr (items.map encode)))
    (decoded : ∀ a ∈ items, decode (encode a) = some a) :
    required (listOf decode) key v = some items :=
  required_of_field? found (listOf_map decoded)

@[simp]
theorem strings?_map (words : List String) : strings? (arr (words.map str)) = some words :=
  listOf_map fun _ _ => rfl

/-- A list that is left out when it is empty is empty when it is missing. -/
theorem defaulted_of_nonEmpty {v : Json} {items : List α}
    (found : v.field? key = nonEmpty (items.map encode))
    (decoded : ∀ a ∈ items, decode (encode a) = some a) :
    defaulted [] (listOf decode) key v = some items := by
  cases items with
  | nil => simp [defaulted, found, nonEmpty]
  | cons a items => exact defaulted_of_field? (by simpa [nonEmpty] using found) (listOf_map decoded)

theorem depth_le_depthOfItems {v : Json} {items : List Json} (mem : v ∈ items) :
    v.depth ≤ depthOfItems items := by
  induction items with
  | nil => cases mem
  | cons w items ih =>
    simp only [depthOfItems]
    rcases List.mem_cons.mp mem with rfl | mem
    · omega
    · have := ih mem
      omega

theorem depth_le_depthOfFields {v : Json} {fields : List (String × Json)}
    (mem : (key, v) ∈ fields) : v.depth ≤ depthOfFields fields := by
  induction fields with
  | nil => cases mem
  | cons f fields ih =>
    obtain ⟨other, w⟩ := f
    simp only [depthOfFields]
    rcases List.mem_cons.mp mem with same | mem
    · cases same
      omega
    · have := ih mem
      omega

theorem depth_lt_record (key : String) {v : Json} (mem : (key, some v) ∈ fields) :
    v.depth < (record fields).depth :=
  Nat.lt_succ_of_le (depth_le_depthOfFields (List.mem_filterMap.mpr ⟨(key, some v), mem, rfl⟩))

theorem depth_lt_arr_map {a : α} {items : List α} (mem : a ∈ items) :
    (encode a).depth < (arr (items.map encode)).depth :=
  Nat.lt_succ_of_le (depth_le_depthOfItems (List.mem_map_of_mem mem))

end AgentScript.Json
