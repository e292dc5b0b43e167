import AgentScript.Proofs.Serial.Scalars
import Mathlib.Data.List.DropRight

/-!
# Texts read back

The reader undoes the layout with one field or item a line. Every array and every object takes
one of the levels that are left to it, so a value comes back from its text if the levels are at
least as many as its depth.
-/
namespace AgentScript.Json

open Reader

attribute [local simp] value items fields
  Printer.indented Printer.indentedItems Printer.indentedFields

theorem value_congr {room n : Nat} {text other : List Char}
    (same : skipSpace text = skipSpace other) : value room n text = value room n other := by
  cases n with
  | zero => rfl
  | succ n => rw [value, value, same]

@[simp]
theorem skipSpace_skipSpace (text : List Char) : skipSpace (skipSpace text) = skipSpace text :=
  List.dropWhile_idempotent isSpace text

theorem items_congr {room n : Nat} {read : List Json} {text other : List Char}
    (same : skipSpace text = skipSpace other) :
    items room n read text = items room n read other := by
  cases n with
  | zero => rfl
  | succ n => rw [items, items, value_congr same]

theorem fields_congr {room n : Nat} {read : List (String × Json)} {text other : List Char}
    (same : skipSpace text = skipSpace other) :
    fields room n read text = fields room n read other := by
  cases n with
  | zero => rfl
  | succ n => rw [fields, fields, same]

section

variable {room n : Nat} {text rest more : List Char} {v : Json}

/-- A list with something in it is read item by item. -/
theorem value_openItems (first : value room n text = some (v, rest)) :
    value (room + 1) (n + 1) ('[' :: text) = items room n [] text := by
  -- no value begins with the bracket that closes an empty list
  have noClose (r : List Char) : skipSpace text ≠ ']' :: r := by
    intro same
    cases n with
    | zero => simp at first
    | succ n => simp [same, CharClass.isDigit] at first
  rw [value, skipSpace_cons (by rfl)]
  simpa only [noClose] using items_congr (skipSpace_skipSpace text)

theorem items_comma {read : List Json} (first : value room n text = some (v, rest))
    (next : skipSpace rest = ',' :: more) :
    items room (n + 1) read text = items room n (v :: read) more := by
  simp [first, next]

theorem items_close {read : List Json} (first : value room n text = some (v, rest))
    (next : skipSpace rest = ']' :: more) :
    items room (n + 1) read text = some (arr (v :: read).reverse, more) := by
  simp [first, next]

variable {key : String} {read : List (String × Json)}

/-- An object with something in it is read field by field. -/
theorem value_openFields (start : skipSpace text = (Printer.quoted key).toList ++ rest) :
    value (room + 1) (n + 1) ('\x7b' :: text) = fields room n [] text := by
  rw [toList_quoted_append] at start
  have go : fields room n [] (skipSpace text) = fields room n [] text :=
    fields_congr (skipSpace_skipSpace text)
  rw [value, skipSpace_cons (by rfl)]
  simpa [start] using go

theorem fields_comma {inner : List Char}
    (start : skipSpace text = (Printer.quoted key).toList ++ ':' :: inner)
    (first : value room n inner = some (v, rest)) (next : skipSpace rest = ',' :: more) :
    fields room (n + 1) read text = fields room n (insertField read key v) more := by
  rw [toList_quoted_append] at start
  have colon : skipSpace (':' :: inner) = ':' :: inner := skipSpace_cons rfl
  simp [start, stringTail_escaped, colon, first, next]

theorem fields_close {inner : List Char}
    (start : skipSpace text = (Printer.quoted key).toList ++ ':' :: inner)
    (first : value room n inner = some (v, rest)) (next : skipSpace rest = '\x7d' :: more) :
    fields room (n + 1) read text = some (obj (insertField read key v), more) := by
  rw [toList_quoted_append] at start
  have colon : skipSpace (':' :: inner) = ':' :: inner := skipSpace_cons rfl
  simp [start, stringTail_escaped, colon, first, next]

end

theorem insertField_of_notMem {read : List (String × Json)} {key : String} {v : Json}
    (new : key ∉ read.map (·.1)) : insertField read key v = read ++ [(key, v)] := by
  have kept : read.filter (·.1 != key) = read := by
    simp only [List.filter_eq_self, bne_iff_ne]
    rintro f mem rfl
    exact new (List.mem_map_of_mem mem)
  rw [insertField, kept]

/-- The characters of a value's text at a depth. -/
def chars (depth : Nat) (v : Json) : List Char := (Printer.indented depth v).toList

/-- The text of a value is read as the value, wherever it stands. -/
def ReadsBack (v : Json) : Prop :=
  ∀ (room n depth : Nat) (rest : List Char), EndsNumber rest → v.depth ≤ room →
    2 * (chars depth v).length < n → value room n (chars depth v ++ rest) = some (v, rest)

/-- The characters of the items after the first one. -/
def itemChars (depth : Nat) (vs : List Json) : List Char := (Printer.indentedItems depth vs).toList

def fieldChars (depth : Nat) (fs : List (String × Json)) : List Char :=
  (Printer.indentedFields depth fs).toList

theorem itemChars_cons (depth : Nat) (v : Json) (vs : List Json) :
    itemChars depth (v :: vs) =
      ',' :: ((Printer.breakAt depth).toList ++ (chars depth v ++ itemChars depth vs)) := by
  simp [itemChars, chars]

theorem fieldChars_cons (depth : Nat) (key : String) (v : Json) (fs : List (String × Json)) :
    fieldChars depth ((key, v) :: fs) =
      ',' :: ((Printer.breakAt depth).toList ++ ((Printer.quoted key).toList ++
        ':' :: ' ' :: (chars depth v ++ fieldChars depth fs))) := by
  simp [fieldChars, chars]

theorem chars_arr_cons (depth : Nat) (v : Json) (vs : List Json) :
    chars depth (arr (v :: vs)) =
      '[' :: ((Printer.breakAt (depth + 1)).toList ++ (chars (depth + 1) v ++
        (itemChars (depth + 1) vs ++ ((Printer.breakAt depth).toList ++ [']'])))) := by
  simp [itemChars, chars]

theorem chars_obj_cons (depth : Nat) (key : String) (v : Json) (fs : List (String × Json)) :
    chars depth (obj ((key, v) :: fs)) =
      '\x7b' :: ((Printer.breakAt (depth + 1)).toList ++ ((Printer.quoted key).toList ++
        ':' :: ' ' :: (chars (depth + 1) v ++ (fieldChars (depth + 1) fs ++
          ((Printer.breakAt depth).toList ++ ['\x7d']))))) := by
  simp [fieldChars, chars]

theorem endsNumber_items (depth outer : Nat) (vs : List Json) (rest : List Char) :
    EndsNumber (itemChars depth vs ++ ((Printer.breakAt outer).toList ++ rest)) := by
  cases vs with
  | nil => rw [toList_breakAt_append]; rfl
  | cons v vs => rw [itemChars_cons]; rfl

theorem endsNumber_fields (depth outer : Nat) (fs : List (String × Json)) (rest : List Char) :
    EndsNumber (fieldChars depth fs ++ ((Printer.breakAt outer).toList ++ rest)) := by
  cases fs with
  | nil => rw [toList_breakAt_append]; rfl
  | cons f fs => rw [fieldChars_cons]; rfl

/-- The first item is read and what follows it decides whether the list goes on. -/
theorem items_chars {room depth outer n : Nat} {v : Json} {vs read : List Json}
    {rest : List Char} (each : ∀ w ∈ v :: vs, ReadsBack w) (deep : depthOfItems (v :: vs) ≤ room)
    (fuel : 2 * ((chars depth v).length + (itemChars depth vs).length) + 2 ≤ n) :
    items room n read (chars depth v ++ (itemChars depth vs ++
      ((Printer.breakAt outer).toList ++ ']' :: rest))) =
        some (arr (read.reverse ++ v :: vs), rest) := by
  induction vs generalizing v n read with
  | nil =>
    obtain ⟨shallow, -⟩ := Nat.max_le.mp deep
    obtain ⟨n, rfl⟩ : ∃ m, n = m + 1 := ⟨n - 1, by omega⟩
    have first := each v (by simp) room n depth _ (endsNumber_items depth outer [] (']' :: rest))
      shallow (by omega)
    have next : skipSpace (itemChars depth [] ++ ((Printer.breakAt outer).toList ++ ']' :: rest)) =
        ']' :: rest := skipSpace_breakAt outer (']' :: rest)
    rw [items_close first next, List.reverse_cons]
  | cons w vs ih =>
    obtain ⟨shallow, below⟩ := Nat.max_le.mp deep
    obtain ⟨n, rfl⟩ : ∃ m, n = m + 1 := ⟨n - 1, by omega⟩
    have first := each v (by simp) room n depth _
      (endsNumber_items depth outer (w :: vs) (']' :: rest)) shallow (by omega)
    rw [itemChars_cons] at fuel first ⊢
    simp only [List.length_cons, List.length_append] at fuel
    simp only [List.cons_append, List.append_assoc] at first ⊢
    rw [items_comma first (skipSpace_cons rfl), items_congr (skipSpace_breakAt depth _),
      ih (fun u mem => each u (by simp [mem])) below (by omega)]
    simp

theorem notMem_of_nodup {key : String} {v : Json} {read fs : List (String × Json)}
    (apart : ((read ++ (key, v) :: fs).map (·.1)).Nodup) : key ∉ read.map (·.1) := by
  rw [List.map_append, List.nodup_append] at apart
  exact fun mem => apart.2.2 key mem key (by simp) rfl

/-- As for items; the fields read so far are kept since the next one has another name. -/
theorem fields_chars {room depth outer n : Nat} {key : String} {v : Json}
    {fs read : List (String × Json)} {rest : List Char}
    (each : ∀ f ∈ (key, v) :: fs, ReadsBack f.2) (deep : depthOfFields ((key, v) :: fs) ≤ room)
    (apart : ((read ++ (key, v) :: fs).map (·.1)).Nodup)
    (fuel : 2 * ((chars depth v).length + (fieldChars depth fs).length) + 2 ≤ n) :
    fields room n read ((Printer.quoted key).toList ++ ':' :: ' ' :: (chars depth v ++
      (fieldChars depth fs ++ ((Printer.breakAt outer).toList ++ '\x7d' :: rest)))) =
        some (obj (read ++ (key, v) :: fs), rest) := by
  induction fs generalizing key v n read with
  | nil =>
    obtain ⟨shallow, -⟩ := Nat.max_le.mp deep
    obtain ⟨n, rfl⟩ : ∃ m, n = m + 1 := ⟨n - 1, by omega⟩
    have reads : ReadsBack v := each (key, v) (by simp)
    have first := reads room n depth _ (endsNumber_fields depth outer [] ('\x7d' :: rest)) shallow
      (by omega)
    have new := notMem_of_nodup apart
    have next : skipSpace (fieldChars depth [] ++
        ((Printer.breakAt outer).toList ++ '\x7d' :: rest)) = '\x7d' :: rest :=
      skipSpace_breakAt outer ('\x7d' :: rest)
    rw [fields_close (skipSpace_quoted key _) ((value_congr (skipSpace_space _)).trans first) next,
      insertField_of_notMem new]
  | cons f fs ih =>
    obtain ⟨other, w⟩ := f
    obtain ⟨shallow, below⟩ := Nat.max_le.mp deep
    obtain ⟨n, rfl⟩ : ∃ m, n = m + 1 := ⟨n - 1, by omega⟩
    have reads : ReadsBack v := each (key, v) (by simp)
    have first := reads room n depth _
      (endsNumber_fields depth outer ((other, w) :: fs) ('\x7d' :: rest)) shallow (by omega)
    have new := notMem_of_nodup apart
    rw [fieldChars_cons] at fuel first ⊢
    simp only [List.length_cons, List.length_append] at fuel
    simp only [List.cons_append, List.append_assoc] at first ⊢
    rw [fields_comma (skipSpace_quoted key _) ((value_congr (skipSpace_space _)).trans first)
      (skipSpace_cons rfl), insertField_of_notMem new, fields_congr (skipSpace_breakAt depth _),
      ih (fun u mem => each u (by simp [mem])) below (by simpa using apart) (by omega)]
    simp

theorem ReadsBack.of_succ {v : Json}
    (h : ∀ (room n depth : Nat) (rest : List Char), EndsNumber rest → v.depth ≤ room →
      2 * (chars depth v).length ≤ n →
        value room (n + 1) (chars depth v ++ rest) = some (v, rest)) :
    ReadsBack v := by
  rintro room (_ | n) depth rest ends deep fuel
  · omega
  · exact h room n depth rest ends deep (by omega)

/-- The items lie in shorter texts than the list and less deep, so the steps and the levels allowed
for it are enough for them. -/
theorem ReadsBack.arr {items : List Json} (each : ∀ v ∈ items, ReadsBack v) :
    ReadsBack (arr items) := by
  refine .of_succ fun room n depth rest _ deep fuel => ?_
  obtain _ | room := room
  · exact absurd deep (Nat.not_succ_le_zero _)
  have deep := Nat.le_of_succ_le_succ deep
  cases items with
  | nil => simp [chars, Printer.scalar, skipSpace, isSpace]
  | cons v vs =>
    rw [chars_arr_cons] at fuel ⊢
    simp only [List.length_cons, List.length_append] at fuel
    have enough :
        2 * ((chars (depth + 1) v).length + (itemChars (depth + 1) vs).length) + 2 ≤ n := by
      omega
    have first := each v (by simp) room n (depth + 1) _
      (endsNumber_items (depth + 1) depth vs (']' :: rest)) (Nat.max_le.mp deep).1 (by omega)
    have spaced := (value_congr (skipSpace_breakAt (depth + 1) _)).trans first
    simp only [List.cons_append, List.append_assoc, List.nil_append]
    rw [value_openItems spaced, items_congr (skipSpace_breakAt (depth + 1) _),
      items_chars each deep enough]
    rfl

theorem ReadsBack.obj {fields : List (String × Json)} (apart : (fields.map (·.1)).Nodup)
    (each : ∀ f ∈ fields, ReadsBack f.2) : ReadsBack (obj fields) := by
  refine .of_succ fun room n depth rest _ deep fuel => ?_
  obtain _ | room := room
  · exact absurd deep (Nat.not_succ_le_zero _)
  have deep := Nat.le_of_succ_le_succ deep
  cases fields with
  | nil => simp [chars, Printer.scalar, skipSpace, isSpace]
  | cons f fs =>
    obtain ⟨key, v⟩ := f
    rw [chars_obj_cons] at fuel ⊢
    simp only [List.length_cons, List.length_append] at fuel
    have enough :
        2 * ((chars (depth + 1) v).length + (fieldChars (depth + 1) fs).length) + 2 ≤ n := by
      omega
    simp only [List.cons_append, List.append_assoc, List.nil_append]
    rw [value_openFields ((skipSpace_breakAt (depth + 1) _).trans (skipSpace_quoted key _)),
      fields_congr (skipSpace_breakAt (depth + 1) _), fields_chars each deep apart enough]
    rfl

theorem Readable.readsBack {v : Json} (h : v.Readable read?) : ReadsBack v := by
  induction h with
  | null =>
    refine .of_succ fun room n depth rest _ _ _ => ?_
    simp [chars, Printer.scalar, skipSpace, isSpace]
  | bool b =>
    refine .of_succ fun room n depth rest _ _ _ => ?_
    cases b <;> simp [chars, Printer.scalar, skipSpace, isSpace]
  | int low high => exact .of_succ fun room n depth rest ends _ _ => value_int low high ends
  | float finite survives =>
    exact .of_succ fun room n depth rest ends _ _ => survives.value_float finite ends
  | str s => exact .of_succ fun room n depth rest _ _ _ => value_quoted s rest
  | arr _ each => exact .arr each
  | obj apart _ each => exact .obj apart each

/-- The reader that counts its steps gets back what it should. -/
theorem restores_read? : Restores read? := by
  intro v h deep
  have read := h.readsBack (depthLimit - 1) (2 * (chars 0 v).length + 2) 0 [] rfl (by omega)
    (by omega)
  rw [List.append_nil] at read
  have whole : v.pretty.toList = chars 0 v := rfl
  simp only [read?, whole, read]
  rfl

end AgentScript.Json
