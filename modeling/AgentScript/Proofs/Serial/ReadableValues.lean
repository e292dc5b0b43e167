import AgentScript.Proofs.Serial.Readers
import AgentScript.Proofs.Serial.Values

/-!
# Values in texts

The numbers in the encoding of a value are those of positions and the doubles in it, and the
fields of every record have different names. So a reader can lose nothing of it as soon as its
positions fit and its finite numbers survive; the others are written as null.
-/
namespace AgentScript

open Json

variable {read : String → Option Json}

theorem Json.readable_nat {n : Nat} (h : n < limit64) : (nat n).Readable read :=
  .int (by omega) (by have : limit64 = Reader.unsignedLimit := rfl; omega)

theorem Position.readable_toJson {p : Position} (h : p.Fits) : p.toJson.Readable read := by
  have wide : limit32 ≤ limit64 := by decide
  obtain ⟨line, column, offset⟩ := h
  refine .obj (by simp) ?_
  simp only [List.forall_mem_cons]
  exact ⟨readable_nat (by omega), readable_nat (by omega), readable_nat offset, by simp⟩

theorem Location.readable_toJson {l : Location} (h : l.Fits) : l.toJson.Readable read := by
  refine .obj (by simp) ?_
  simp only [List.forall_mem_cons]
  exact ⟨Position.readable_toJson h.start, Position.readable_toJson h.stop, by simp⟩

theorem readable_locationField {l : Option Location} (h : ∀ k ∈ l, k.Fits) :
    ∀ v ∈ (locationField l).2, v.Readable read :=
  readable_map fun k mem => Location.readable_toJson (h k mem)

theorem TypeTag.readable_fields {t : TypeTag} (h : t.node.Fits) :
    ∀ f ∈ t.fields, ∀ v ∈ f.2, v.Readable read := by
  simp only [fields, List.forall_mem_cons]
  exact ⟨readable_nullable fun s _ => .str s, readable_some (.str _), readable_text _,
    readable_locationField (Node.fits_mk.mp h).1, by simp⟩

theorem TypeTag.readable_toJson {t : TypeTag} (h : t.node.Fits) : t.toJson.Readable read :=
  readable_record (by simp [fields, locationField]) (TypeTag.readable_fields h)

theorem Language.readable_toJson (l : Language) : l.toJson.Readable read := by
  cases l <;> exact .str _

theorem Chomping.readable_toJson (c : Chomping) : c.toJson.Readable read := by
  cases c <;> exact .str _

mutual

theorem Value.readable_toJson : ∀ {v : Value}, v.node.Fits →
    (∀ x ∈ v.numbers, Survives read x) → v.toJson.Readable read
  | .string text isMultiline chomping l, h, _ => by
    refine readable_tagged (by simp [locationField]) ?_
    simp only [List.forall_mem_cons]
    exact ⟨readable_some (.str _), readable_some (.bool _),
      readable_map fun c _ => c.readable_toJson, readable_locationField (Node.fits_mk.mp h).1,
      by simp⟩
  | .number x l, h, survive => by
    refine readable_tagged (by simp [locationField]) ?_
    simp only [List.forall_mem_cons]
    exact ⟨readable_some (readable_ofFloat (survive x (by simp [numbers]))),
      readable_locationField (Node.fits_mk.mp h).1, by simp⟩
  | .boolean b l, h, _ => by
    refine readable_tagged (by simp [locationField]) ?_
    simp only [List.forall_mem_cons]
    exact ⟨readable_some (.bool _), readable_locationField (Node.fits_mk.mp h).1, by simp⟩
  | .null l, h, _ => by
    refine readable_tagged (by simp [locationField]) ?_
    simp only [List.forall_mem_cons]
    exact ⟨readable_locationField (Node.fits_mk.mp h).1, by simp⟩
  | .identifier name isSpaceSeparated l, h, _ => by
    refine readable_tagged (by simp [locationField]) ?_
    simp only [List.forall_mem_cons]
    exact ⟨readable_some (.str _), readable_some (.bool _),
      readable_locationField (Node.fits_mk.mp h).1, by simp⟩
  | .atom name l, h, _ => by
    refine readable_tagged (by simp [locationField]) ?_
    simp only [List.forall_mem_cons]
    exact ⟨readable_some (.str _), readable_locationField (Node.fits_mk.mp h).1, by simp⟩
  | .typeTag t, h, _ =>
    readable_tagged (by simp [TypeTag.fields, locationField]) (TypeTag.readable_fields h)
  | .list items isInline l, h, survive => by
    obtain ⟨here, below⟩ := Node.fits_mk.mp h
    refine readable_tagged (by simp [locationField]) ?_
    simp only [List.forall_mem_cons]
    exact ⟨readable_some (.arr (Value.readable_items (below _ (by simp)) survive)),
      readable_some (.bool _), readable_locationField here, by simp⟩
  | .dictionary entries isInline l, h, survive => by
    obtain ⟨here, below⟩ := Node.fits_mk.mp h
    refine readable_tagged (by simp [locationField]) ?_
    simp only [List.forall_mem_cons]
    exact ⟨readable_some (.arr (Value.readable_entries (below _ (by simp)) survive)),
      readable_some (.bool _), readable_locationField here, by simp⟩
  | .expression language code l, h, _ => by
    refine readable_tagged (by simp [locationField]) ?_
    simp only [List.forall_mem_cons]
    exact ⟨readable_some language.readable_toJson, readable_some (.str _),
      readable_locationField (Node.fits_mk.mp h).1, by simp⟩
  | .codeBlock language lines l, h, _ => by
    refine readable_tagged (by simp [locationField]) ?_
    simp only [List.forall_mem_cons]
    exact ⟨readable_some language.readable_toJson, readable_list fun s _ => .str s,
      readable_locationField (Node.fits_mk.mp h).1, by simp⟩

theorem Value.readable_items : ∀ {vs : List Value}, (∀ n ∈ Value.nodes vs, n.Fits) →
    (∀ x ∈ Value.numbersOfItems vs, Survives read x) →
      ∀ j ∈ Value.listToJson vs, j.Readable read
  | [], _, _ => by simp [listToJson]
  | v :: vs, h, survive => by
    simp only [nodes, numbersOfItems, List.forall_mem_cons, List.forall_mem_append] at h survive
    simp only [listToJson, List.forall_mem_cons]
    exact ⟨Value.readable_toJson h.1 survive.1, Value.readable_items h.2 survive.2⟩

theorem Value.readable_entries : ∀ {es : List (Keyed Value)}, (∀ n ∈ Value.entryNodes es, n.Fits) →
    (∀ x ∈ Value.numbersOfEntries es, Survives read x) →
      ∀ j ∈ Value.entriesToJson es, j.Readable read
  | [], _, _ => by simp [entriesToJson]
  | ⟨key, v, l⟩ :: es, h, survive => by
    simp only [entryNodes, entryNode, numbersOfEntries, List.forall_mem_cons,
      List.forall_mem_append, Node.fits_mk] at h survive
    obtain ⟨⟨here, ⟨value, -⟩, -⟩, rest⟩ := h
    simp only [entriesToJson, List.forall_mem_cons]
    refine ⟨readable_record (by simp [locationField]) ?_, Value.readable_entries rest survive.2⟩
    simp only [List.forall_mem_cons]
    exact ⟨readable_some (.str _), readable_some (Value.readable_toJson value survive.1),
      readable_locationField here, by simp⟩

end

theorem Attribute.readable_toJson {e : Keyed Value} (h : e.node.Fits)
    (survive : ∀ x ∈ e.numbers, Survives read x) : (Attribute.toJson e).Readable read := by
  obtain ⟨here, value⟩ := Keyed.fits_node.mp h
  refine readable_record (by simp [locationField]) ?_
  simp only [List.forall_mem_cons]
  exact ⟨readable_some (.str _), readable_some (Value.readable_toJson value survive),
    readable_locationField here, by simp⟩

end AgentScript
