/-!
# Positions and locations

A position is a point of a text, a location the range between two points. Positions are
ordered by line, then column, then offset; whether a location contains a position is
decided by offsets alone.
-/
namespace AgentScript

/-- The bound of lines and columns, which are 32-bit numbers. -/
def limit32 : Nat := 0x100000000

/-- The bound of offsets and lengths, which are 64-bit numbers. -/
def limit64 : Nat := 0x10000000000000000

/-- A line and a column counted from one, and the number of characters before the point. All three
are unbounded here, while lines and columns are stored as 32-bit numbers: the positions in a text
of `limit32 - 1` characters or more are outside the model. -/
structure Position where
  line : Nat
  column : Nat
  offset : Nat
deriving DecidableEq, Inhabited

namespace Position

/-- The beginning of every text. -/
def origin : Position := ⟨1, 1, 0⟩

instance : LT Position where
  lt p q := p.line < q.line ∨ (p.line = q.line ∧
    (p.column < q.column ∨ (p.column = q.column ∧ p.offset < q.offset)))

instance : LE Position where
  le p q := ¬ q < p

instance (p q : Position) : Decidable (p < q) :=
  inferInstanceAs (Decidable (p.line < q.line ∨ (p.line = q.line ∧
    (p.column < q.column ∨ (p.column = q.column ∧ p.offset < q.offset)))))

instance (p q : Position) : Decidable (p ≤ q) :=
  inferInstanceAs (Decidable (¬ q < p))

instance : Min Position where
  min p q := if p ≤ q then p else q

instance : Max Position where
  max p q := if p ≤ q then q else p

theorem lt_iff {p q : Position} : p < q ↔ p.line < q.line ∨ (p.line = q.line ∧
    (p.column < q.column ∨ (p.column = q.column ∧ p.offset < q.offset))) := Iff.rfl

theorem le_iff_not_lt {p q : Position} : p ≤ q ↔ ¬ q < p := Iff.rfl

protected theorem lt_irrefl (p : Position) : ¬ p < p := by
  rw [lt_iff]; omega

protected theorem lt_trans {p q r : Position} (h : p < q) (h' : q < r) : p < r := by
  rw [lt_iff] at *; omega

protected theorem le_refl (p : Position) : p ≤ p := Position.lt_irrefl p

protected theorem le_total (p q : Position) : p ≤ q ∨ q ≤ p := by
  simp only [le_iff_not_lt, lt_iff]; omega

protected theorem le_trans {p q r : Position} (h : p ≤ q) (h' : q ≤ r) : p ≤ r := by
  simp only [le_iff_not_lt, lt_iff] at *; omega

theorem min_def (p q : Position) : min p q = if p ≤ q then p else q := rfl

theorem max_def (p q : Position) : max p q = if p ≤ q then q else p := rfl

end Position

/-- The range of a text between two points. -/
structure Location where
  start : Position
  stop : Position
deriving DecidableEq, Inhabited

namespace Location

def point (p : Position) : Location := ⟨p, p⟩

/-- The smallest range, in the order of positions, around both. -/
def cover (a b : Location) : Location := ⟨min a.start b.start, max a.stop b.stop⟩

/-- Both ends belong to a location. -/
def contains (a : Location) (p : Position) : Bool :=
  a.start.offset ≤ p.offset && p.offset ≤ a.stop.offset

/-- One location lies inside another when the other contains both of its ends. -/
def encloses (outer inner : Location) : Bool :=
  outer.contains inner.start && outer.contains inner.stop

theorem contains_iff {a : Location} {p : Position} :
    a.contains p = true ↔ a.start.offset ≤ p.offset ∧ p.offset ≤ a.stop.offset := by
  simp [contains]

end Location

end AgentScript
