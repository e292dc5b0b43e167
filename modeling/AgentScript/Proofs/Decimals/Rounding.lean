import Mathlib

/-!
# Rounding to a double

A number is rounded to a double by dropping the bits for which there is no room; the first of these
and whether there is any other decide how. The double is finite if the exponent that is left is not
too large. That is so exactly if the number is nearer to the largest finite double than to the next
power of two, to which it is rounded otherwise.
-/
namespace AgentScript.Rounding

open Float.Model Float.Model.UnpackedFloat

/-- A number that is packed into a finite double. -/
inductive InRange : UnpackedFloat → Prop
  | zero (s : Sign) : InRange (.zero s)
  | finite {s : Sign} {m : Nat} {e : Int} {pos : 0 < m} (small : e ≤ 971) :
    InRange (.finite s m e pos)

theorem inRange_finite_iff {s : Sign} {m : Nat} {e : Int} {pos : 0 < m} :
    InRange (.finite s m e pos) ↔ e ≤ 971 :=
  ⟨fun h => by cases h; assumption, .finite⟩

theorem isFinite_unpack_packComponents {spec : Format} (s : Sign) (e : BitVec spec.exponentBits)
    (m : BitVec spec.mantissaBitsWithoutImplicit) :
    (UnpackedFloat.unpack spec (packComponents spec s e m)).isFinite = decide (e ≠ -1#_) := by
  unfold UnpackedFloat.unpack
  simp only [unpackExponent_packComponents, unpackMantissa_packComponents]
  by_cases he : e = -1#_
  · rw [if_pos he, decide_eq_false (not_not_intro he)]
    split_ifs <;> rfl
  · rw [if_neg he, decide_eq_true he]
    split_ifs <;> rfl

/-- A double is finite if the number that it is made of is in range. -/
theorem isFinite_pack (u : UnpackedFloat) : (pack u).isFinite = true ↔ InRange u := by
  have hpacked (s : Sign) (e : BitVec 11) (m : BitVec 52) :
      (UnpackedFloat.unpack .binary64 (packComponents .binary64 s e m)).isFinite = true ↔
        e ≠ -1#_ := by
    rw [isFinite_unpack_packComponents, decide_eq_true_iff]
  unfold Float.Model.isFinite Float.Model.unpack Float.Model.pack
  cases u with
  | notANumber => exact ⟨fun h => absurd rfl ((hpacked _ _ _).mp h), nofun⟩
  | infinity s => exact ⟨fun h => absurd rfl ((hpacked _ _ _).mp h), nofun⟩
  | zero s => exact ⟨fun _ => .zero s, fun _ => (hpacked _ _ _).mpr (by decide)⟩
  | finite s m e pos =>
    rw [inRange_finite_iff]
    unfold UnpackedFloat.pack
    dsimp only
    have hbias : e + (Format.binary64.exponentBias : Int) + (52 : Nat) = e + 1075 := by
      rw [show Format.binary64.exponentBias = 1023 from rfl]
      omega
    rw [hbias]
    split_ifs with hlarge hnormal
    · refine ⟨fun h => absurd rfl ((hpacked _ _ _).mp h), fun h => ?_⟩
      have hlarge : 2048 ≤ (e + 1075).toNat + 1 := hlarge
      omega
    · have hsmall : (e + 1075).toNat + 1 < 2048 := Nat.lt_of_not_le hlarge
      refine ⟨fun _ => by omega, fun _ => (hpacked _ _ _).mpr fun h => ?_⟩
      have hbits : (e + 1075).toNat % 2 ^ 11 = 2 ^ 11 - 1 := congrArg BitVec.toNat h
      omega
    · have hsmall : (e + 1075).toNat + 1 < 2048 := Nat.lt_of_not_le hlarge
      exact ⟨fun _ => by omega, fun _ => (hpacked _ _ _).mpr (by decide)⟩

/-- What is too large for a finite double is packed into an infinite one. -/
theorem pack_of_large {s : Sign} {m : Nat} {e : Int} {pos : 0 < m} (h : 971 < e) :
    pack (.finite s m e pos) = pack (.infinity s) := by
  have hlarge : 2 ^ 11 ≤ (e + (1023 : Nat) + (52 : Nat)).toNat + 1 := by omega
  unfold Float.Model.pack UnpackedFloat.pack
  congr 2
  exact if_pos hlarge

/-- The bits of a mantissa with the first one behind them. -/
def bitsOf (em : ExtendedMantissa) : Nat := 2 * em.mantissa + em.roundBit.toNat

theorem mantissa_eq_bitsOf (em : ExtendedMantissa) : em.mantissa = bitsOf em / 2 := by
  cases h : em.roundBit
  · simp [bitsOf, h]
  · simp [bitsOf, h]
    omega

theorem bitsOf_shiftRight (em : ExtendedMantissa) (n : Nat) :
    bitsOf (em >>> n) = bitsOf em / 2 ^ n := by
  change bitsOf (n.repeat ExtendedMantissa.shiftRightOne em) = _
  induction n with
  | zero => simp [Nat.repeat]
  | succ n ih =>
    have hone (em : ExtendedMantissa) : bitsOf em.shiftRightOne = bitsOf em / 2 := by
      rw [← mantissa_eq_bitsOf]
      rcases Nat.mod_two_eq_zero_or_one em.mantissa with h | h <;>
        simp [bitsOf, ExtendedMantissa.shiftRightOne, h] <;> omega
    rw [Nat.repeat, hone, ih, Nat.div_div_eq_div_mul, Nat.pow_succ]

/-- Rounding goes up only if the first bit that is dropped is set, and always if the mantissa is odd
besides. -/
theorem roundedMantissa_bounds (em : ExtendedMantissa) :
    em.mantissa ≤ em.roundedMantissa ∧ em.roundedMantissa ≤ (bitsOf em + 1) / 2 ∧
      (bitsOf em % 4 = 3 → em.roundedMantissa = em.mantissa + 1) := by
  obtain ⟨m, r, s⟩ := em
  cases r <;> cases s <;>
    simp [bitsOf, ExtendedMantissa.roundedMantissa, ExtendedMantissa.accuracy,
      Accuracy.roundToNearestEven] <;> omega

/-- The bits of a number before it is rounded. -/
def bits (m : Nat) (acc : Accuracy) : Nat := bitsOf (.ofMantissaAndAccuracy m acc)

theorem bits_div_two (m : Nat) (acc : Accuracy) : bits m acc / 2 = m := by
  rw [bits, ← mantissa_eq_bitsOf]
  cases acc with
  | exact => rfl
  | inexact o => cases o <;> rfl

/-- The number of bits for which there is no room. -/
def dropped (m : Nat) (e : Int) : Nat :=
  (Format.binary64.targetExponent (totalExponent m e) - e).toNat

theorem dropped_eq (m : Nat) (e : Int) :
    (dropped m e : Int) = max ((m.log2 : Int) - 52) (max (-1074 - e) 0) := by
  unfold dropped Format.targetExponent totalExponent
  rw [show Format.binary64.minExponent = -1074 from rfl,
    show Format.binary64.mantissaBits = 53 from rfl]
  omega

/-- What is left of a mantissa, rounded. -/
def rounded (m : Nat) (e : Int) (acc : Accuracy) : Nat :=
  (ExtendedMantissa.ofMantissaAndAccuracy m acc >>> dropped m e).roundedMantissa

theorem rounded_bounds (m : Nat) (e : Int) (acc : Accuracy) :
    m / 2 ^ dropped m e ≤ rounded m e acc ∧
      rounded m e acc ≤ (bits m acc / 2 ^ dropped m e + 1) / 2 ∧
      (bits m acc / 2 ^ dropped m e % 4 = 3 → rounded m e acc = m / 2 ^ dropped m e + 1) := by
  have hbounds := roundedMantissa_bounds
    (ExtendedMantissa.ofMantissaAndAccuracy m acc >>> dropped m e)
  have hmantissa : (ExtendedMantissa.ofMantissaAndAccuracy m acc >>> dropped m e).mantissa =
      m / 2 ^ dropped m e := by
    rw [mantissa_eq_bitsOf, bitsOf_shiftRight, Nat.div_div_eq_div_mul, Nat.mul_comm,
      ← Nat.div_div_eq_div_mul]
    exact congrArg (· / 2 ^ dropped m e) (bits_div_two m acc)
  rwa [bitsOf_shiftRight, hmantissa] at hbounds

/-- There is room for 53 bits, and one more only if rounding carries. -/
theorem rounded_le (m : Nat) (e : Int) (acc : Accuracy) : rounded m e acc ≤ 2 ^ 53 := by
  have hbits : bits m acc < 2 ^ 54 * 2 ^ dropped m e := by
    have hdropped := dropped_eq m e
    have hm : m < 2 ^ (53 + dropped m e) :=
      Nat.lt_log2_self.trans_le (Nat.pow_le_pow_right (by decide) (by omega))
    rw [Nat.pow_add] at hm
    have hdiv := bits_div_two m acc
    omega
  have hupper := (rounded_bounds m e acc).2.1
  have hlt := Nat.div_lt_of_lt_mul (Nat.mul_comm .. ▸ hbits)
  omega

/-- What a shift without rounding leaves of a mantissa. -/
theorem shiftToTargetExponent_exact (m : Nat) (e : Int) :
    (shiftToTargetExponent .binary64 m e .exact).1.mantissa = m / 2 ^ dropped m e ∧
      (shiftToTargetExponent .binary64 m e .exact).2 = e + dropped m e := by
  change (ExtendedMantissa.ofMantissaAndAccuracy m .exact >>> dropped m e).mantissa = _ ∧ _ = _
  refine ⟨?_, rfl⟩
  rw [mantissa_eq_bitsOf, bitsOf_shiftRight, Nat.div_div_eq_div_mul, Nat.mul_comm,
    ← Nat.div_div_eq_div_mul]
  exact congrArg (· / 2 ^ dropped m e) (bits_div_two m .exact)

/-- A rounded number, of which the bit that a carry leaves behind is dropped. -/
theorem roundWithAccuracy_eq (s : Sign) (m : Nat) (e : Int) (acc : Accuracy) :
    roundWithAccuracy .binary64 s m e acc =
      if h : rounded m e acc = 0 then .zero s
      else if rounded m e acc < 2 ^ 53 then
        .finite s (rounded m e acc) (e + dropped m e) (Nat.pos_of_ne_zero h)
      else .finite s (2 ^ 52) (e + dropped m e + 1) (by decide) := by
  have hle := rounded_le m e acc
  have hroom := dropped_eq m e
  obtain ⟨hmantissa, hexponent⟩ := shiftToTargetExponent_exact (rounded m e acc) (e + dropped m e)
  have hagain := dropped_eq (rounded m e acc) (e + dropped m e)
  change (if h :
      (shiftToTargetExponent .binary64 (rounded m e acc) (e + dropped m e) .exact).1.mantissa = 0
    then UnpackedFloat.zero s
    else .finite s _
      (shiftToTargetExponent .binary64 (rounded m e acc) (e + dropped m e) .exact).2
      (Nat.pos_of_ne_zero h)) = _
  simp only [hmantissa, hexponent]
  generalize rounded m e acc = r at *
  rcases Nat.lt_or_eq_of_le hle with hlt | rfl
  · have hnone : dropped r (e + dropped m e) = 0 := by
      have hlog : r ≠ 0 → r.log2 < 53 := fun h => (Nat.log2_lt h).mpr hlt
      by_cases hr : r = 0
      · subst hr
        rw [Nat.log2_zero] at hagain
        omega
      · have := hlog hr
        omega
    simp only [hnone, Nat.pow_zero, Nat.div_one, Int.natCast_zero, Int.add_zero, if_pos hlt]
  · have hone : dropped (2 ^ 53) (e + dropped m e) = 1 := by
      rw [Nat.log2_two_pow] at hagain
      omega
    simp only [hone]
    rfl

/-- The greatest bits, with one behind them, that are not rounded up to a power of two. -/
def largestBits : Nat := 2 ^ 54 - 1

theorem ne_zero_of_log2_pos {m : Nat} (h : 0 < m.log2) : m ≠ 0 := by
  rintro rfl
  exact absurd h (by decide)

/-- Rounding a number for which there is too little room leaves 53 bits or one more. -/
theorem le_rounded {m : Nat} {e : Int} (acc : Accuracy) (hlog : m.log2 = 52 + dropped m e) :
    2 ^ 52 ≤ rounded m e acc := by
  refine le_trans ?_ (rounded_bounds m e acc).1
  rw [Nat.le_div_iff_mul_le (Nat.two_pow_pos _), ← Nat.pow_add, ← hlog]
  exact Nat.log2_self_le (ne_zero_of_log2_pos (by omega))

/-- If the bits that are known reach as far down as those of a double, the rounded number is in
range exactly if the number is below the middle between the largest finite double and the next power
of two. -/
theorem inRange_roundWithAccuracy_iff (s : Sign) {m n : Nat} {e : Int} (he : e + n = 971)
    (acc : Accuracy) (hroom : 2 ^ 52 ≤ m ∨ e ≤ -1074) :
    InRange (roundWithAccuracy .binary64 s m e acc) ↔ bits m acc < largestBits * 2 ^ n := by
  have hdropped := dropped_eq m e
  have hreaches : 52 ≤ m.log2 ∨ e ≤ -1074 :=
    hroom.imp_left fun h => (Nat.le_log2 (by omega)).mpr h
  have hhalf := bits_div_two m acc
  rw [roundWithAccuracy_eq]
  rcases Nat.lt_trichotomy m.log2 (n + 52) with hlog | hlog | hlog
  · have hbits : bits m acc < largestBits * 2 ^ n := by
      have hlt : m < 2 ^ (52 + n) :=
        Nat.lt_log2_self.trans_le (Nat.pow_le_pow_right (by decide) (by omega))
      rw [Nat.pow_add] at hlt
      have hlarge : largestBits = 2 ^ 54 - 1 := rfl
      have hpos := Nat.two_pow_pos n
      rw [hlarge]
      omega
    refine iff_of_true ?_ hbits
    split_ifs
    · exact .zero s
    · exact .finite (by omega)
    · exact .finite (by omega)
  · have hn : dropped m e = n := by omega
    have hbounds := rounded_bounds m e acc
    have hleast := le_rounded acc (by omega : m.log2 = 52 + dropped m e)
    have hle := rounded_le m e acc
    rw [hn] at hbounds
    have hquotient : m / 2 ^ n = bits m acc / 2 ^ n / 2 := by
      rw [Nat.div_div_eq_div_mul, Nat.mul_comm, ← Nat.div_div_eq_div_mul, hhalf]
    rw [hquotient] at hbounds
    rw [← Nat.div_lt_iff_lt_mul (Nat.two_pow_pos n), show largestBits = 2 ^ 54 - 1 from rfl,
      dif_neg (by omega)]
    split_ifs with hcarry
    · exact iff_of_true (.finite (by omega)) (by omega)
    · rw [inRange_finite_iff]
      exact iff_of_false (by omega) (by omega)
  · have hleast := le_rounded acc (by omega : m.log2 = 52 + dropped m e)
    have hbits : ¬ bits m acc < largestBits * 2 ^ n := by
      have hge : 2 ^ (53 + n) ≤ m :=
        (Nat.pow_le_pow_right (by decide) (by omega)).trans
          (Nat.log2_self_le (ne_zero_of_log2_pos (by omega)))
      rw [Nat.pow_add] at hge
      have hlarge : largestBits = 2 ^ 54 - 1 := rfl
      rw [hlarge]
      omega
    refine iff_of_false ?_ hbits
    rw [dif_neg (by omega)]
    split_ifs
    · rw [inRange_finite_iff]
      omega
    · rw [inRange_finite_iff]
      omega

/-- A number of which all bits are far below the range is in range, whatever is dropped. -/
theorem inRange_roundWithAccuracy_of_small (s : Sign) {m : Nat} {e : Int} (acc : Accuracy)
    (he : e ≤ 970) (hm : m.log2 + e ≤ 1022) : InRange (roundWithAccuracy .binary64 s m e acc) := by
  have hdropped := dropped_eq m e
  rw [roundWithAccuracy_eq]
  split_ifs
  · exact .zero s
  · exact .finite (by omega)
  · exact .finite (by omega)

end AgentScript.Rounding
