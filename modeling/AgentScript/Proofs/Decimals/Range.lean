import AgentScript.Decimal.Reading
import AgentScript.Proofs.Decimals.Rounding

/-!
# The range of decimals

The double of a decimal is finite exactly if the decimal is below the middle between the largest
finite double and the next power of two. Otherwise it is the infinity of the sign.
-/
namespace AgentScript

open Float.Model Float.Model.UnpackedFloat

namespace Rounding

theorem largestBits_mul_pos (n : Nat) : 0 < largestBits * 2 ^ n :=
  Nat.mul_pos (by decide) (Nat.two_pow_pos n)

theorem largestBits_mul_le {n k : Nat} (h : 54 + n ≤ k) : largestBits * 2 ^ n ≤ 2 ^ k :=
  calc largestBits * 2 ^ n ≤ 2 ^ 54 * 2 ^ n := Nat.mul_le_mul_right _ (Nat.sub_le _ _)
    _ = 2 ^ (54 + n) := (Nat.pow_add 2 54 n).symm
    _ ≤ 2 ^ k := Nat.pow_le_pow_right (by decide) h

theorem le_largestBits_mul {n k : Nat} (h : k ≤ n) : 2 ^ k ≤ largestBits * 2 ^ n :=
  (Nat.pow_le_pow_right (by decide) h).trans (Nat.le_mul_of_pos_left _ (by decide))

/-- The middle between the largest finite double and the next power of two. -/
def beyond : Nat := largestBits * 2 ^ 970

theorem beyond_pos : 0 < beyond := largestBits_mul_pos 970

theorem le_beyond {n : Nat} (h : n ≤ 970) : 2 ^ n ≤ beyond := le_largestBits_mul h

theorem beyond_le {n : Nat} (h : 1024 ≤ n) : beyond ≤ 2 ^ n := largestBits_mul_le h

/-- Scaling by a power of two does not change which numbers are in range. -/
theorem scaled_lt_iff (x k : Nat) {n a : Nat} (hn : n = 971 + a) :
    2 * (x * 2 ^ a) < largestBits * 2 ^ n * k ↔ x < beyond * k := by
  obtain ⟨b, hb, hbeyond⟩ : ∃ b, b = 970 ∧ beyond = largestBits * 2 ^ b := ⟨_, rfl, rfl⟩
  obtain rfl : n = b + (a + 1) := by omega
  have hleft : 2 * (x * 2 ^ a) = x * 2 ^ (a + 1) := by ring
  have hright : largestBits * 2 ^ (b + (a + 1)) * k =
      largestBits * 2 ^ b * k * 2 ^ (a + 1) := by
    ring
  rw [hleft, hright, hbeyond, Nat.mul_lt_mul_right (Nat.two_pow_pos _)]

theorem bits_exact (m : Nat) : bits m .exact = 2 * m := by
  simp [bits, bitsOf, ExtendedMantissa.ofMantissaAndAccuracy]

/-- The bits of a quotient with the first one behind them are those of the double of the number. -/
theorem bits_accuracyOfFraction {m k : Nat} (hk : 0 < k) :
    bits (m / k) (accuracyOfFraction (m % k) k) = 2 * m / k := by
  have hmod := Nat.mod_lt m hk
  have hdiv := Nat.div_add_mod m k
  have htwice : 2 * m = k * (2 * (m / k)) + 2 * (m % k) := by
    rw [Nat.mul_left_comm, ← Nat.mul_add, hdiv]
  rw [htwice, Nat.mul_add_div hk]
  generalize m / k = q at *
  unfold accuracyOfFraction
  split_ifs with hzero
  · rw [hzero]
    simp [bits_exact]
  · rcases Nat.lt_trichotomy (2 * (m % k)) k with hlt | heq | hgt
    · rw [Nat.compare_eq_lt.mpr hlt, Nat.div_eq_of_lt hlt]
      rfl
    · rw [Nat.compare_eq_eq.mpr heq, heq, Nat.div_self hk]
      rfl
    · have hone : 2 * (m % k) / k = 1 := Nat.div_eq_of_lt_le (by omega) (by omega)
      rw [Nat.compare_eq_gt.mpr hgt, hone]
      rfl

/-- A number is shifted before it is divided: the quotient has 53 bits, or it reaches as far down as
any double. -/
theorem divCore_room {m k : Nat} (hm : m ≠ 0) (hk : k ≠ 0) :
    ∃ a : Nat, divCore .binary64 m 0 k 0 =
        ((m <<< a) / k, -(a : Int), accuracyOfFraction ((m <<< a) % k) k) ∧
      (2 ^ 52 ≤ (m <<< a) / k ∨ -(a : Int) ≤ -1074) := by
  have htarget : Format.binary64.targetExponent (totalExponent m 0 - totalExponent k 0) =
      max ((m.log2 : Int) - k.log2 - 53) (-1074) := by
    unfold Format.targetExponent totalExponent
    rw [show Format.binary64.minExponent = -1074 from rfl,
      show Format.binary64.mantissaBits = 53 from rfl]
    omega
  unfold divCore
  dsimp only
  rw [htarget]
  generalize ht : min (0 - 0 : Int) (max ((m.log2 : Int) - k.log2 - 53) (-1074)) = t
  refine ⟨(0 - 0 - t).toNat, by rw [show -(((0 - 0 - t).toNat : Nat) : Int) = t by omega], ?_⟩
  generalize ha : (0 - 0 - t).toNat = a
  by_cases hsmall : -(a : Int) ≤ -1074
  · exact .inr hsmall
  · left
    have hlog : k.log2 + 53 ≤ m.log2 + a := by omega
    rw [Nat.le_div_iff_mul_le (Nat.pos_of_ne_zero hk), Nat.shiftLeft_eq]
    calc 2 ^ 52 * k ≤ 2 ^ 52 * 2 ^ (k.log2 + 1) := Nat.mul_le_mul_left _ Nat.lt_log2_self.le
      _ = 2 ^ (k.log2 + 53) := by rw [← Nat.pow_add]; congr 1; omega
      _ ≤ 2 ^ (m.log2 + a) := Nat.pow_le_pow_right (by decide) hlog
      _ = 2 ^ m.log2 * 2 ^ a := Nat.pow_add ..
      _ ≤ m * 2 ^ a := Nat.mul_le_mul_right _ (Nat.log2_self_le hm)

/-- A product of which enough bits are known. -/
theorem inRange_mul_iff {m k : Nat} (hm : 0 < m <<< 53) (hk : 0 < k) :
    InRange (UnpackedFloat.mul .binary64 (.finite .positive (m <<< 53) (-53) hm)
      (.finite .positive k 0 hk)) ↔ m * k < beyond := by
  have hlarge : 2 ^ 52 ≤ m * k * 2 ^ 53 := by
    rw [Nat.shiftLeft_eq] at hm
    have hpos := Nat.mul_pos (Nat.pos_of_mul_pos_right hm) hk
    omega
  obtain ⟨n, hn⟩ : ∃ n, n = 971 + 53 := ⟨_, rfl⟩
  have hround := inRange_roundWithAccuracy_iff (Sign.positive * .positive) (n := n) (e := -53 + 0)
    (by omega) .exact (.inl hlarge)
  have hscaled := scaled_lt_iff (m * k) 1 hn
  rw [Nat.mul_one, Nat.mul_one] at hscaled
  rw [bits_exact] at hround
  unfold UnpackedFloat.mul
  dsimp only
  rw [Nat.shiftLeft_eq, Nat.mul_right_comm]
  exact hround.trans hscaled

theorem inRange_div_iff {m k : Nat} (hm : 0 < m) (hk : 0 < k) :
    InRange (UnpackedFloat.div .binary64 (.finite .positive m 0 hm) (.finite .positive k 0 hk)) ↔
      m < beyond * k := by
  obtain ⟨a, hcore, hroom⟩ := divCore_room hm.ne' hk.ne'
  have hround := inRange_roundWithAccuracy_iff (Sign.positive / .positive) (n := 971 + a)
    (e := -(a : Int)) (by omega) (accuracyOfFraction ((m <<< a) % k) k) hroom
  rw [bits_accuracyOfFraction hk, Nat.div_lt_iff_lt_mul hk, Nat.shiftLeft_eq] at hround
  unfold UnpackedFloat.div
  dsimp only
  rw [hcore, Nat.shiftLeft_eq]
  exact hround.trans (scaled_lt_iff m k rfl)

/-- A rounded number is in range, or it is packed into an infinite double. -/
theorem inRange_or_infinite (s : Sign) (m : Nat) (e : Int) (acc : Accuracy) :
    InRange (roundWithAccuracy .binary64 s m e acc) ∨
      pack (roundWithAccuracy .binary64 s m e acc) = pack (.infinity s) := by
  unfold roundWithAccuracy
  dsimp only
  split_ifs
  · exact .inl (.zero s)
  · generalize (shiftToTargetExponent .binary64 _ _ .exact).2 = x
    exact (le_or_gt x 971).imp .finite pack_of_large

theorem ofScientific_inRange_or_infinite (m : Nat) (e : Int) :
    InRange (UnpackedFloat.ofScientific .binary64 m e) ∨
      pack (UnpackedFloat.ofScientific .binary64 m e) = pack (.infinity .positive) := by
  unfold UnpackedFloat.ofScientific
  split_ifs
  · exact .inl (.zero _)
  · exact .inr rfl
  · exact .inl (.zero _)
  · exact inRange_or_infinite (.positive * .positive) _ _ _
  · exact inRange_or_infinite (.positive / .positive) _ _ _

theorem inRange_ofScientific_iff (m : Nat) (e : Int) :
    InRange (UnpackedFloat.ofScientific .binary64 m e) ↔
      m * 10 ^ e.toNat < beyond * 10 ^ (-e).toNat := by
  have htens (k : Nat) : 2 ^ k ≤ 10 ^ k := Nat.pow_le_pow_left (by decide) k
  have hten (k : Nat) : 0 < 10 ^ k := Nat.pow_pos (by decide)
  unfold UnpackedFloat.ofScientific
  split_ifs with hm hlarge hsmall he
  · exact iff_of_true (.zero _) (by rw [hm, Nat.zero_mul]; exact Nat.mul_pos beyond_pos (hten _))
  · have hlarge : 2048 < e := hlarge
    refine iff_of_false nofun ?_
    rw [show (-e).toNat = 0 by omega, Nat.pow_zero, Nat.mul_one, Nat.not_lt]
    calc beyond ≤ 2 ^ e.toNat := beyond_le (by omega)
      _ ≤ 10 ^ e.toNat := htens _
      _ ≤ m * 10 ^ e.toNat := Nat.le_mul_of_pos_left _ (Nat.pos_of_ne_zero hm)
  · have hsmall : e < -(2048 + (m.log2 : Int)) := hsmall
    refine iff_of_true (.zero _) ?_
    rw [show e.toNat = 0 by omega, Nat.pow_zero, Nat.mul_one]
    calc m < 2 ^ (m.log2 + 1) := Nat.lt_log2_self
      _ ≤ 2 ^ (-e).toNat := Nat.pow_le_pow_right (by decide) (by omega)
      _ ≤ 10 ^ (-e).toNat := htens _
      _ ≤ beyond * 10 ^ (-e).toNat := Nat.le_mul_of_pos_left _ beyond_pos
  · rw [show (-e).toNat = 0 by omega, Nat.pow_zero, Nat.mul_one]
    exact inRange_mul_iff _ _
  · rw [show e.toNat = 0 by omega, Nat.pow_zero, Nat.mul_one]
    exact inRange_div_iff _ _

theorem InRange.isFinite {u : UnpackedFloat} (h : InRange u) : u.isFinite = true := by
  cases h <;> rfl

theorem inRange_unpack_iff (x : Float.Model) : InRange x.unpack ↔ x.isFinite = true := by
  have hlargest {y : BitVec 11} (h : ¬ y = -1#11) : y.toNat ≤ 2046 := by
    have hne : y.toNat ≠ 2047 := fun heq => h (BitVec.eq_of_toNat_eq heq)
    omega
  refine ⟨InRange.isFinite, ?_⟩
  unfold Float.Model.isFinite Float.Model.unpack UnpackedFloat.unpack
  dsimp only
  have hbias : Format.binary64.exponentBias = 1023 := rfl
  rw [hbias]
  split_ifs with hinfinite hnan hzero hmantissa
  · exact nofun
  · exact nofun
  · exact fun _ => .zero _
  · exact fun _ => .finite (by rw [hzero]; decide)
  · have hle := hlargest hinfinite
    exact fun _ => .finite (by push_cast; omega)

theorem inRange_neg_iff (u : UnpackedFloat) : InRange u.neg ↔ InRange u := by
  cases u with
  | notANumber => exact Iff.rfl
  | infinity s => exact iff_of_false nofun nofun
  | zero s => exact iff_of_true (.zero _) (.zero _)
  | finite s m e pos => exact inRange_finite_iff.trans inRange_finite_iff.symm

/-- A number of at most 53 bits that is not large. -/
inductive Small (n : Int) : UnpackedFloat → Prop
  | zero (s : Sign) : Small n (.zero s)
  | finite {s : Sign} {m : Nat} {e : Int} {pos : 0 < m} (short : m < 2 ^ 53) (low : e ≤ n) :
      Small n (.finite s m e pos)

/-- A finite double has 53 bits, and its exponent is that of the number that it is made of. -/
theorem small_unpack_pack {s : Sign} {m : Nat} {e n : Int} {pos : 0 < m} (he : e ≤ 971) (hn : e ≤ n)
    (hleast : -1074 ≤ n) : Small n (pack (.finite s m e pos)).unpack := by
  have hpacked {x : BitVec 11} (y : BitVec 52) (hx : x.toNat ≤ 2046)
    (hlow : (x.toNat : Int) - 1075 ≤ n) :
      Small n (UnpackedFloat.unpack .binary64 (packComponents .binary64 s x y)) := by
    unfold UnpackedFloat.unpack
    simp only [unpackExponent_packComponents, unpackMantissa_packComponents]
    have hbias : Format.binary64.exponentBias = 1023 := rfl
    rw [hbias]
    rw [if_neg fun h => by rw [h] at hx; exact absurd hx (by decide)]
    split_ifs with hzero hmantissa
    · exact .zero _
    · exact .finite (y.isLt.trans (by decide)) (by rw [hzero]; simp; omega)
    · exact .finite (BitVec.isLt _) (by push_cast; omega)
  unfold Float.Model.unpack Float.Model.pack UnpackedFloat.pack
  dsimp only
  have hbias : e + (Format.binary64.exponentBias : Int) + (52 : Nat) = e + 1075 := by
    rw [show Format.binary64.exponentBias = 1023 from rfl]
    omega
  rw [hbias]
  have hsmall : ¬ 2048 ≤ (e + 1075).toNat + 1 := by omega
  rw [if_neg hsmall]
  split_ifs
  · have hbits : (BitVec.ofNat 11 (e + 1075).toNat).toNat = (e + 1075).toNat :=
      Nat.mod_eq_of_lt (by omega)
    exact hpacked _ (by omega) (by omega)
  · exact hpacked _ (by decide) (by simpa using by omega)

theorem log2_le_of_lt {m k : Nat} (h : m < 2 ^ (k + 1)) : m.log2 ≤ k := by
  rcases Nat.eq_zero_or_pos m with rfl | hpos
  · exact Nat.zero_le k
  · exact Nat.lt_succ_iff.mp ((Nat.log2_lt hpos.ne').mpr h)

theorem small_unpack_roundWithAccuracy (s : Sign) {m : Nat} {e n : Int} (acc : Accuracy)
    (he : e ≤ n)
    (hm : m.log2 + e ≤ n + 52) (hleast : -1074 ≤ n) (hn : n < 971) :
    Small (n + 1) (pack (roundWithAccuracy .binary64 s m e acc)).unpack := by
  have hdropped := dropped_eq m e
  rw [roundWithAccuracy_eq]
  split_ifs
  · cases s <;> exact .zero _
  · exact small_unpack_pack (by omega) (by omega) (by omega)
  · exact small_unpack_pack (by omega) (by omega) (by omega)

/-- A whole number of at most 53 bits. -/
theorem small_toFloat {m : Nat} (hm : m < 2 ^ 53) : Small 1 m.toUInt64.toFloat.toModel.unpack := by
  have hround :
      Small 1 (pack (UnpackedFloat.normalize .binary64 (m : Int) 0 .positive)).unpack := by
    rcases Nat.eq_zero_or_pos m with rfl | hpos
    · exact .zero .positive
    · unfold UnpackedFloat.normalize UnpackedFloat.round decreaseExponent
      rw [Int.compare_eq_gt.mpr (by omega)]
      dsimp only
      generalize (0 - Format.binary64.targetExponent (totalExponent (m : Int).toNat 0)).toNat = a
      refine small_unpack_roundWithAccuracy (n := 0) _ _ (by omega) ?_ (by decide) (by decide)
      have hlog : ((m : Int).toNat <<< a).log2 ≤ 52 + a := by
        refine log2_le_of_lt ?_
        rw [Nat.shiftLeft_eq, Int.toNat_natCast, Nat.add_right_comm, Nat.pow_add]
        exact Nat.mul_lt_mul_of_pos_right hm (Nat.two_pow_pos a)
      omega
  have hsame : m.toUInt64.toNat = m := Nat.mod_eq_of_lt (by omega)
  change Small 1 (pack (UnpackedFloat.normalize .binary64 (m.toUInt64.toNat : Int)
    0 .positive)).unpack
  rwa [hsame]

/-- A positive number of 53 bits, neither small nor large. -/
def isModerate : UnpackedFloat → Bool
  | .finite .positive m e _ => 2 ^ 52 ≤ m && m < 2 ^ 53 && -52 ≤ e && e ≤ 21
  | _ => false

theorem isModerate_powerOfTen {k : Nat} (hk : k < Float.exactlyRepresentablePowersOfTen.size) :
    isModerate Float.exactlyRepresentablePowersOfTen[k].toModel.unpack = true := by
  have hall : Float.exactlyRepresentablePowersOfTen.all (isModerate ·.toModel.unpack) = true := by
    decide +kernel
  exact Array.all_eq_true.mp hall k hk

variable {u v : UnpackedFloat}

theorem inRange_mul_of_small (hu : Small 1 u) (hv : isModerate v = true) :
    InRange (UnpackedFloat.mul .binary64 u v) := by
  unfold isModerate at hv
  split at hv
  · next m e pos =>
    simp only [Bool.and_eq_true, decide_eq_true_eq] at hv
    obtain ⟨⟨⟨-, hm⟩, -⟩, he⟩ := hv
    cases hu with
    | zero s => exact .zero _
    | @finite _ k _ _ short low =>
      refine inRange_roundWithAccuracy_of_small _ _ (by omega) ?_
      have hlog : (k * m).log2 ≤ 105 := by
        refine log2_le_of_lt ?_
        calc k * m < 2 ^ 53 * 2 ^ 53 := Nat.mul_lt_mul'' short hm
          _ = 2 ^ (105 + 1) := by rfl
      omega
  · cases hv

theorem inRange_div_of_small (hu : Small 1 u) (hv : isModerate v = true) :
    InRange (UnpackedFloat.div .binary64 u v) := by
  unfold isModerate at hv
  split at hv
  · next m e pos =>
    simp only [Bool.and_eq_true, decide_eq_true_eq] at hv
    obtain ⟨⟨⟨hm, -⟩, he⟩, -⟩ := hv
    cases hu with
    | zero s => exact .zero _
    | @finite _ k x _ short low =>
      unfold UnpackedFloat.div divCore
      dsimp only
      generalize ht : min (x - e) _ = t
      have hle : t ≤ x - e := ht ▸ Int.min_le_left _ _
      generalize ha : (x - e - t).toNat = a
      refine inRange_roundWithAccuracy_of_small _ _ (by omega) ?_
      have hlog : ((k <<< a) / m).log2 ≤ a := by
        refine log2_le_of_lt (Nat.div_lt_of_lt_mul ?_)
        rw [Nat.shiftLeft_eq]
        calc k * 2 ^ a < 2 ^ 53 * 2 ^ a := Nat.mul_lt_mul_of_pos_right short (Nat.two_pow_pos a)
          _ = 2 ^ 52 * 2 ^ (a + 1) := by ring
          _ ≤ m * 2 ^ (a + 1) := Nat.mul_le_mul_right _ hm
      omega
  · cases hv

end Rounding

open Rounding

namespace Decimal

/-- Few digits and a small exponent stay far below the range. -/
theorem lt_beyond_of_short {d : Decimal} (hdigits : d.digits < 2 ^ 53)
    (he : d.exponent.natAbs ≤ 22) :
    d.digits * 10 ^ d.exponent.toNat < beyond * 10 ^ (-d.exponent).toNat := by
  have hpower : 10 ^ d.exponent.toNat ≤ 2 ^ 88 :=
    (Nat.pow_le_pow_right (by decide) (by omega : d.exponent.toNat ≤ 22)).trans (by decide)
  calc d.digits * 10 ^ d.exponent.toNat < 2 ^ 53 * 2 ^ 88 :=
        Nat.mul_lt_mul_of_lt_of_le hdigits hpower (Nat.two_pow_pos _)
    _ = 2 ^ 141 := by rfl
    _ ≤ beyond := le_beyond (by decide)
    _ ≤ beyond * 10 ^ (-d.exponent).toNat := Nat.le_mul_of_pos_right _ (Nat.pow_pos (by decide))

/-- A decimal is short, so that its double is finite, or it is rounded. -/
theorem magnitude_cases (d : Decimal) :
    (d.digits < 2 ^ 53 ∧ d.exponent.natAbs ≤ 22) ∧ d.magnitude.isFinite = true ∨
      d.magnitude = .ofModel (.ofScientific d.digits d.exponent) := by
  unfold magnitude Float.ofScientific
  split_ifs with h hs hs
  · have hmoderate := isModerate_powerOfTen (Nat.lt_succ_of_le h.2)
    have hrange := inRange_div_of_small (small_toFloat h.1) hmoderate
    exact .inl ⟨h, (isFinite_pack _).mpr hrange⟩
  · have hmoderate := isModerate_powerOfTen (Nat.lt_succ_of_le h.2)
    have hrange := inRange_mul_of_small (small_toFloat h.1) hmoderate
    exact .inl ⟨h, (isFinite_pack _).mpr hrange⟩
  · have he : Int.negOfNat d.exponent.natAbs = d.exponent := by
      have hnegative : d.exponent < 0 := of_decide_eq_true hs
      rw [Int.negOfNat_eq, Int.ofNat_eq_natCast]
      omega
    exact .inr (by rw [he])
  · have he : Int.ofNat d.exponent.natAbs = d.exponent := by
      have hnegative : ¬ d.exponent < 0 := fun h => hs (decide_eq_true h)
      rw [Int.ofNat_eq_natCast]
      omega
    exact .inr (by rw [he])

theorem isFinite_magnitude (d : Decimal) : d.magnitude.isFinite = true ↔
    d.digits * 10 ^ d.exponent.toNat < beyond * 10 ^ (-d.exponent).toNat := by
  rcases d.magnitude_cases with ⟨⟨hdigits, he⟩, hfinite⟩ | heq
  · exact iff_of_true hfinite (lt_beyond_of_short hdigits he)
  · rw [heq]
    exact (isFinite_pack _).trans (inRange_ofScientific_iff _ _)

/-- A decimal that is not finite as a double is infinite. -/
theorem magnitude_of_infinite {d : Decimal} (h : ¬ d.magnitude.isFinite = true) :
    d.magnitude = 1 / 0 := by
  have hinfinite : (1 / 0 : Float) = .ofModel (pack (.infinity .positive)) := by decide +kernel
  rcases d.magnitude_cases with ⟨-, hfinite⟩ | heq
  · exact absurd hfinite h
  · rw [heq] at h ⊢
    rw [hinfinite]
    refine congrArg Float.ofModel ?_
    exact (ofScientific_inRange_or_infinite _ _).resolve_left fun hrange =>
      h ((isFinite_pack _).mpr hrange)

/-- The size of a decimal. -/
def size (d : Decimal) : ℚ := d.digits * 10 ^ d.exponent

theorem size_lt_iff (d : Decimal) : d.size < 2 ^ 1024 - 2 ^ 970 ↔
    d.digits * 10 ^ d.exponent.toNat < beyond * 10 ^ (-d.exponent).toNat := by
  have hbeyond : (2 ^ 1024 - 2 ^ 970 : ℚ) = beyond := by
    obtain ⟨n, hn, h⟩ : ∃ n, n = 970 ∧ beyond = largestBits * 2 ^ n := ⟨_, rfl, rfl⟩
    rw [h, show largestBits = 2 ^ 54 - 1 from rfl, ← hn, show 1024 = 54 + n by omega]
    push_cast
    ring
  have hpower : (10 : ℚ) ^ d.exponent = 10 ^ d.exponent.toNat / 10 ^ (-d.exponent).toNat := by
    rw [eq_div_iff (by positivity), ← zpow_natCast, ← zpow_natCast, ← zpow_add₀ (by norm_num)]
    congr 1
    omega
  rw [hbeyond, size, hpower, mul_div_assoc', div_lt_iff₀ (by positivity)]
  exact_mod_cast Iff.rfl

theorem isFinite_toFloat_eq (d : Decimal) : d.toFloat.isFinite = d.magnitude.isFinite := by
  unfold toFloat
  split_ifs
  · rw [Bool.eq_iff_iff]
    exact (isFinite_pack _).trans ((inRange_neg_iff _).trans (inRange_unpack_iff _))
  · rfl

/-- The double of a decimal is finite exactly if the decimal is below the middle between the largest
finite double and the next power of two. -/
theorem isFinite_toFloat_iff (d : Decimal) :
    d.toFloat.isFinite = true ↔ d.size < 2 ^ 1024 - 2 ^ 970 := by
  rw [isFinite_toFloat_eq, isFinite_magnitude, size_lt_iff]

/-- Otherwise it is the infinity of the sign. -/
theorem toFloat_of_infinite {d : Decimal} (h : ¬ d.toFloat.isFinite = true) :
    d.toFloat = (NumberText.infinity d.negative).toFloat := by
  rw [isFinite_toFloat_eq] at h
  unfold toFloat
  rw [magnitude_of_infinite h]
  cases d.negative with
  | false => rfl
  | true => decide +kernel

end Decimal

end AgentScript
