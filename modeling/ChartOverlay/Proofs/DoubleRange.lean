import ChartOverlay.Arith.Fault
import ChartOverlay.Proofs.DoubleLaws

/-!
# The range of doubles

Rounding ends at infinity where a value is too large: `isFinite_unpack_pack_round` gives the exact bound. A whole
number has no finite double exactly if it is that large (`isFinite_ofInt`), and a finite double scaled down stays
finite (`isFinite_mul`).
-/

namespace ChartOverlay.Double

open Float.Model (Format UnpackedFloat totalExponent)
open Float.Model.UnpackedFloat

/-! ### Finite values -/

theorem isFinite_unpack_packComponents {spec : Format} {s : Sign} {e : BitVec spec.exponentBits}
    {m : BitVec spec.mantissaBitsWithoutImplicit} (top : e ≠ -1#_) :
    (unpack spec (packComponents spec s e m)).isFinite = true := by
  unfold unpack
  simp only [unpackMantissa_packComponents, unpackExponent_packComponents, top, if_false]
  split
  · split <;> rfl
  · rfl

/-- What is packed is finite if its exponent is not above the greatest one. -/
theorem isFinite_unpack_pack_finite {s : Sign} {m : Nat} {e : Int} (pos : 0 < m) :
    (unpack .binary64 (pack .binary64 (.finite s m e pos))).isFinite = true ↔ e ≤ 971 := by
  rw [pack_finite]
  split
  · rw [unpack_packedInfinity]
    constructor
    · exact nofun
    · omega
  · rename_i fits
    constructor
    · omega
    · intro _
      split
      · exact isFinite_unpack_packComponents (biased_ne_top fits)
      · exact isFinite_unpack_packComponents zero_ne_neg_one

theorem exponent_le_of_unpack {b : BitVec Format.binary64.numBits} {s : Sign} {m : Nat} {e : Int} {pos : 0 < m}
    (h : unpack .binary64 b = .finite s m e pos) : e ≤ 971 := by
  have bias : (Format.binary64.exponentBias : Int) = 1023 := rfl
  unfold unpack at h
  dsimp only at h
  split at h
  · split at h <;> cases h
  · rename_i top
    have bound : (unpackExponent b).toNat ≠ 2047 := by
      intro same
      refine top (BitVec.eq_of_toNat_eq ?_)
      rw [same]
      rfl
    have width := (unpackExponent b).isLt
    dsimp only at width
    split at h
    · split at h
      · cases h
      · rename_i least _
        cases h
        rw [least, bias]
        simp
    · cases h
      rw [bias]
      omega

/-! ### Rounding to infinity -/

theorem roundBit_shiftRight (m k : Nat) :
    (ExtendedMantissa.ofMantissaAndAccuracy m .exact >>> k).roundBit.toNat = 2 * m / 2 ^ k % 2 := by
  have bit (n : Nat) : (n % 2 != 0).toNat = n % 2 := by
    rcases Nat.mod_two_eq_zero_or_one n with even | odd
    · rw [even]
      rfl
    · rw [odd]
      rfl
  cases k with
  | zero =>
    show 0 = 2 * m / 1 % 2
    omega
  | succ k =>
    show ((ExtendedMantissa.ofMantissaAndAccuracy m .exact >>> k).mantissa % 2 != 0).toNat = _
    rw [bit, mantissa_shiftRight, mantissa_ofMantissaAndAccuracy, Nat.pow_succ', Nat.mul_div_mul_left _ _ Nat.two_pos]

theorem roundedMantissa_le (em : ExtendedMantissa) :
    em.roundedMantissa ≤ em.mantissa + em.roundBit.toNat := by
  rcases em with ⟨m, _ | _, _ | _⟩ <;>
    simp [ExtendedMantissa.roundedMantissa, ExtendedMantissa.accuracy, Accuracy.roundToNearestEven]
  omega

theorem roundedMantissa_of_odd {em : ExtendedMantissa} (odd : em.mantissa % 2 = 1) :
    em.roundedMantissa = em.mantissa + em.roundBit.toNat := by
  rcases em with ⟨m, _ | _, _ | _⟩ <;>
    simp_all [ExtendedMantissa.roundedMantissa, ExtendedMantissa.accuracy, Accuracy.roundToNearestEven]

/-- What rounding the cut significand gives. -/
def rounded (m : Nat) (e : Int) (accuracy : Accuracy) : Nat :=
  (ExtendedMantissa.ofMantissaAndAccuracy m accuracy >>> cut m e).roundedMantissa

theorem rounded_le (m : Nat) (e : Int) (accuracy : Accuracy) : rounded m e accuracy ≤ m / 2 ^ cut m e + 1 := by
  have upper := roundedMantissa_le (ExtendedMantissa.ofMantissaAndAccuracy m accuracy >>> cut m e)
  have carry := Bool.toNat_le (ExtendedMantissa.ofMantissaAndAccuracy m accuracy >>> cut m e).roundBit
  rw [mantissa_shiftRight, mantissa_ofMantissaAndAccuracy] at upper
  exact Nat.le_trans upper (Nat.add_le_add_left carry _)

theorem roundWithAccuracy_eq (s : Sign) (m : Nat) (e : Int) (accuracy : Accuracy) :
    roundWithAccuracy .binary64 s m e accuracy =
      if h : rounded m e accuracy / 2 ^ cut (rounded m e accuracy) (e + cut m e) = 0 then .zero s
      else .finite s _ (e + cut m e + cut (rounded m e accuracy) (e + cut m e)) (Nat.pos_of_ne_zero h) := by
  unfold roundWithAccuracy
  simp only [shiftToTargetExponent_eq, mantissa_shiftRight, mantissa_ofMantissaAndAccuracy]
  rfl

/-- A rounded significand of 53 bits keeps its exponent; one that has grown to 54 bits is cut once more. -/
theorem isFinite_roundWithAccuracy (s : Sign) (m : Nat) (e : Int) (accuracy : Accuracy) :
    (unpack .binary64 (pack .binary64 (roundWithAccuracy .binary64 s m e accuracy))).isFinite = true ↔
      rounded m e accuracy = 0 ∨ e + cut m e < 971 ∨ e + cut m e = 971 ∧ rounded m e accuracy < 2 ^ 53 := by
  have upper := rounded_le m e accuracy
  have ⟨bits, least⟩ := cut_lt m e
  rw [roundWithAccuracy_eq]
  by_cases zero : rounded m e accuracy = 0
  · rw [zero, Nat.zero_div, dif_pos rfl, pack, unpack_packedZero]
    exact ⟨fun _ => Or.inl rfl, fun _ => rfl⟩
  have log : (rounded m e accuracy).log2 < 53 ↔ rounded m e accuracy < 2 ^ 53 := Nat.log2_lt zero
  have log' : (rounded m e accuracy).log2 < 54 := (Nat.log2_lt zero).mpr (by omega)
  have again : cut (rounded m e accuracy) (e + cut m e) = if rounded m e accuracy < 2 ^ 53 then 0 else 1 := by
    rw [cut_eq]
    split <;> omega
  have last := cut_pos (Nat.pos_of_ne_zero zero) (show -1074 ≤ e + cut m e + _ by omega)
  rw [dif_neg (Nat.ne_of_gt last), isFinite_unpack_pack_finite, again]
  split <;> omega

theorem rounded_pos {m : Nat} {e : Int} (pos : 0 < m) (least : -1074 ≤ e + m.log2) (accuracy : Accuracy) :
    0 < rounded m e accuracy := by
  refine Nat.lt_of_lt_of_le (cut_pos pos least) ?_
  have lower := le_roundedMantissa (ExtendedMantissa.ofMantissaAndAccuracy m accuracy >>> cut m e)
  rwa [mantissa_shiftRight, mantissa_ofMantissaAndAccuracy] at lower

/-- Of a significand with one bit more than is kept, all odd ones of the greatest kept significand round up. -/
theorem rounded_lt {m : Nat} {e : Int} :
    rounded m e .exact < 2 ^ 53 ↔ 2 * m / 2 ^ cut m e < 2 ^ 54 - 1 := by
  have upper := roundedMantissa_le (ExtendedMantissa.ofMantissaAndAccuracy m .exact >>> cut m e)
  have ⟨bits, _⟩ := cut_lt m e
  have half : 2 * m / 2 ^ cut m e / 2 = m / 2 ^ cut m e := by
    rw [Nat.div_div_eq_div_mul, Nat.mul_comm _ 2, Nat.mul_div_mul_left _ _ Nat.two_pos]
  have whole : (ExtendedMantissa.ofMantissaAndAccuracy m .exact >>> cut m e).mantissa = m / 2 ^ cut m e := by
    rw [mantissa_shiftRight, mantissa_ofMantissaAndAccuracy]
  rw [whole, roundBit_shiftRight, ← rounded] at upper
  by_cases low : 2 * m / 2 ^ cut m e < 2 ^ 54 - 1
  · exact iff_of_true (by omega) low
  · have top : 2 * m / 2 ^ cut m e = 2 ^ 54 - 1 := by omega
    have odd : m / 2 ^ cut m e % 2 = 1 := by omega
    have grown := roundedMantissa_of_odd (whole.symm ▸ odd)
    rw [whole, roundBit_shiftRight, ← rounded] at grown
    exact iff_of_false (by omega) low

/-- The exact bound: half a unit above the greatest double. -/
theorem isFinite_unpack_pack_round {s : Sign} {m : Nat} {e : Int} (pos : 0 < m) (le : e ≤ 971) :
    (unpack .binary64 (pack .binary64 (roundWithAccuracy .binary64 s m e .exact))).isFinite = true ↔
      2 * m < (2 ^ 54 - 1) * 2 ^ (971 - e).toNat := by
  have lower := Nat.log2_self_le (Nat.ne_of_gt pos)
  have upper := Nat.lt_log2_self (n := m)
  have width : (m.log2 + 1 + e - 53 : Int) ≤ e + cut m e := by
    rw [cut_eq]
    omega
  rw [isFinite_roundWithAccuracy]
  rcases Int.lt_trichotomy (e + cut m e) 971 with below | top | above
  · have bits : m.log2 + 1 + 1 ≤ 53 + (971 - e).toNat := by omega
    have powers := Nat.pow_le_pow_right Nat.two_pos bits
    rw [Nat.pow_succ, Nat.pow_add 2 53] at powers
    have small : 2 ^ 53 * 2 ^ (971 - e).toNat ≤ (2 ^ 54 - 1) * 2 ^ (971 - e).toNat :=
      Nat.mul_le_mul_right _ (by decide)
    exact iff_of_true (Or.inr (Or.inl below)) (by omega)
  · have exponent : cut m e = (971 - e).toNat := by omega
    rw [← exponent, ← Nat.div_lt_iff_lt_mul (Nat.two_pow_pos _), ← rounded_lt]
    omega
  · have long : (m.log2 + 1 + e - 53 : Int) = e + cut m e := by
      rw [cut_eq] at above ⊢
      omega
    have bits : 54 + (971 - e).toNat ≤ m.log2 + 1 := by omega
    have powers := Nat.pow_le_pow_right Nat.two_pos bits
    rw [Nat.pow_succ 2 m.log2, Nat.pow_add] at powers
    have large : (2 ^ 54 - 1) * 2 ^ (971 - e).toNat ≤ 2 ^ 54 * 2 ^ (971 - e).toNat :=
      Nat.mul_le_mul_right _ (by decide)
    have filled := rounded_pos pos (e := e) (by omega) .exact
    exact iff_of_false (by omega) (by omega)

/-- Whatever was lost before the rounding, fewer than 1024 bits before the point leave room for a carry. -/
theorem isFinite_unpack_pack_of_bits {s : Sign} {m : Nat} {e : Int} (le : e ≤ 970)
    (bits : m.log2 + 1 + e ≤ 1023) (accuracy : Accuracy) :
    (unpack .binary64 (pack .binary64 (roundWithAccuracy .binary64 s m e accuracy))).isFinite = true := by
  rw [isFinite_roundWithAccuracy, cut_eq]
  omega

/-! ### Products -/

theorem isFinite_toModel (x : Float) : Arith.isFinite x = x.toModel.unpack.isFinite := rfl

theorem isNaN_of_isFinite {x : Float} (h : Arith.isFinite x = true) : Arith.isNaN x = false := by
  rw [← Bool.not_eq_true, isNaN_iff]
  intro broken
  rw [isFinite_toModel, broken] at h
  cases h

theorem sign_mul_comm (s t : Sign) : s * t = t * s := by
  cases s <;> cases t <;> rfl

theorem mul_comm (spec : Format) (x y : UnpackedFloat) : x.mul spec y = y.mul spec x := by
  rcases x with s | _ | s | ⟨s, m, e, pos⟩ <;> rcases y with t | _ | t | ⟨t, n, f, pos'⟩ <;>
    simp only [UnpackedFloat.mul, sign_mul_comm, Nat.mul_comm, Int.add_comm]

/-- A factor of at most one in magnitude keeps a double finite. -/
theorem isFinite_mul {x y : Float} {t : Sign} {n : Nat} {f : Int} {pos : 0 < n}
    (first : x.toModel.unpack = .finite t n f pos) (small : f ≤ 0) (le : n ≤ 2 ^ (-f).toNat)
    (second : Arith.isFinite y = true) : Arith.isFinite (x * y) = true := by
  rw [isFinite_toModel] at second ⊢
  have canonical := isCanonical_toModel y
  rw [unpack_mul, first]
  cases read : y.toModel.unpack with
  | infinity s =>
    rw [read] at second
    cases second
  | notANumber =>
    rw [read] at second
    cases second
  | zero s =>
    rw [UnpackedFloat.mul, pack, unpack_packedZero]
    rfl
  | finite s m e pos' =>
    rw [read] at canonical
    have top : e ≤ 971 := exponent_le_of_unpack read
    rw [UnpackedFloat.mul, isFinite_unpack_pack_round (Nat.mul_pos pos pos') (by omega)]
    have exponent : (971 - (f + e)).toNat = (-f).toNat + (971 - e).toNat := by omega
    have product := Nat.mul_le_mul le (Nat.le_sub_one_of_lt canonical.1)
    have filled := Nat.two_pow_pos (-f).toNat
    rw [exponent, Nat.pow_add, ← Nat.mul_assoc (2 ^ 54 - 1)]
    exact Nat.lt_of_lt_of_le (by omega) (Nat.le_mul_of_pos_right _ (Nat.two_pow_pos _))

/-! ### Whole numbers -/

/-- Where the whole numbers begin that have no finite double: half way from the greatest double to the next
power of two. -/
def limit : Nat := 2 ^ 1024 - 2 ^ 970

def IsTooLarge (n : Int) : Prop := limit ≤ n.natAbs

instance (n : Int) : Decidable (IsTooLarge n) := inferInstanceAs (Decidable (_ ≤ _))

theorem scaled_limit : (2 ^ 54 - 1) * 2 ^ 1024 = 2 ^ 54 * limit := by
  decide +kernel

theorem log2_lt_of_lt_limit {k : Nat} (h : k < limit) : k.log2 < 1024 := by
  have bound : limit ≤ 2 ^ 1024 := by decide +kernel
  rcases Nat.eq_zero_or_pos k with rfl | pos
  · decide
  · rw [Nat.log2_lt (Nat.ne_of_gt pos)]
    calc
      k < limit := h
      _ ≤ 2 ^ 1024 := bound

theorem isTooLarge_neg (n : Int) : IsTooLarge (-n) ↔ IsTooLarge n := by
  rw [IsTooLarge, Int.natAbs_neg, IsTooLarge]

theorem unpack_toFloat (n : UInt64) : n.toFloat.toModel.unpack =
    unpack .binary64 (pack .binary64 (normalize .binary64 n.toNat 0 .positive)) := rfl

/-- A whole number of up to 64 bits, scaled to any exponent that is not above zero. -/
theorem isFinite_toFloat (n : UInt64) : Arith.isFinite n.toFloat = true := by
  rw [isFinite_toModel, unpack_toFloat]
  have word := n.toNat_lt
  unfold UnpackedFloat.normalize
  rcases Nat.eq_zero_or_pos n.toNat with zero | pos
  · rw [zero]
    rfl
  · rw [Int.compare_eq_gt.mpr (by omega)]
    dsimp only
    unfold UnpackedFloat.round decreaseExponent
    dsimp only
    rw [Int.toNat_natCast, Nat.shiftLeft_eq]
    generalize (0 - Format.binary64.targetExponent (totalExponent n.toNat 0)).toNat = shift
    have scaled := Nat.mul_lt_mul_of_pos_right word (Nat.two_pow_pos shift)
    have powers := Nat.pow_le_pow_right Nat.two_pos (by omega : 12 + shift ≤ (971 - (0 - (shift : Int))).toNat)
    rw [Nat.pow_add] at powers
    rw [isFinite_unpack_pack_round (Nat.mul_pos pos (Nat.two_pow_pos _)) (by omega)]
    omega

theorem unpack_one : (Float.ofBits 0x3FF0000000000000).toModel.unpack =
    .finite .positive (2 ^ 52) (-52) (by decide) := by
  rfl

/-- How a whole number becomes a double: exactly if it is short, and else by one rounding. -/
theorem ofNat_cases (k : Nat) :
    (k < 2 ^ 53 ∧ Float.ofNat k = k.toUInt64.toFloat * Float.ofBits 0x3FF0000000000000) ∨
      (0 < k ∧ (Float.ofNat k).toModel.unpack =
        unpack .binary64 (pack .binary64 (roundWithAccuracy .binary64 .positive (k * 2 ^ 53) (-53) .exact))) := by
  show (_ ∧ Float.ofScientific k false 0 = _) ∨ (_ ∧ (Float.ofScientific k false 0).toModel.unpack = _)
  unfold Float.ofScientific
  dsimp only
  by_cases short : k < 2 ^ 53 ∧ 0 ≤ 22
  · rw [dif_pos short]
    exact Or.inl ⟨short.1, rfl⟩
  · have pos : k ≠ 0 := by omega
    have power : (0 : Int) ≤ 2 ^ Format.binary64.exponentBits := by decide
    rw [dif_neg short]
    refine Or.inr ⟨by omega, ?_⟩
    show unpack .binary64 (pack .binary64 (ofScientific .binary64 k 0)) = _
    unfold ofScientific
    have one : 10 ^ (0 : Int).toNat = 1 := rfl
    rw [dif_neg pos, if_neg (by decide), if_neg (by omega), if_pos (Int.le_refl 0), ← Nat.shiftLeft_eq]
    simp only [UnpackedFloat.mul, one, Nat.mul_one, Int.add_zero]
    rfl

theorem isFinite_ofNat (k : Nat) : Arith.isFinite (Float.ofNat k) = true ↔ k < limit := by
  rcases ofNat_cases k with ⟨short, read⟩ | ⟨pos, read⟩
  · have bound : 2 ^ 53 ≤ limit := by decide +kernel
    have product := isFinite_mul unpack_one (by decide) (by decide) (isFinite_toFloat k.toUInt64)
    rw [isFinite_toModel, unpack_mul, mul_comm, ← unpack_mul, ← isFinite_toModel, ← read] at product
    exact iff_of_true product (by omega)
  · have exponent : (971 - (-53 : Int)).toNat = 1024 := rfl
    rw [isFinite_toModel, read, isFinite_unpack_pack_round (Nat.mul_pos pos (Nat.two_pow_pos _)) (by decide),
      exponent, scaled_limit]
    omega

theorem isFinite_neg_iff (x : Float) : Arith.isFinite (Float.neg x) = Arith.isFinite x := by
  show (unpack .binary64 (pack .binary64 x.toModel.unpack.neg)).isFinite = x.toModel.unpack.isFinite
  cases read : x.toModel.unpack with
  | infinity s =>
    rw [UnpackedFloat.neg, pack, unpack_packedInfinity]
    rfl
  | notANumber => rfl
  | zero s =>
    rw [UnpackedFloat.neg, pack, unpack_packedZero]
    rfl
  | finite s m e pos =>
    rw [UnpackedFloat.neg]
    exact (isFinite_unpack_pack_finite pos).mpr (exponent_le_of_unpack read)

/-- A whole number has a finite double unless it is too large. -/
theorem isFinite_ofInt (n : Int) : Arith.isFinite (Arith.ofInt n : Float) = true ↔ ¬IsTooLarge n := by
  show Arith.isFinite (Float.ofInt n) = true ↔ _
  rw [IsTooLarge, Nat.not_le]
  cases n with
  | ofNat k => exact isFinite_ofNat k
  | negSucc k =>
    show Arith.isFinite (Float.neg (Float.ofNat (k + 1))) = true ↔ _
    rw [isFinite_neg_iff]
    exact isFinite_ofNat (k + 1)

theorem ofInt?_ok_iff {n : Int} {x : Float} : Arith.ofInt? n = .ok x ↔ ¬IsTooLarge n ∧ Arith.ofInt n = x := by
  rw [← isFinite_ofInt, Arith.ofInt?]
  split
  · rename_i finite
    simp [finite]
  · rename_i infinite
    simp [infinite]

theorem side_toFloat {n : UInt64} (pos : 0 < n.toNat) : side n.toFloat.toModel.unpack = some .gt := by
  have ⟨rounded, above⟩ := normalize_spec n.toNat (by decide : (-1074 : Int) ≤ 0) .positive
  rw [unpack_toFloat, side_unpack_pack rounded, above, Int.compare_eq_gt.mpr (by omega)]

theorem side_mul_one {x : Float} (finite : Arith.isFinite x = true) (above : side x.toModel.unpack = some .gt) :
    side (x * Float.ofBits 0x3FF0000000000000).toModel.unpack = some .gt := by
  have canonical := isCanonical_toModel x
  rw [isFinite_toModel] at finite
  rw [unpack_mul, unpack_one]
  cases read : x.toModel.unpack with
  | infinity s =>
    rw [read] at finite
    cases finite
  | notANumber =>
    rw [read] at above
    cases above
  | zero s =>
    rw [read] at above
    cases s <;> cases above
  | finite s m e pos =>
    rw [read] at above canonical
    have least := canonical.2.1
    have bits : 52 ≤ (m * 2 ^ 52).log2 := by
      rw [Nat.le_log2 (by omega)]
      omega
    rw [UnpackedFloat.mul, side_unpack_pack (isRounded_roundWithAccuracy _ _ _ _),
      side_roundWithAccuracy_of_pos (Nat.mul_pos pos (Nat.two_pow_pos _)) (by omega)]
    cases s
    · cases above
    · rfl

/-- A whole number above zero has a double above zero. -/
theorem zero_lt_ofInt {n : Int} (pos : 0 < n) : Arith.lt 0.0 (Arith.ofInt n : Float) = true := by
  obtain ⟨k, rfl⟩ := Int.eq_ofNat_of_zero_le (Int.le_of_lt pos)
  rw [zero_lt_iff]
  show side (Float.ofNat k).toModel.unpack = _
  rcases ofNat_cases k with ⟨short, read⟩ | ⟨filled, read⟩
  · have word : k.toUInt64.toNat = k := UInt64.toNat_ofNat_of_lt (by
      show k < 2 ^ 64
      omega)
    rw [read]
    exact side_mul_one (isFinite_toFloat _) (side_toFloat (by omega))
  · rw [read, side_unpack_pack (isRounded_roundWithAccuracy _ _ _ _),
      side_roundWithAccuracy_of_pos (Nat.mul_pos filled (Nat.two_pow_pos _)) (by omega)]
    rfl

theorem side_neg (x : UnpackedFloat) : side x.neg = (side x).map Ordering.swap := by
  rcases x with (_ | _) | _ | (_ | _) | ⟨_ | _, m, e, pos⟩ <;> rfl

theorem ofInt_not_zero_lt {n : Int} (h : n ≤ 0) : Arith.lt 0.0 (Arith.ofInt n : Float) = false := by
  cases n with
  | ofNat k =>
    obtain rfl : k = 0 := by
      have : (k : Int) ≤ 0 := h
      omega
    rfl
  | negSucc k =>
    have above := zero_lt_ofInt (n := (k + 1 : Nat)) (by omega)
    rw [zero_lt_iff] at above
    rw [← Bool.not_eq_true, zero_lt_iff]
    show side (unpack .binary64 (pack .binary64 (Float.ofNat (k + 1)).toModel.unpack.neg)) ≠ some .gt
    have turned : side (Float.ofNat (k + 1)).toModel.unpack.neg = some .lt := by
      rw [side_neg]
      exact congrArg (Option.map Ordering.swap) above
    rw [side_unpack_pack (isRounded_of_isCanonical (isCanonical_neg (isCanonical_toModel _))), turned]
    exact nofun

theorem log2_quotient_lt {m n k : Nat} (divides : 2 ≤ n) (filled : m * 2 ^ k / n ≠ 0) :
    (m * 2 ^ k / n).log2 < m.log2 + k := by
  have upper := Nat.mul_lt_mul_of_pos_right (Nat.lt_log2_self (n := m)) (Nat.two_pow_pos k)
  have wide := Nat.mul_le_mul_left (2 ^ (m.log2 + k)) divides
  rw [Nat.pow_succ, Nat.mul_right_comm, ← Nat.pow_add] at upper
  rw [Nat.log2_lt filled, Nat.div_lt_iff_lt_mul (by omega)]
  omega

/-- A quotient by at least two has a finite double where its dividend has one. -/
theorem isFinite_ofRatio {p q : Int} (pos : 0 < p) (small : ¬IsTooLarge p) (divides : 2 ≤ q) :
    Arith.isFinite (Arith.ofRatio p q : Float) = true := by
  have width := log2_lt_of_lt_limit (Nat.lt_of_not_le small)
  have sameSign : ((p < 0) = (q < 0)) = True := by
    rw [eq_false (by omega : ¬p < 0), eq_false (by omega : ¬q < 0)]
    exact eq_self False
  show Arith.isFinite (nearest p q) = true
  unfold nearest
  rw [if_neg (by omega), if_neg (by omega), dif_pos (by omega : 0 < p.natAbs), dif_pos (by omega : 0 < q.natAbs)]
  simp only [sameSign, if_true]
  show (unpack .binary64 (pack .binary64 (UnpackedFloat.div .binary64 _ _))).isFinite = true
  rw [UnpackedFloat.div, divCore, Nat.shiftLeft_eq]
  dsimp only
  generalize Format.binary64.targetExponent _ = target
  refine isFinite_unpack_pack_of_bits (by omega) ?_ _
  -- however far the dividend is scaled up before the division, the quotient is shorter
  by_cases zero : p.natAbs * 2 ^ (0 - 0 - min (0 - 0) target).toNat / q.natAbs = 0
  · rw [zero, Nat.log2_zero]
    omega
  · have bits := log2_quotient_lt (by omega) zero
    omega

end ChartOverlay.Double
