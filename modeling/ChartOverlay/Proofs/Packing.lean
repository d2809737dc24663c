import ChartOverlay.Proofs.Double
import Mathlib

/-!
# Packing doubles

An operation on doubles computes an unpacked result, which is rounded and packed into 64 bits. Rounding may
take a value to zero and packing may take it to infinity, but neither takes it across zero:
`side_unpack_pack` and `signOf_unpack_pack`.
-/

namespace ChartOverlay.Double

open Float.Model (Format UnpackedFloat totalExponent)
open Float.Model.UnpackedFloat

/-- How an unpacked value compares with zero. -/
def side (x : UnpackedFloat) : Option Ordering := x.compare (.zero .positive)

def ordering : Sign → Ordering
  | .negative => .lt
  | .positive => .gt

/-- The sign of an unpacked value, unless it is not a number. -/
def signOf : UnpackedFloat → Option Sign
  | .infinity s => some s
  | .zero s => some s
  | .finite s .. => some s
  | .notANumber => none

theorem side_finite (s : Sign) (m : Nat) (e : Int) (h : 0 < m) :
    side (.finite s m e h) = some (ordering s) := by
  cases s <;> rfl

theorem side_infinity (s : Sign) : side (.infinity s) = some (ordering s) := by
  cases s <;> rfl

theorem sign_ofBitVec_toBitVec (s : Sign) : Sign.ofBitVec s.toBitVec = s := by
  cases s <;> rfl

section Packing
variable {spec : Format} {s : Sign} {e : BitVec spec.exponentBits}
variable {m : BitVec spec.mantissaBitsWithoutImplicit}

theorem unpackSign_packComponents : unpackSign (packComponents spec s e m) = s.toBitVec := by
  ext i hi
  obtain rfl : i = 0 := by omega
  simp [unpackSign, packComponents, BitVec.getLsbD_append, BitVec.getElem_append]

theorem signOf_unpack_packComponents (top : e ≠ -1#_) :
    signOf (unpack spec (packComponents spec s e m)) = some s := by
  unfold unpack
  simp only [unpackMantissa_packComponents, unpackExponent_packComponents, unpackSign_packComponents,
    sign_ofBitVec_toBitVec, top, if_false]
  split
  · split <;> rfl
  · rfl

theorem side_unpack_packComponents (top : e ≠ -1#_) (filled : e ≠ 0#_ ∨ m ≠ 0#_) :
    side (unpack spec (packComponents spec s e m)) = some (ordering s) := by
  unfold unpack
  simp only [unpackMantissa_packComponents, unpackExponent_packComponents, unpackSign_packComponents,
    sign_ofBitVec_toBitVec, top, if_false]
  by_cases bottom : e = 0#_
  · have fraction : m ≠ 0#_ := filled.resolve_left (not_not_intro bottom)
    simp only [bottom, fraction, if_true, dif_neg, not_false_eq_true, side_finite]
  · simp only [bottom, if_false, side_finite]

theorem unpack_packedInfinity : unpack spec (packedInfinity spec s) = .infinity s := by
  unfold unpack packedInfinity
  simp only [unpackMantissa_packComponents, unpackExponent_packComponents, unpackSign_packComponents,
    sign_ofBitVec_toBitVec, if_true]
  exact if_pos rfl

theorem zero_ne_neg_one : (0#_ : BitVec spec.exponentBits) ≠ -1#_ := by
  intro eq
  have powers := Nat.one_lt_two_pow (Nat.ne_of_gt spec.he)
  have values := congrArg BitVec.toNat eq
  rw [BitVec.neg_one_eq_allOnes, BitVec.toNat_allOnes, BitVec.toNat_ofNat, Nat.zero_mod] at values
  omega

theorem unpack_packedZero : unpack spec (packedZero spec s) = .zero s := by
  unfold unpack packedZero
  simp only [unpackMantissa_packComponents, unpackExponent_packComponents, unpackSign_packComponents,
    sign_ofBitVec_toBitVec]
  exact (if_neg zero_ne_neg_one).trans ((if_pos rfl).trans (dif_pos rfl))

end Packing

theorem unpack_packedNaN : unpack .binary64 (packedNaN .binary64) = .notANumber := by
  unfold unpack packedNaN
  simp only [unpackMantissa_packComponents, unpackExponent_packComponents, unpackSign_packComponents,
    sign_ofBitVec_toBitVec, if_true]
  exact if_neg (by decide)

/-! ### Rounding -/

theorem mantissa_shiftRight (em : ExtendedMantissa) (k : Nat) :
    (em >>> k).mantissa = em.mantissa / 2 ^ k := by
  induction k generalizing em with
  | zero => simp [HShiftRight.hShiftRight, Nat.repeat]
  | succ k ih =>
    show (em >>> k).mantissa / 2 = _
    rw [ih, Nat.div_div_eq_div_mul, Nat.pow_succ]

theorem mantissa_ofMantissaAndAccuracy (m : Nat) (accuracy : Accuracy) :
    (ExtendedMantissa.ofMantissaAndAccuracy m accuracy).mantissa = m := by
  rcases accuracy with _ | _ | _ | _ <;> rfl

theorem le_roundedMantissa (em : ExtendedMantissa) : em.mantissa ≤ em.roundedMantissa := by
  rcases em with ⟨m, _ | _, _ | _⟩ <;>
    simp [ExtendedMantissa.roundedMantissa, ExtendedMantissa.accuracy, Accuracy.roundToNearestEven]

/-- By how many bits a significand is cut. -/
def cut (m : Nat) (e : Int) : Nat := (Format.binary64.targetExponent (totalExponent m e) - e).toNat

theorem cut_eq (m : Nat) (e : Int) : cut m e = (max (m.log2 + 1 + e - 53) (-1074) - e).toNat := rfl

theorem shiftToTargetExponent_eq (m : Nat) (e : Int) (accuracy : Accuracy) :
    shiftToTargetExponent .binary64 m e accuracy =
      (ExtendedMantissa.ofMantissaAndAccuracy m accuracy >>> cut m e, e + cut m e) := rfl

/-- What is left has at most 53 bits and is not below the least exponent. -/
theorem cut_lt (m : Nat) (e : Int) : m / 2 ^ cut m e < 2 ^ 53 ∧ -1074 ≤ e + cut m e := by
  have bits : m.log2 + 1 ≤ 53 + cut m e ∧ -1074 ≤ e + cut m e := by
    rw [cut_eq]
    omega
  refine ⟨(Nat.div_lt_iff_lt_mul (Nat.two_pow_pos _)).mpr ?_, bits.2⟩
  rw [← Nat.pow_add]
  exact Nat.lt_of_lt_of_le Nat.lt_log2_self (Nat.pow_le_pow_right Nat.two_pos bits.1)

/-- Nothing vanishes whose first bit is not below the least exponent. -/
theorem cut_pos {m : Nat} {e : Int} (pos : 0 < m) (least : -1074 ≤ e + m.log2) : 0 < m / 2 ^ cut m e := by
  refine Nat.div_pos ?_ (Nat.two_pow_pos _)
  refine Nat.le_trans (Nat.pow_le_pow_right Nat.two_pos ?_) (Nat.log2_self_le (Nat.ne_of_gt pos))
  rw [cut_eq]
  omega

/-- The significand and the exponent fit into a double, were it not for the greatest exponent. -/
def IsRounded : UnpackedFloat → Prop
  | .finite _ m e _ => m < 2 ^ 53 ∧ -1074 ≤ e
  | _ => True

theorem isRounded_roundWithAccuracy (s : Sign) (m : Nat) (e : Int) (accuracy : Accuracy) :
    IsRounded (roundWithAccuracy .binary64 s m e accuracy) := by
  unfold roundWithAccuracy
  simp only [shiftToTargetExponent_eq, mantissa_shiftRight, mantissa_ofMantissaAndAccuracy]
  split
  · trivial
  · exact cut_lt _ _

theorem side_roundWithAccuracy (s : Sign) (m : Nat) (e : Int) (accuracy : Accuracy) :
    side (roundWithAccuracy .binary64 s m e accuracy) = some .eq ∨
      side (roundWithAccuracy .binary64 s m e accuracy) = some (ordering s) := by
  unfold roundWithAccuracy
  dsimp only
  split
  · exact Or.inl rfl
  · exact Or.inr (side_finite _ _ _ _)

theorem side_roundWithAccuracy_of_pos {s : Sign} {m : Nat} {e : Int} (pos : 0 < m)
    (least : -1074 ≤ e + m.log2) (accuracy : Accuracy) :
    side (roundWithAccuracy .binary64 s m e accuracy) = some (ordering s) := by
  have first : 0 < (ExtendedMantissa.ofMantissaAndAccuracy m accuracy >>> cut m e).roundedMantissa := by
    refine Nat.lt_of_lt_of_le ?_ (le_roundedMantissa _)
    rw [mantissa_shiftRight, mantissa_ofMantissaAndAccuracy]
    exact cut_pos pos least
  have bottom := (cut_lt m e).2
  have last := cut_pos first (show -1074 ≤ e + cut m e + _ by omega)
  unfold roundWithAccuracy
  simp only [shiftToTargetExponent_eq, mantissa_shiftRight, mantissa_ofMantissaAndAccuracy]
  rw [dif_neg (Nat.ne_of_gt last), side_finite]

theorem pack_finite (s : Sign) (m : Nat) (e : Int) (pos : 0 < m) :
    pack .binary64 (.finite s m e pos) =
      if 2048 ≤ (e + 1075).toNat + 1 then packedInfinity .binary64 s
      else if m.log2 + 1 = 53 then
        packComponents .binary64 s (BitVec.ofNat 11 (e + 1075).toNat) (BitVec.ofNat 52 m)
      else packComponents .binary64 s 0 (BitVec.ofNat 52 m) := by
  have biased :
      e + 1075 = e + Format.binary64.exponentBias + Format.binary64.mantissaBitsWithoutImplicit := by
    have bias : (Format.binary64.exponentBias : Int) = 1023 := rfl
    rw [bias]
    dsimp only
    omega
  rw [biased]
  rfl

theorem biased_ne_top {e : Int} (fits : ¬2048 ≤ (e + 1075).toNat + 1) :
    BitVec.ofNat 11 (e + 1075).toNat ≠ -1#11 := by
  rw [BitVec.neg_one_eq_allOnes, Ne, ← BitVec.toNat_inj, BitVec.toNat_ofNat, BitVec.toNat_allOnes]
  omega

/-- What is packed keeps its sign. -/
theorem signOf_unpack_pack (x : UnpackedFloat) : signOf (unpack .binary64 (pack .binary64 x)) = signOf x := by
  rcases x with s | _ | s | ⟨s, m, e, pos⟩
  · exact congrArg signOf unpack_packedInfinity
  · exact congrArg signOf unpack_packedNaN
  · exact congrArg signOf unpack_packedZero
  · rw [pack_finite]
    split
    · rw [unpack_packedInfinity]
      rfl
    · rename_i fits
      split
      · exact signOf_unpack_packComponents (biased_ne_top fits)
      · exact signOf_unpack_packComponents zero_ne_neg_one

/-- A rounded value stays on its side of zero when it is packed. -/
theorem side_unpack_pack {x : UnpackedFloat} (rounded : IsRounded x) :
    side (unpack .binary64 (pack .binary64 x)) = side x := by
  rcases x with s | _ | s | ⟨s, m, e, pos⟩
  · exact congrArg side unpack_packedInfinity
  · exact congrArg side unpack_packedNaN
  · exact congrArg side unpack_packedZero
  · obtain ⟨bits, least⟩ := rounded
    rw [side_finite, pack_finite]
    split
    · rw [unpack_packedInfinity, side_infinity]
    rename_i fits
    split
    · refine side_unpack_packComponents (biased_ne_top fits) (Or.inl ?_)
      rw [Ne, ← BitVec.toNat_inj, BitVec.toNat_ofNat, BitVec.toNat_ofNat]
      omega
    -- of a subnormal value all bits are stored, and one of them is set
    · rename_i short
      refine side_unpack_packComponents zero_ne_neg_one (Or.inr ?_)
      have narrow : m < 2 ^ 52 := by
        have := (Nat.log2_lt (Nat.ne_of_gt pos)).mpr bits
        exact (Nat.log2_lt (Nat.ne_of_gt pos)).mp (by omega)
      rw [Ne, ← BitVec.toNat_inj, BitVec.toNat_ofNat, BitVec.toNat_ofNat]
      omega

end ChartOverlay.Double
