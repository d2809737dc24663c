import Mathlib
import ChartOverlay.Proofs.DoubleBounds
import ChartOverlay.Proofs.SignalLine
import ChartOverlay.Proofs.Sums

/-!
# Values far from the end of the range

Sums, averages and deviations of values that are far enough from the end of the range of doubles do not reach it. A
step of an exponential average may leave the range of its values by what is rounded, but never twice that range
(`isWithin_step`), so the average is defined up to its end (`isBlock_ema_of_isWithin`). A deviation squares its values,
and is finite if those leave room for that (`isFinite_deviation`).
-/

namespace ChartOverlay.Double

open Arith

/-! ### Sums -/

section Sums
variable {b : Nat} {xs : List Float}

theorem isWithin_sum (top : b ≤ 971) (short : xs.length < 2 ^ 53) (all : ∀ x ∈ xs, IsWithin (2 ^ b) x) :
    IsWithin (xs.length * 2 ^ b) (sum xs) := by
  refine sum_counted (p := fun n x => n ≤ xs.length → IsWithin (n * 2 ^ b) x) ?_ ?_ ?_ ?_ (Nat.le_refl _)
  · intro i j x y left right within
    have double : IsDouble (i * 2 ^ b + j * 2 ^ b) := by
      rw [← add_mul, ← Nat.cast_add]
      exact isDouble_mul_pow (by omega) top
    rw [Nat.cast_add, add_mul]
    exact (left (by omega)).add (right (by omega)) double
  · intro _
    rw [Nat.cast_zero, zero_mul]
    exact isWithin_zero
  · intro _
    rw [Nat.cast_zero, zero_mul]
    exact ⟨rfl, (abs_eq_zero.mpr (ratio_eq_iff (n := 0) |>.mpr rfl)).le⟩
  · intro x member _
    rw [Nat.cast_one, one_mul]
    exact all x member

theorem isWithin_mean (top : b ≤ 971) (short : xs.length < 2 ^ 53) (filled : xs ≠ [])
    (all : ∀ x ∈ xs, IsWithin (2 ^ b) x) : IsWithin (2 ^ b) (mean xs) := by
  have whole := isWithin_sum top short all
  rw [← Int.cast_natCast] at whole
  have some := List.length_pos_iff.mpr filled
  exact whole.div_ofInt (by omega) (by omega) (isDouble_pow top)

end Sums

/-! ### Exponential averages -/

section Step
variable {B X L K D P : ℚ}

/-- The upper half of the bound on a step. `D` is a difference and `P` its share, both rounded. -/
theorem share_add_le (doubles : ∀ n : Nat, n ≤ 3 → IsDouble (n * B)) (nonneg : 0 ≤ B) (value : X ≤ B)
    (lower : -(2 * B) ≤ L) (upper : L ≤ 2 * B) (difference : ∀ c, IsDouble c → X - L ≤ c → D ≤ c) (least : 0 ≤ K)
    (most : K ≤ 1) (share : ∀ c, IsDouble c → D * K ≤ c → P ≤ c) : P + L ≤ 2 * B := by
  have bound : ∀ n : Nat, n ≤ 3 → X - L ≤ n * B → P ≤ n * B := by
    intro n small apart
    refine share _ (doubles n small) ?_
    have above := difference _ (doubles n small) apart
    have bounded : (0 : ℚ) ≤ n * B := mul_nonneg n.cast_nonneg nonneg
    rcases le_or_gt D 0 with below | positive
    · exact (mul_nonpos_of_nonpos_of_nonneg below least).trans bounded
    · exact (mul_le_of_le_one_right positive.le most).trans above
  rcases le_or_gt X L with falling | rising
  · have none := bound 0 (by decide) (by rw [Nat.cast_zero]; linarith)
    rw [Nat.cast_zero] at none
    linarith
  rcases le_or_gt 0 L with above | below
  · have once := bound 1 (by decide) (by rw [Nat.cast_one]; linarith)
    rw [Nat.cast_one] at once
    linarith
  rcases le_or_gt (-B) L with near | far
  · have twice := bound 2 (by decide) (by rw [Nat.cast_two]; linarith)
    rw [Nat.cast_two] at twice
    linarith
  · have thrice := bound 3 (by decide) (by rw [Nat.cast_ofNat]; linarith)
    rw [Nat.cast_ofNat] at thrice
    linarith

end Step

section Averages
variable {b : Nat} {x last k : Float} {values : List Float} {period : Int}

/-- A step keeps to twice the range of the values. -/
theorem isWithin_step (top : b ≤ 960) (value : IsWithin (2 ^ b) x) (before : IsWithin (2 * 2 ^ b) last)
    (finite : isFinite k = true) (least : 0 ≤ ratio k) (most : ratio k ≤ 1) :
    IsWithin (2 * 2 ^ b) ((x - last) * k + last) := by
  have doubles (n : Nat) (small : n ≤ 3) : IsDouble (n * 2 ^ b) := isDouble_mul_pow (by omega) (by omega)
  have double : IsDouble (2 * 2 ^ b) := by simpa using doubles 2 (by decide)
  have nonneg : (0 : ℚ) ≤ 2 ^ b := by positivity
  have size : (2 : ℚ) ^ b + 2 * 2 ^ b = (3 : ℕ) * 2 ^ b := by push_cast; ring
  have apart := value.sub before (by rw [size]; exact doubles 3 (by decide))
  have factor : IsWithin 1 k := ⟨finite, abs_le.mpr ⟨by linarith, most⟩⟩
  have part := apart.mul factor (by rw [mul_one, size]; exact doubles 3 (by decide))
  have difference := isResult_sub value.1 before.1
  have share := isResult_mul apart.1 finite
  obtain ⟨lower, upper⟩ := abs_le.mp value.2
  obtain ⟨lower', upper'⟩ := abs_le.mp before.2
  refine (isResult_add part.1 before.1).isWithin double (abs_le.mpr ⟨?_, ?_⟩)
  · -- the same bound for what is turned around
    have turned := share_add_le (X := -ratio x) (L := -ratio last) (K := ratio k) (D := -ratio (x - last))
      (P := -ratio ((x - last) * k)) doubles nonneg (by linarith) (by linarith) (by linarith)
      (fun c inside below => neg_le.mp (difference.ge apart.1 inside.neg (by linarith))) least most
      (fun c inside below => neg_le.mp (share.ge part.1 inside.neg (by linarith)))
    linarith
  · exact share_add_le doubles nonneg upper lower' upper' (fun c inside => difference.le apart.1 inside) least most
      (fun c inside => share.le part.1 inside)

theorem isWithin_states (top : b ≤ 960) (finite : isFinite k = true) (least : 0 ≤ ratio k) (most : ratio k ≤ 1)
    {seed : Float} (first : IsWithin (2 * 2 ^ b) seed) (all : ∀ x ∈ values, IsWithin (2 ^ b) x) :
    ∀ y ∈ states (fun last x => (x - last) * k + last) seed values, IsWithin (2 * 2 ^ b) y := by
  induction values generalizing seed with
  | nil =>
    intro y member
    rwa [List.mem_singleton.mp member]
  | cons x values ih =>
    obtain ⟨here, later⟩ := List.forall_mem_cons.mp all
    exact List.forall_mem_cons.mpr ⟨first, ih (isWithin_step top here first finite least most) later⟩

/-- The smoothing factor of a period is a share. -/
theorem smoothing_bounds (valid : 1 ≤ period) (short : period + 1 < 2 ^ 53) :
    isFinite (2.0 / ofInt (period + 1) : Float) = true ∧ 0 ≤ ratio (2.0 / ofInt (period + 1)) ∧
      ratio (2.0 / ofInt (period + 1)) ≤ 1 := by
  obtain ⟨finite, exact⟩ := ofInt_exact (n := period + 1) (by omega) short
  have wide : (2 : ℚ) ≤ (period + 1 : Int) := by exact_mod_cast (by omega : 2 ≤ period + 1)
  have result := isResult_div (rfl : isFinite (2.0 : Float) = true) finite (by rw [exact]; linarith)
  rw [ratio_two, exact] at result
  have nonneg : (0 : ℚ) ≤ 2 / (period + 1 : Int) := by positivity
  have most : (2 : ℚ) / (period + 1 : Int) ≤ 1 := (div_le_one (by linarith)).mpr wide
  have bounded := (result.isWithin isDouble_one (abs_le.mpr ⟨by linarith, most⟩)).1
  exact ⟨bounded, result.ge bounded isDouble_zero nonneg, result.le bounded isDouble_one most⟩

theorem ema_eq_of_isWithin (top : b ≤ 960) (short : values.length + 1 < 2 ^ 53)
    (all : ∀ x ∈ values, IsWithin (2 ^ b) x) (valid : 1 ≤ period) (enough : period ≤ values.length) :
    ∃ averages : List Float, ema values period = List.replicate (period.toNat - 1) none ++ averages.map some ∧
      averages.length = values.length - (period.toNat - 1) ∧ ∀ y ∈ averages, IsWithin (2 * 2 ^ b) y := by
  obtain ⟨finite, least, most⟩ := smoothing_bounds valid (by omega)
  have seed : IsWithin (2 ^ b) (mean (values.take period.toNat)) := by
    refine isWithin_mean (by omega) ?_ ?_ fun x member => all x (List.mem_of_mem_take member)
    · rw [List.length_take]
      omega
    · refine List.ne_nil_of_length_pos ?_
      rw [List.length_take]
      omega
  have first := seed.mono (le_mul_of_one_le_left (by positivity) one_le_two : (2 : ℚ) ^ b ≤ 2 * 2 ^ b)
  have rest : ∀ x ∈ values.drop period.toNat, IsWithin (2 ^ b) x := fun x member => all x (List.mem_of_mem_drop member)
  have within := isWithin_states top finite least most first rest
  refine ⟨_, ?_, ?_, within⟩
  · rw [ema, if_pos ⟨valid, enough⟩]
    refine congrArg _ (List.map_congr_left fun y member => ?_)
    rw [defined, (within y member).number]
    rfl
  · rw [length_states, List.length_drop]
    omega

theorem isWithin_ema (top : b ≤ 960) (short : values.length + 1 < 2 ^ 53) (all : ∀ x ∈ values, IsWithin (2 ^ b) x)
    {i : Nat} {y : Float} (found : (ema values period)[i]? = some (some y)) : IsWithin (2 * 2 ^ b) y := by
  by_cases whole : 1 ≤ period ∧ period ≤ values.length
  · obtain ⟨averages, same, -, within⟩ := ema_eq_of_isWithin top short all whole.1 whole.2
    have member := List.mem_of_getElem? found
    rw [same, List.mem_append, List.mem_replicate, List.mem_map] at member
    obtain ⟨-, ⟨⟩⟩ | ⟨z, inside, ⟨⟩⟩ := member
    exact within y inside
  · rw [ema, if_neg whole, List.getElem?_replicate] at found
    split at found <;> cases found

/-- An average of such values is defined from its first whole window on to its end. -/
theorem isBlock_ema_of_isWithin (top : b ≤ 960) (short : values.length + 1 < 2 ^ 53)
    (all : ∀ x ∈ values, IsWithin (2 ^ b) x) (valid : 1 ≤ period) :
    IsBlock (period.toNat - 1) values.length (ema values period) := by
  by_cases enough : period ≤ values.length
  · obtain ⟨averages, same, size, -⟩ := ema_eq_of_isWithin top short all valid enough
    have entries : IsBlock 0 (averages.map some).length (averages.map some) := by
      cases averages with
      | nil => exact isBlock_replicate 0 0
      | cons y ys =>
        have found : ∀ i < ((y :: ys).map some).length, ((y :: ys).map some)[i]? =
            some (if 0 ≤ i then some (((y :: ys)[i]?).getD y) else none) := by
          intro i inside
          rw [List.length_map] at inside
          rw [List.getElem?_map, List.getElem?_eq_getElem inside]
          rfl
        exact isBlock_of_entries found
    have padded := entries.append (period.toNat - 1)
    have stop : period.toNat - 1 + (averages.map some).length = values.length := by
      rw [List.length_map]
      omega
    rwa [stop, Nat.add_zero, ← same] at padded
  · rw [ema, if_neg fun whole => enough whole.2]
    intro i
    refine iff_of_false ?_ (by omega)
    rintro ⟨y, found⟩
    rw [List.getElem?_replicate] at found
    split at found <;> cases found

/-- The line of two averages ends with the values, and so does its signal line. -/
theorem length_signal_of_isWithin (top : b ≤ 960) (short : values.length + 1 < 2 ^ 53)
    (all : ∀ x ∈ values, IsWithin (2 ^ b) x) {fast slow : Int} (valid : 1 ≤ fast) (valid' : 1 ≤ slow) (signal : Int) :
    (macd values fast slow signal).2.length = values.length := by
  have quick := isBlock_ema_of_isWithin top short all valid
  have late := isBlock_ema_of_isWithin top short all valid'
  have line := quick.zipDefined late fun f s => f - s
  have size : (zipDefined (fun f s => f - s) (ema values fast) (ema values slow)).length = values.length :=
    length_macd values fast slow signal
  rw [Nat.min_self] at line
  rw [macd, length_signalLine line, size]
  exact ite_self _

end Averages

/-! ### Deviations -/

theorem log2_mul_pow {m : Nat} (pos : 0 < m) (k : Nat) : (m * 2 ^ k).log2 = m.log2 + k := by
  have filled := Nat.mul_pos pos (Nat.two_pow_pos k)
  rw [Nat.log2_eq_iff filled.ne', Nat.add_right_comm, Nat.pow_add, Nat.pow_add]
  exact ⟨Nat.mul_le_mul_right _ (Nat.log2_self_le pos.ne'),
    Nat.mul_lt_mul_of_pos_right Nat.lt_log2_self (Nat.two_pow_pos k)⟩

theorem log2_sqrt (m : Nat) : 2 * m.sqrt.log2 ≤ m.log2 := by
  rcases Nat.eq_zero_or_pos m.sqrt with zero | pos
  · rw [zero]
    exact Nat.zero_le _
  have root := Nat.log2_self_le pos.ne'
  have square : 2 ^ (2 * m.sqrt.log2) ≤ m := by
    rw [Nat.two_mul, Nat.pow_add]
    exact (Nat.mul_le_mul root root).trans (Nat.sqrt_le m)
  have filled : m ≠ 0 := (Nat.sqrt_pos.mp pos).ne'
  exact (Nat.le_log2 filled).mpr square

open Float.Model (UnpackedFloat totalExponent) in
open Float.Model.UnpackedFloat in
/-- A root has half as many bits before the point as its square. -/
theorem isFinite_sqrt {x : Float} (finite : isFinite x = true) (nonneg : lt x 0.0 = false) :
    isFinite (Arith.sqrt x) = true := by
  have canonical := isCanonical_toModel x
  rw [not_lt_zero_iff] at nonneg
  show (Float.sqrt x).toModel.unpack.isFinite = true
  rw [isFinite_toModel] at finite
  rw [unpack_sqrt]
  cases read : x.toModel.unpack with
  | infinity s =>
    rw [read] at finite
    cases finite
  | notANumber =>
    rw [read] at finite
    cases finite
  | zero s =>
    rw [UnpackedFloat.sqrt, pack, unpack_packedZero]
    rfl
  | finite s m e pos =>
    rw [read] at canonical nonneg
    cases s with
    | negative => exact absurd rfl nonneg
    | positive =>
      have top := exponent_le_of_unpack read
      have bits : m.log2 < 53 := (Nat.log2_lt pos.ne').mpr canonical.1
      have target : min (e / 2) (max ((m.log2 + 1 + e + 1) / 2 - 53) (-1074)) ≤ e / 2 := min_le_left _ _
      generalize lowered : min (e / 2) (max ((m.log2 + 1 + e + 1) / 2 - 53) (-1074)) = t at target
      have scaled : (m <<< (e - 2 * t).toNat).log2 = m.log2 + (e - 2 * t).toNat := by
        rw [Nat.shiftLeft_eq, log2_mul_pow pos]
      have half := log2_sqrt (m <<< (e - 2 * t).toNat)
      show (unpack _ (pack _ (roundWithAccuracy _ .positive (m <<< (e - 2 * min (e / 2)
        (max ((m.log2 + 1 + e + 1) / 2 - 53) (-1074))).toNat).sqrt (min (e / 2)
        (max ((m.log2 + 1 + e + 1) / 2 - 53) (-1074))) _))).isFinite = true
      rw [lowered]
      exact isFinite_unpack_pack_of_bits (by omega) (by omega) _

theorem isFinite_deviation {b : Nat} (top : b ≤ 480) {window : List Float} (short : window.length < 2 ^ 53)
    (filled : window ≠ []) (all : ∀ x ∈ window, IsWithin (2 ^ b) x) :
    isFinite (deviation window.length window) = true := by
  have some := List.length_pos_iff.mpr filled
  have middle := isWithin_mean (by omega) short filled all
  have double : (2 : ℚ) ^ b + 2 ^ b = 2 ^ (b + 1) := by ring
  have square : (2 : ℚ) ^ (b + 1) * 2 ^ (b + 1) = 2 ^ (2 * b + 2) := by ring
  have squares : ∀ y ∈ window.map fun x => (x - mean window) * (x - mean window), IsWithin (2 ^ (2 * b + 2)) y := by
    intro y member
    obtain ⟨x, inside, rfl⟩ := List.mem_map.mp member
    have apart := (all x inside).sub middle (by rw [double]; exact isDouble_pow (by omega))
    rw [double] at apart
    rw [← square]
    exact apart.mul apart (by rw [square]; exact isDouble_pow (by omega))
  have whole := isWithin_sum (by omega) (by rwa [List.length_map]) squares
  rw [List.length_map, ← Int.cast_natCast] at whole
  have spread : IsWithin (2 ^ (2 * b + 2)) (radicand window.length window) :=
    whole.div_ofInt (by omega) (by omega) (isDouble_pow (by omega))
  rw [deviation_eq]
  exact isFinite_sqrt spread.1 (radicand_not_lt_zero (by omega) window)

end ChartOverlay.Double
