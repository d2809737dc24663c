import Mathlib
import ChartOverlay.Arith.Sum
import ChartOverlay.Proofs.DoubleBounds
import ChartOverlay.Proofs.DoubleOrder

/-!
# Infinite and undefined doubles

A sum of numbers is not a number only if they are infinite and on opposite sides of zero (`isNaN_add_iff`), a product
only if it is of an infinite factor and zero (`isNaN_mul_iff`). Sums of doubles that are not below zero vanish only if
all of them do (`isZero_total_iff`).
-/

namespace ChartOverlay.Double

open Arith
open Float.Model (UnpackedFloat)
open Float.Model.UnpackedFloat

def IsInfinite (x : Float) : Prop := isFinite x = false ∧ isNaN x = false

/-- One of the factors is infinite and the other one is zero. -/
def IsIndefinite (x y : Float) : Prop := IsInfinite x ∧ isZero y = true ∨ isZero x = true ∧ IsInfinite y

section Unpacked
variable {u v : UnpackedFloat}

theorem signOf_eq_none_iff : signOf u = none ↔ u = .notANumber := by
  cases u <;> simp [signOf]

theorem add_eq_notANumber_iff : u.add .binary64 v = .notANumber ↔
    u = .notANumber ∨ v = .notANumber ∨ ∃ s t, u = .infinity s ∧ v = .infinity t ∧ s ≠ t := by
  rcases u with s | _ | s | ⟨s, m, e, pos⟩ <;> rcases v with t | _ | t | ⟨t, n, f, pos'⟩ <;>
    simp only [UnpackedFloat.add, beq_iff_eq, reduceCtorEq, false_and, exists_false, or_self, true_or, or_true,
      false_or, iff_false, infinity.injEq, exists_and_left, exists_eq_left', Ne]
  · split <;> simp_all
  · split <;> simp
  · intro broken
    have bounded := (normalize_rounds (s.apply (decreaseExponent m e (min e f)).1 +
      t.apply (decreaseExponent n f (min e f)).1) (min e f) .positive).2.1
    rw [broken] at bounded
    cases bounded

theorem sub_eq_notANumber_iff : u.sub .binary64 v = .notANumber ↔
    u = .notANumber ∨ v = .notANumber ∨ ∃ s, u = .infinity s ∧ v = .infinity s := by
  have turned (s t : Sign) : ¬s = -t ↔ s = t := by cases s <;> cases t <;> simp [Neg.neg]
  rw [sub_eq_add_neg, add_eq_notANumber_iff]
  rcases v with t | _ | t | ⟨t, n, f, pos⟩ <;> simp [UnpackedFloat.neg, turned]

theorem mul_eq_notANumber_iff : u.mul .binary64 v = .notANumber ↔ u = .notANumber ∨ v = .notANumber ∨
    (∃ s t, u = .infinity s ∧ v = .zero t) ∨ ∃ s t, u = .zero s ∧ v = .infinity t := by
  rcases u with s | _ | s | ⟨s, m, e, pos⟩ <;> rcases v with t | _ | t | ⟨t, n, f, pos'⟩ <;>
    simp [UnpackedFloat.mul]
  intro broken
  have sign := signOf_roundWithAccuracy (s * t) (m * n) (e + f) .exact
  rw [broken] at sign
  cases sign

end Unpacked

section Results
variable {x y : Float}

theorem isNaN_of_unpack {u : UnpackedFloat} (read : x.toModel.unpack = unpack .binary64 (pack .binary64 u)) :
    isNaN x = true ↔ u = .notANumber := by
  rw [isNaN_iff, read, ← signOf_eq_none_iff, signOf_unpack_pack, signOf_eq_none_iff]

theorem isInfinite_iff : IsInfinite x ↔ ∃ s, x.toModel.unpack = .infinity s := by
  rw [IsInfinite, isFinite_toModel, notANumber_iff]
  cases x.toModel.unpack <;> simp [UnpackedFloat.isFinite]

theorem unpack_zero_iff : isZero x = true ↔ ∃ s, x.toModel.unpack = .zero s := by
  rw [isZero_iff]
  rcases x.toModel.unpack with s | _ | s | ⟨s, m, e, pos⟩
  · cases s <;> simp [side_infinity, ordering]
  · simp [side, UnpackedFloat.compare]
  · cases s <;> exact iff_of_true rfl ⟨_, rfl⟩
  · cases s <;> simp [side_finite, ordering]

theorem lt_zero_of_infinity {s : Sign} (read : x.toModel.unpack = .infinity s) :
    lt x 0.0 = true ↔ s = .negative := by
  rw [lt_zero_iff, read, side_infinity]
  cases s <;> simp [ordering]

theorem isNaN_add_iff : isNaN (x + y) = true ↔
    isNaN x = true ∨ isNaN y = true ∨ IsInfinite x ∧ IsInfinite y ∧ lt x 0.0 ≠ lt y 0.0 := by
  rw [isNaN_of_unpack (unpack_add x y), add_eq_notANumber_iff, isNaN_iff, isNaN_iff, isInfinite_iff, isInfinite_iff]
  refine or_congr_right (or_congr_right ⟨?_, ?_⟩)
  · rintro ⟨s, t, left, right, apart⟩
    refine ⟨⟨s, left⟩, ⟨t, right⟩, fun same => apart ?_⟩
    rw [Bool.eq_iff_iff, lt_zero_of_infinity left, lt_zero_of_infinity right] at same
    cases s <;> cases t <;> simp_all
  · rintro ⟨⟨s, left⟩, ⟨t, right⟩, apart⟩
    refine ⟨s, t, left, right, ?_⟩
    rintro rfl
    exact apart (by rw [Bool.eq_iff_iff, lt_zero_of_infinity left, lt_zero_of_infinity right])

theorem isNaN_sub_iff : isNaN (x - y) = true ↔
    isNaN x = true ∨ isNaN y = true ∨ IsInfinite x ∧ IsInfinite y ∧ lt x 0.0 = lt y 0.0 := by
  rw [isNaN_of_unpack (unpack_sub x y), sub_eq_notANumber_iff, isNaN_iff, isNaN_iff, isInfinite_iff, isInfinite_iff]
  refine or_congr_right (or_congr_right ⟨?_, ?_⟩)
  · rintro ⟨s, left, right⟩
    exact ⟨⟨s, left⟩, ⟨s, right⟩, by rw [Bool.eq_iff_iff, lt_zero_of_infinity left, lt_zero_of_infinity right]⟩
  · rintro ⟨⟨s, left⟩, ⟨t, right⟩, same⟩
    rw [Bool.eq_iff_iff, lt_zero_of_infinity left, lt_zero_of_infinity right] at same
    obtain rfl : s = t := by cases s <;> cases t <;> simp_all
    exact ⟨s, left, right⟩

theorem isNaN_mul_iff : isNaN (x * y) = true ↔ isNaN x = true ∨ isNaN y = true ∨ IsIndefinite x y := by
  rw [isNaN_of_unpack (unpack_mul x y), mul_eq_notANumber_iff, isNaN_iff, isNaN_iff, IsIndefinite, isInfinite_iff,
    isInfinite_iff, unpack_zero_iff, unpack_zero_iff]
  simp only [exists_and_left, exists_and_right]

theorem IsResult.number {r : ℚ} (h : IsResult r x) : isNaN x = false := by
  obtain ⟨u, read, -, bounded, -⟩ := h
  rw [← Bool.not_eq_true, isNaN_of_unpack read]
  rintro rfl
  cases bounded

/-- What digits stand for is a number, if possibly an infinite one. -/
theorem isNaN_ofScientific (m : Nat) (s : Bool) (k : Nat) : isNaN (Float.ofScientific m s k) = false := by
  unfold Float.ofScientific
  dsimp only
  split
  · rename_i short
    have ⟨bounded, power⟩ := powers_of_ten ⟨k, by omega⟩
    have exact := ratio_eq_iff.mpr power
    split
    · refine (isResult_div (isFinite_toFloat _) bounded ?_).number
      rw [exact]
      exact_mod_cast (Nat.pow_pos (by decide : 0 < 10)).ne'
    · exact (isResult_mul (isFinite_toFloat _) bounded).number
  · generalize (if s = true then Int.negOfNat k else Int.ofNat k) = e
    rw [← Bool.not_eq_true, isNaN_iff, ← signOf_eq_none_iff]
    show ¬signOf (unpack .binary64 (pack .binary64 (ofScientific .binary64 m e))) = none
    rw [signOf_unpack_pack]
    intro sign
    unfold ofScientific at sign
    split at sign
    · cases sign
    split at sign
    · cases sign
    split at sign
    · cases sign
    split at sign
    · cases (signOf_roundWithAccuracy _ _ _ _).symm.trans sign
    · cases (signOf_roundWithAccuracy _ _ _ _).symm.trans sign

end Results

/-! ### Vanishing results -/

section Vanishing
variable {x y : Float}

theorem isFinite_of_unpack_pack {u : UnpackedFloat} (finite : (unpack .binary64 (pack .binary64 u)).isFinite = true) :
    u.isFinite = true := by
  cases u with
  | infinity s =>
    rw [pack, unpack_packedInfinity] at finite
    exact finite
  | notANumber =>
    rw [pack, unpack_packedNaN] at finite
    exact finite
  | zero s => rfl
  | finite s m e pos => rfl

theorem isFinite_of_mul (finite : isFinite (x * y) = true) : isFinite x = true ∧ isFinite y = true := by
  rw [isFinite_toModel, unpack_mul] at finite
  have product := isFinite_of_unpack_pack finite
  rw [isFinite_toModel, isFinite_toModel]
  generalize x.toModel.unpack = u at product
  generalize y.toModel.unpack = v at product
  rcases u with s | _ | s | ⟨s, m, e, pos⟩ <;> rcases v with t | _ | t | ⟨t, n, f, pos'⟩ <;>
    simp_all [UnpackedFloat.mul, UnpackedFloat.isFinite]

theorem isZero_iff_ratio : isZero x = true ↔ isFinite x = true ∧ ratio x = 0 := by
  rw [unpack_zero_iff, isFinite_toModel, ratio_eq]
  rcases x.toModel.unpack with s | _ | s | ⟨s, m, e, pos⟩
  · simp [UnpackedFloat.isFinite]
  · simp [UnpackedFloat.isFinite]
  · exact iff_of_true ⟨s, rfl⟩ ⟨rfl, rfl⟩
  · have filled : (m : ℚ) ≠ 0 := Nat.cast_ne_zero.mpr pos.ne'
    have sign : unit s ≠ 0 := by cases s <;> simp [unit]
    have power : (2 : ℚ) ^ e ≠ 0 := by positivity
    simp [value_finite, filled, sign, power]

theorem isZero_div (finite : isFinite x = true) (infinite : IsInfinite y) : isZero (x / y) = true := by
  obtain ⟨t, read⟩ := isInfinite_iff.mp infinite
  rw [unpack_zero_iff, unpack_div, read]
  rw [isFinite_toModel] at finite
  generalize x.toModel.unpack = u at finite
  rcases u with s | _ | s | ⟨s, m, e, pos⟩
  · cases finite
  · cases finite
  · exact ⟨_, unpack_packedZero⟩
  · exact ⟨_, unpack_packedZero⟩

theorem isZero_eq_false_of_isNaN (undefined : isNaN x = true) : isZero x = false := by
  rw [isNaN_iff] at undefined
  rw [← Bool.not_eq_true, isZero_iff, undefined]
  exact nofun

theorem zero_lt_of_not_isZero (nonneg : lt x 0.0 = false) (number : isNaN x = false) (filled : isZero x = false) :
    lt 0.0 x = true := by
  rw [not_lt_zero_iff] at nonneg
  rw [← Bool.not_eq_true, isZero_iff] at filled
  rw [notANumber_iff] at number
  rw [zero_lt_iff]
  rcases order : side x.toModel.unpack with _ | _ | _ | _
  · exact absurd (notANumber_of_side order) number
  · exact absurd order nonneg
  · exact absurd order filled
  · rfl

theorem add_comm_unpacked (u v : UnpackedFloat) : u.add .binary64 v = v.add .binary64 u := by
  rcases u with s | _ | s | ⟨s, m, e, pos⟩ <;> rcases v with t | _ | t | ⟨t, n, f, pos'⟩ <;>
    simp only [UnpackedFloat.add]
  · cases s <;> cases t <;> rfl
  · cases s <;> cases t <;> rfl
  · rw [min_comm, Int.add_comm]

theorem isZero_add_of_zero_lt (first : lt x 0.0 = false) (second : lt 0.0 y = true) : isZero (x + y) = false := by
  rw [← isZero_add second first]
  have same : (x + y).toModel.unpack = (y + x).toModel.unpack := by
    rw [unpack_add, unpack_add, add_comm_unpacked]
  rw [Bool.eq_iff_iff, isZero_iff, isZero_iff, same]

/-- Two doubles that are not below zero add up to zero only if both are zero. -/
theorem isZero_add_iff (first : lt x 0.0 = false) (second : lt y 0.0 = false) :
    isZero (x + y) = true ↔ isZero x = true ∧ isZero y = true := by
  constructor
  · intro zero
    have number : isNaN (x + y) = false := by
      rw [← Bool.not_eq_true]
      intro undefined
      rw [isZero_eq_false_of_isNaN undefined] at zero
      cases zero
    rw [← Bool.not_eq_true, isNaN_add_iff, not_or, not_or, Bool.not_eq_true, Bool.not_eq_true] at number
    constructor
    · by_contra filled
      have above := zero_lt_of_not_isZero first number.1 (Bool.not_eq_true _ ▸ filled)
      rw [isZero_add above second] at zero
      cases zero
    · by_contra filled
      have above := zero_lt_of_not_isZero second number.2.1 (Bool.not_eq_true _ ▸ filled)
      rw [isZero_add_of_zero_lt first above] at zero
      cases zero
  · rintro ⟨left, right⟩
    obtain ⟨s, left⟩ := unpack_zero_iff.mp left
    obtain ⟨t, right⟩ := unpack_zero_iff.mp right
    rw [unpack_zero_iff, unpack_add, left, right]
    cases s <;> cases t <;> exact ⟨_, unpack_packedZero⟩

theorem isZero_addAll_iff {seed : Float} {xs : List Float} (first : lt seed 0.0 = false)
    (nonneg : ∀ x ∈ xs, lt x 0.0 = false) :
    isZero (addAll seed xs) = true ↔ isZero seed = true ∧ ∀ x ∈ xs, isZero x = true := by
  induction xs generalizing seed with
  | nil => simp [addAll]
  | cons x xs ih =>
    obtain ⟨here, later⟩ := List.forall_mem_cons.mp nonneg
    rw [List.forall_mem_cons, ← and_assoc, ← isZero_add_iff first here]
    exact ih (add_not_lt_zero first here) later

theorem isZero_total_iff {xs : List Float} (nonneg : ∀ x ∈ xs, lt x 0.0 = false) :
    isZero (total xs) = true ↔ ∀ x ∈ xs, isZero x = true :=
  (isZero_addAll_iff rfl nonneg).trans (and_iff_right rfl)

end Vanishing

end ChartOverlay.Double
