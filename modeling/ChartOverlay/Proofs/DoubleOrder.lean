import ChartOverlay.Proofs.DoubleLaws

/-!
# The order of doubles

A double that is not a number is unordered, and what is added to it is none either (`isNaN_add`). All other
doubles stand in a row from one infinity to the other (`lt_iff_place`), the two zeros at one place, so that of
two numbers one is below the other or they are equal.
-/

namespace ChartOverlay.Double

open Float.Model (UnpackedFloat)
open Float.Model.UnpackedFloat

/-- Where a number stands: the finite ones at their units, the infinities around them. -/
def place : UnpackedFloat → WithBot (WithTop ℤ)
  | .infinity .negative => ⊥
  | .infinity .positive => (⊤ : WithTop ℤ)
  | x => ((units x : ℤ) : WithTop ℤ)

theorem place_of_isFinite {x : UnpackedFloat} (finite : x.isFinite) : place x = ((units x : ℤ) : WithTop ℤ) := by
  rcases x with s | _ | s | ⟨s, m, e, pos⟩
  · cases finite
  · cases finite
  · rfl
  · rfl

theorem isFinite_of_number {x : UnpackedFloat} (number : x ≠ .notANumber) :
    x.isFinite = true ∨ ∃ s, x = .infinity s := by
  rcases x with s | _ | s | ⟨s, m, e, pos⟩
  · exact Or.inr ⟨s, rfl⟩
  · exact absurd rfl number
  · exact Or.inl rfl
  · exact Or.inl rfl

theorem compare_infinity {x : UnpackedFloat} (number : x ≠ .notANumber) (s : Sign) :
    (UnpackedFloat.infinity s).compare x = some (compare (place (.infinity s)) (place x)) := by
  have ends : place (.infinity .negative) = ⊥ ∧ place (.infinity .positive) = (⊤ : WithTop ℤ) := ⟨rfl, rfl⟩
  rcases isFinite_of_number number with finite | ⟨t, rfl⟩
  · have infinite : (UnpackedFloat.infinity s).compare x = some (ordering s) := by
      rcases x with _ | _ | t | ⟨t, m, e, pos⟩
      · cases finite
      · cases finite
      · cases s <;> rfl
      · cases s <;> rfl
    rw [infinite, place_of_isFinite finite]
    cases s
    · rw [ends.1, ordering, eq_comm, Option.some_inj, compare_lt_iff_lt]
      exact WithBot.bot_lt_coe _
    · rw [ends.2, ordering, eq_comm, Option.some_inj, compare_gt_iff_gt]
      exact WithBot.coe_lt_coe.mpr (WithTop.coe_lt_top _)
  · have between : (⊥ : WithBot (WithTop ℤ)) < (⊤ : WithTop ℤ) := WithBot.bot_lt_coe _
    cases s <;> cases t
    · exact congrArg some (compare_eq_iff_eq.mpr rfl).symm
    · exact congrArg some (compare_lt_iff_lt.mpr between).symm
    · exact congrArg some (compare_gt_iff_gt.mpr between).symm
    · exact congrArg some (compare_eq_iff_eq.mpr rfl).symm

/-- Numbers compare as their places do. -/
theorem compare_eq_place {x y : UnpackedFloat} (left : IsCanonical x) (right : IsCanonical y)
    (number : x ≠ .notANumber) (number' : y ≠ .notANumber) : x.compare y = some (compare (place x) (place y)) := by
  rcases isFinite_of_number number with finite | ⟨s, rfl⟩
  · rcases isFinite_of_number number' with finite' | ⟨t, rfl⟩
    · rw [compare_eq_units left right finite finite', place_of_isFinite finite, place_of_isFinite finite']
      rcases Int.lt_trichotomy (units x) (units y) with below | same | above
      · rw [Int.compare_eq_lt.mpr below, eq_comm, Option.some_inj, compare_lt_iff_lt]
        exact_mod_cast below
      · rw [same, Int.compare_eq_eq.mpr rfl, eq_comm, Option.some_inj, compare_eq_iff_eq]
      · rw [Int.compare_eq_gt.mpr above, eq_comm, Option.some_inj, compare_gt_iff_gt]
        exact_mod_cast above
    · rw [← compare_swap, compare_infinity number, Option.map_some, ← Std.OrientedCmp.eq_swap]
  · exact compare_infinity number' s

section Floats
variable {x y z : Float}

theorem notANumber_iff : Arith.isNaN x = false ↔ x.toModel.unpack ≠ .notANumber := by
  rw [← Bool.not_eq_true, isNaN_iff]

theorem lt_iff_place (number : Arith.isNaN x = false) (number' : Arith.isNaN y = false) :
    Arith.lt x y = true ↔ place x.toModel.unpack < place y.toModel.unpack := by
  rw [notANumber_iff] at number number'
  rw [lt_eq, beq_iff_eq, compare_eq_place (isCanonical_toModel x) (isCanonical_toModel y) number number',
    Option.some_inj, compare_lt_iff_lt]

theorem eq_iff_place (number : Arith.isNaN x = false) (number' : Arith.isNaN y = false) :
    Arith.eq x y = true ↔ place x.toModel.unpack = place y.toModel.unpack := by
  rw [notANumber_iff] at number number'
  rw [eq_eq, beq_iff_eq, compare_eq_place (isCanonical_toModel x) (isCanonical_toModel y) number number',
    Option.some_inj, compare_eq_iff_eq]

theorem numbers_of_lt (h : Arith.lt x y = true) : Arith.isNaN x = false ∧ Arith.isNaN y = false := by
  constructor
  · rw [← Bool.not_eq_true]
    intro undefined
    rw [lt_of_isNaN (Or.inl undefined)] at h
    cases h
  · rw [← Bool.not_eq_true]
    intro undefined
    rw [lt_of_isNaN (Or.inr undefined)] at h
    cases h

/-- A number lies above the lower of two others or below the higher one. -/
theorem lt_or_lt_of_lt (number : Arith.isNaN y = false) (h : Arith.lt x z = true) :
    Arith.lt x y = true ∨ Arith.lt y z = true := by
  obtain ⟨left, right⟩ := numbers_of_lt h
  rw [lt_iff_place left right] at h
  rw [lt_iff_place left number, lt_iff_place number right]
  apply (lt_or_ge _ _).imp_right
  intro below
  exact below.trans_lt h

theorem le_of_not_lt (number : Arith.isNaN x = false) (number' : Arith.isNaN y = false)
    (h : Arith.lt y x = false) : Arith.le x y = true := by
  rw [← Bool.not_eq_true, lt_iff_place number' number] at h
  rw [Arith.le, Bool.or_eq_true, lt_iff_place number number', eq_iff_place number number']
  exact lt_or_eq_of_le (not_lt.mp h)

/-- What is not a number stays none, whatever it is added to. -/
theorem isNaN_add (undefined : Arith.isNaN y = true) : Arith.isNaN (x + y) = true := by
  rw [isNaN_iff] at undefined ⊢
  have sum : x.toModel.unpack.add .binary64 .notANumber = .notANumber := by
    cases x.toModel.unpack <;> rfl
  rw [unpack_add, undefined, sum]
  exact unpack_packedNaN

end Floats

end ChartOverlay.Double
