import ChartOverlay.Arith.Double

/-!
# Comparing doubles

What the theorems on doubles rest on: `lt_asymm` follows from the comparison of unpacked values, which
turns around with its operands and is undefined where a value is not a number.
-/

namespace ChartOverlay.Double

open Float.Model (UnpackedFloat)
open Float.Model.UnpackedFloat (Sign)

theorem sign_swap (s t : Sign) : (compare s t).swap = compare t s := by
  cases s <;> cases t <;> rfl

/-- Magnitudes compare by exponent and then by significand. -/
theorem magnitude_swap (m n : Nat) (e f : Int) :
    ((compare e f).then (compare m n)).swap = (compare f e).then (compare n m) := by
  rw [Ordering.swap_then, ← Int.compare_swap, ← Nat.compare_swap, Ordering.swap_swap, Ordering.swap_swap]

theorem compare_swap (x y : UnpackedFloat) : (x.compare y).map Ordering.swap = y.compare x := by
  rcases x with (_ | _) | _ | (_ | _) | ⟨_ | _, m, e, _⟩ <;>
    rcases y with (_ | _) | _ | (_ | _) | ⟨_ | _, n, f, _⟩ <;>
    dsimp only [UnpackedFloat.compare] <;>
    simp [magnitude_swap, sign_swap]

theorem lt_eq (x y : Float) :
    Arith.lt x y = (x.toModel.unpack.compare y.toModel.unpack == some .lt) := by
  show decide ((x.toModel.unpack.compare y.toModel.unpack == some .lt) = true) = _
  rw [Bool.decide_eq_true]

/-- Of two doubles at most one is below the other. -/
theorem lt_asymm {x y : Float} (h : Arith.lt x y = true) : Arith.lt y x = false := by
  rw [lt_eq, beq_iff_eq] at h
  rw [lt_eq, ← compare_swap, h]
  rfl

end ChartOverlay.Double
