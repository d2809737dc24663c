import ChartOverlay.Proofs.Packing

/-!
# Laws of doubles

Doubles obey few laws of arithmetic, and the calculations of the library need these: the order is transitive,
a difference lies on the side of zero that the comparison of its operands gives (`zero_lt_sub`,
`eq_of_isZero_sub`), and what is not below zero stays so under sums, squares and quotients. Finite doubles
are compared as whole multiples of the least one.
-/

namespace ChartOverlay.Double

open Float.Model (Format UnpackedFloat totalExponent)
open Float.Model.UnpackedFloat

/-! ### Comparing -/

theorem toNat_one_append {n : Nat} (v : BitVec n) : (1#1 ++ v).toNat = 2 ^ n + v.toNat := by
  rw [BitVec.toNat_append, ← Nat.shiftLeft_add_eq_or_of_lt v.isLt, Nat.shiftLeft_eq, BitVec.toNat_ofNat]
  simp

/-- A significand of 53 bits, of which only the least exponent allows the first to be missing. -/
def IsCanonical : UnpackedFloat → Prop
  | .finite _ m e _ => m < 2 ^ 53 ∧ -1074 ≤ e ∧ (e = -1074 ∨ 2 ^ 52 ≤ m)
  | _ => True

theorem isCanonical_unpack (b : BitVec Format.binary64.numBits) : IsCanonical (unpack .binary64 b) := by
  have bias : (Format.binary64.exponentBias : Int) = 1023 := rfl
  unfold unpack
  dsimp only
  split
  · split <;> trivial
  · split
    · rename_i least
      split
      · trivial
      · have bound := (unpackMantissa b).isLt
        refine ⟨by dsimp only at bound; omega, ?_⟩
        rw [least, bias]
        simp
    · rename_i above
      have bound := (unpackMantissa b).isLt
      have pos : 0 < (unpackExponent b).toNat := by
        rw [Nat.pos_iff_ne_zero, Ne, ← BitVec.toNat_zero, BitVec.toNat_inj]
        exact above
      rw [IsCanonical, bias, toNat_one_append]
      dsimp only at bound ⊢
      omega

/-- A finite value as a multiple of the least double. -/
def units : UnpackedFloat → Int
  | .finite s m e _ => s.apply (m * 2 ^ (e + 1074).toNat)
  | _ => 0

theorem units_positive {m : Nat} (e : Int) (pos : 0 < m) : 0 < units (.finite .positive m e pos) :=
  Int.mul_pos (by omega) (Int.pow_pos (by decide))

theorem units_negative {m : Nat} (e : Int) (pos : 0 < m) : units (.finite .negative m e pos) < 0 :=
  Int.neg_neg_of_pos (units_positive e pos)

theorem units_zero (s : Sign) : units (.zero s) = 0 := rfl

/-- Of two canonical magnitudes the one with the greater exponent is the greater one. -/
theorem magnitude_lt {m n : Nat} {e f : Int} (bits : m < 2 ^ 53) (least : -1074 ≤ e) (above : e < f)
    (canonical : f = -1074 ∨ 2 ^ 52 ≤ n) :
    (m : Int) * 2 ^ (e + 1074).toNat < n * 2 ^ (f + 1074).toNat := by
  obtain ⟨k, rfl⟩ : ∃ k : Nat, f = e + 1 + k := ⟨(f - e - 1).toNat, by omega⟩
  have exponent : (e + 1 + (k : Int) + 1074).toNat = k + 1 + (e + 1074).toNat := by omega
  have wide : 2 ^ 52 ≤ n := canonical.resolve_left (by omega)
  have factor : 2 ^ 1 ≤ 2 ^ (k + 1) := Nat.pow_le_pow_right Nat.two_pos (by omega)
  have product := Nat.mul_le_mul wide factor
  have scaled : m < n * 2 ^ (k + 1) := by omega
  rw [exponent, Int.pow_add, ← Int.mul_assoc]
  exact Int.mul_lt_mul_of_pos_right (by exact_mod_cast scaled) (Int.pow_pos (by decide))

/-- Canonical magnitudes compare by exponent first. -/
theorem compare_magnitude {m n : Nat} {e f : Int}
    (left : m < 2 ^ 53 ∧ -1074 ≤ e ∧ (e = -1074 ∨ 2 ^ 52 ≤ m))
    (right : n < 2 ^ 53 ∧ -1074 ≤ f ∧ (f = -1074 ∨ 2 ^ 52 ≤ n)) :
    (compare e f).then (compare m n) =
      compare ((m : Int) * 2 ^ (e + 1074).toNat) (n * 2 ^ (f + 1074).toNat) := by
  rcases Int.lt_trichotomy e f with below | rfl | above
  · rw [Int.compare_eq_lt.mpr below, Int.compare_eq_lt.mpr (magnitude_lt left.1 left.2.1 below right.2.2)]
    rfl
  · have factor : (0 : Int) < 2 ^ (e + 1074).toNat := Int.pow_pos (by decide)
    rw [Int.compare_eq_eq.mpr rfl, Ordering.eq_then]
    rcases Nat.lt_trichotomy m n with below | rfl | above
    · rw [Nat.compare_eq_lt.mpr below,
        Int.compare_eq_lt.mpr (Int.mul_lt_mul_of_pos_right (Int.ofNat_lt.mpr below) factor)]
    · rw [Nat.compare_eq_eq.mpr rfl, Int.compare_eq_eq.mpr rfl]
    · rw [Nat.compare_eq_gt.mpr above,
        Int.compare_eq_gt.mpr (Int.mul_lt_mul_of_pos_right (Int.ofNat_lt.mpr above) factor)]
  · rw [Int.compare_eq_gt.mpr above, Int.compare_eq_gt.mpr (magnitude_lt right.1 right.2.1 above left.2.2)]
    rfl

theorem compare_neg (a b : Int) : compare (-a) (-b) = (compare a b).swap := by
  rw [Int.compare_swap]
  rcases Int.lt_trichotomy a b with below | rfl | above
  · rw [Int.compare_eq_gt.mpr below, Int.compare_eq_gt.mpr (Int.neg_lt_neg below)]
  · rw [Int.compare_eq_eq.mpr rfl, Int.compare_eq_eq.mpr rfl]
  · rw [Int.compare_eq_lt.mpr above, Int.compare_eq_lt.mpr (Int.neg_lt_neg above)]

/-- Finite values compare as their multiples of the least double. -/
theorem compare_eq_units {x y : UnpackedFloat} (left : IsCanonical x) (right : IsCanonical y)
    (finite : x.isFinite) (finite' : y.isFinite) : x.compare y = some (compare (units x) (units y)) := by
  rcases x with s | _ | s | ⟨_ | _, m, e, pos⟩
  · cases finite
  · cases finite
  · rcases y with t | _ | t | ⟨_ | _, n, f, pos⟩
    · cases finite'
    · cases finite'
    · rfl
    · exact congrArg some (Int.compare_eq_gt.mpr (units_negative f pos)).symm
    · exact congrArg some (Int.compare_eq_lt.mpr (units_positive f pos)).symm
  · rcases y with t | _ | t | ⟨_ | _, n, f, pos'⟩
    · cases finite'
    · cases finite'
    · exact congrArg some (Int.compare_eq_lt.mpr (units_negative e pos)).symm
    · simp only [UnpackedFloat.compare, compare_magnitude left right, units, Sign.apply, compare_neg]
    · exact congrArg some
        (Int.compare_eq_lt.mpr (Int.lt_trans (units_negative e pos) (units_positive f pos'))).symm
  · rcases y with t | _ | t | ⟨_ | _, n, f, pos'⟩
    · cases finite'
    · cases finite'
    · exact congrArg some (Int.compare_eq_gt.mpr (units_positive e pos)).symm
    · exact congrArg some
        (Int.compare_eq_gt.mpr (Int.lt_trans (units_negative f pos') (units_positive e pos))).symm
    · simp only [UnpackedFloat.compare, compare_magnitude left right, units, Sign.apply]

/-! ### Sums and differences -/

theorem isRounded_round (s : Sign) (m : Nat) (e : Int) : IsRounded (round .binary64 s m e) :=
  isRounded_roundWithAccuracy _ _ _ _

theorem side_round {s : Sign} {m : Nat} {e : Int} (pos : 0 < m) (least : -1074 ≤ e) :
    side (round .binary64 s m e) = some (ordering s) := by
  have target : -1074 ≤ Format.binary64.targetExponent (totalExponent m e) := by
    show -1074 ≤ max (_ - 53) (-1074)
    omega
  unfold UnpackedFloat.round decreaseExponent
  dsimp only
  refine side_roundWithAccuracy_of_pos ?_ ?_ .exact
  · rw [Nat.shiftLeft_eq]
    exact Nat.mul_pos pos (Nat.two_pow_pos _)
  · omega

/-- Normalizing rounds a multiple of a power of two, and keeps the side of zero on which it lies. -/
theorem normalize_spec (m : Int) {e : Int} (least : -1074 ≤ e) (s : Sign) :
    IsRounded (normalize .binary64 m e s) ∧ side (normalize .binary64 m e s) = some (compare m 0) := by
  unfold UnpackedFloat.normalize
  rcases Int.lt_trichotomy m 0 with below | rfl | above
  · rw [Int.compare_eq_lt.mpr below]
    exact ⟨isRounded_round _ _ _, side_round (by omega) least⟩
  · exact ⟨trivial, rfl⟩
  · rw [Int.compare_eq_gt.mpr above]
    exact ⟨isRounded_round _ _ _, side_round (by omega) least⟩

/-- Scaling down to a smaller exponent. -/
theorem units_eq_lowered {s : Sign} {m : Nat} {e l : Int} (pos : 0 < m) (least : -1074 ≤ l) (le : l ≤ e) :
    units (.finite s m e pos) = s.apply (decreaseExponent m e l).1 * 2 ^ (l + 1074).toNat := by
  have exponent : (e + 1074).toNat = (e - l).toNat + (l + 1074).toNat := by omega
  unfold decreaseExponent
  cases s <;> simp only [units, Sign.apply, exponent, Nat.shiftLeft_eq] <;> push_cast <;> ring

theorem side_units {x : UnpackedFloat} (finite : x.isFinite) : side x = some (compare (units x) 0) := by
  rcases x with s | _ | s | ⟨_ | _, m, e, pos⟩
  · cases finite
  · cases finite
  · rfl
  · exact congrArg some (Int.compare_eq_lt.mpr (units_negative e pos)).symm
  · exact congrArg some (Int.compare_eq_gt.mpr (units_positive e pos)).symm

theorem compare_mul_pos {a b : Int} (pos : 0 < b) : compare (a * b) 0 = compare a 0 := by
  rcases Int.lt_trichotomy a 0 with below | rfl | above
  · rw [Int.compare_eq_lt.mpr below, Int.compare_eq_lt.mpr (Int.mul_neg_of_neg_of_pos below pos)]
  · rw [Int.zero_mul]
  · rw [Int.compare_eq_gt.mpr above, Int.compare_eq_gt.mpr (Int.mul_pos above pos)]

theorem isRounded_of_isCanonical {x : UnpackedFloat} (h : IsCanonical x) : IsRounded x := by
  rcases x with s | _ | s | ⟨s, m, e, pos⟩
  · trivial
  · trivial
  · trivial
  · exact ⟨h.1, h.2.1⟩

theorem isRounded_add {x y : UnpackedFloat} (left : IsCanonical x) (right : IsCanonical y) :
    IsRounded (x.add .binary64 y) := by
  rcases x with (_ | _) | _ | (_ | _) | ⟨s, m, e, pos⟩ <;>
    rcases y with (_ | _) | _ | (_ | _) | ⟨t, n, f, pos'⟩ <;>
    first
    | trivial
    | exact isRounded_of_isCanonical left
    | exact isRounded_of_isCanonical right
    | have least : -1074 ≤ min e f := by have := left.2.1; have := right.2.1; omega
      exact (normalize_spec _ least _).1

/-- A sum lies on the side of zero on which the exact sum lies. -/
theorem side_add {x y : UnpackedFloat} (left : IsCanonical x) (right : IsCanonical y) (finite : x.isFinite)
    (finite' : y.isFinite) : side (x.add .binary64 y) = some (compare (units x + units y) 0) := by
  rcases x with s | _ | s | ⟨s, m, e, pos⟩
  · cases finite
  · cases finite
  · rcases y with t | _ | t | ⟨t, n, f, pos'⟩
    · cases finite'
    · cases finite'
    · cases s <;> cases t <;> rfl
    · rw [units_zero, Int.zero_add]
      exact side_units rfl
  · rcases y with t | _ | t | ⟨t, n, f, pos'⟩
    · cases finite'
    · cases finite'
    · rw [units_zero, Int.add_zero]
      exact side_units rfl
    · have least : -1074 ≤ min e f := by have := left.2.1; have := right.2.1; omega
      rw [units_eq_lowered pos least (by omega), units_eq_lowered pos' least (by omega), ← Int.add_mul,
        compare_mul_pos (Int.pow_pos (by decide))]
      exact (normalize_spec _ least _).2

theorem sub_eq_add_neg (spec : Format) (x y : UnpackedFloat) : x.sub spec y = x.add spec y.neg := by
  rcases x with s | _ | s | ⟨s, m, e, pos⟩ <;> rcases y with t | _ | t | ⟨_ | _, n, f, pos'⟩ <;>
    first
    | rfl
    | simp [UnpackedFloat.sub, UnpackedFloat.add, UnpackedFloat.neg, Sign.apply]

theorem units_neg (x : UnpackedFloat) : units x.neg = -units x := by
  rcases x with s | _ | s | ⟨_ | _, m, e, pos⟩
  · rfl
  · rfl
  · rfl
  · exact (Int.neg_neg _).symm
  · rfl

theorem isCanonical_neg {x : UnpackedFloat} (h : IsCanonical x) : IsCanonical x.neg := by
  cases x <;> exact h

theorem isFinite_neg (x : UnpackedFloat) : x.neg.isFinite = x.isFinite := by
  cases x <;> rfl

theorem isRounded_sub {x y : UnpackedFloat} (left : IsCanonical x) (right : IsCanonical y) :
    IsRounded (x.sub .binary64 y) :=
  sub_eq_add_neg _ x y ▸ isRounded_add left (isCanonical_neg right)

theorem compare_sub (a b : Int) : compare (a - b) 0 = compare a b := by
  rcases Int.lt_trichotomy a b with below | rfl | above
  · rw [Int.compare_eq_lt.mpr below, Int.compare_eq_lt.mpr (by omega)]
  · rw [Int.compare_eq_eq.mpr rfl, Int.compare_eq_eq.mpr (by omega)]
  · rw [Int.compare_eq_gt.mpr above, Int.compare_eq_gt.mpr (by omega)]

/-- A difference lies on the side of zero that the comparison of its operands gives; equal infinities have
none. -/
theorem side_sub {x y : UnpackedFloat} (left : IsCanonical x) (right : IsCanonical y) :
    side (x.sub .binary64 y) = x.compare y ∨ side (x.sub .binary64 y) = none ∧ x.compare y = some .eq := by
  by_cases finite : x.isFinite ∧ y.isFinite
  · have sum := side_add left (isCanonical_neg right) finite.1 ((isFinite_neg y).trans finite.2)
    rw [sub_eq_add_neg, sum, units_neg, Int.add_neg_eq_sub, compare_sub,
      compare_eq_units left right finite.1 finite.2]
    exact Or.inl rfl
  · rcases x with (_ | _) | _ | s | ⟨_ | _, m, e, pos⟩ <;>
      rcases y with (_ | _) | _ | t | ⟨_ | _, n, f, pos'⟩ <;>
      first
      | exact Or.inl rfl
      | exact Or.inr ⟨rfl, rfl⟩
      | exact absurd ⟨rfl, rfl⟩ finite

/-- What is off one side of zero stays off it under addition. -/
theorem side_add_ne {r : Sign} {x y : UnpackedFloat} (left : IsCanonical x) (right : IsCanonical y)
    (first : side x ≠ some (ordering r)) (second : side y ≠ some (ordering r)) :
    side (x.add .binary64 y) ≠ some (ordering r) := by
  by_cases finite : x.isFinite ∧ y.isFinite
  · rw [side_units finite.1, Ne, Option.some_inj] at first
    rw [side_units finite.2, Ne, Option.some_inj] at second
    rw [side_add left right finite.1 finite.2, Ne, Option.some_inj]
    cases r
    · rw [ordering, Int.compare_eq_lt] at first second ⊢
      omega
    · rw [ordering, Int.compare_eq_gt] at first second ⊢
      omega
  · cases r <;> rcases x with (_ | _) | _ | s | ⟨_ | _, m, e, pos⟩ <;>
      rcases y with (_ | _) | _ | t | ⟨_ | _, n, f, pos'⟩ <;>
      first
      | exact absurd rfl first
      | exact absurd rfl second
      | exact absurd ⟨rfl, rfl⟩ finite
      | exact nofun

/-- What is above zero does not vanish under the addition of something that is not below zero. -/
theorem side_add_ne_eq {x y : UnpackedFloat} (left : IsCanonical x) (right : IsCanonical y)
    (first : side x = some .gt) (second : side y ≠ some .lt) : side (x.add .binary64 y) ≠ some .eq := by
  by_cases finite : x.isFinite ∧ y.isFinite
  · rw [side_units finite.1, Option.some_inj, Int.compare_eq_gt] at first
    rw [side_units finite.2, Ne, Option.some_inj, Int.compare_eq_lt] at second
    rw [side_add left right finite.1 finite.2, Ne, Option.some_inj, Int.compare_eq_eq]
    omega
  · rcases x with (_ | _) | _ | s | ⟨_ | _, m, e, pos⟩ <;>
      rcases y with (_ | _) | _ | t | ⟨_ | _, n, f, pos'⟩ <;>
      first
      | exact absurd rfl second
      | exact absurd ⟨rfl, rfl⟩ finite
      | exact nofun

theorem side_roundWithAccuracy_ne {r s : Sign} (apart : ordering s ≠ ordering r) (m : Nat) (e : Int)
    (accuracy : Accuracy) : side (roundWithAccuracy .binary64 s m e accuracy) ≠ some (ordering r) := by
  intro there
  rcases side_roundWithAccuracy s m e accuracy with zero | kept
  · cases r <;> cases zero.symm.trans there
  · exact apart (Option.some.inj (kept.symm.trans there))

theorem side_mul_self (x : UnpackedFloat) :
    IsRounded (x.mul .binary64 x) ∧ side (x.mul .binary64 x) ≠ some .lt := by
  rcases x with (_ | _) | _ | s | ⟨s, m, e, pos⟩
  · exact ⟨trivial, nofun⟩
  · exact ⟨trivial, nofun⟩
  · exact ⟨trivial, nofun⟩
  · exact ⟨trivial, nofun⟩
  · have square : ordering (s * s) ≠ ordering .negative := by cases s <;> decide
    exact ⟨isRounded_roundWithAccuracy _ _ _ _, side_roundWithAccuracy_ne square _ _ _⟩

/-- What is off one side of zero stays off it when it is divided by something of positive sign. -/
theorem side_div {r : Sign} {x y : UnpackedFloat} (first : side x ≠ some (ordering r))
    (second : signOf y ≠ some .negative) :
    IsRounded (x.div .binary64 y) ∧ side (x.div .binary64 y) ≠ some (ordering r) := by
  cases r <;> rcases x with (_ | _) | _ | s | ⟨_ | _, m, e, pos⟩ <;>
    rcases y with (_ | _) | _ | (_ | _) | ⟨_ | _, n, f, pos'⟩ <;>
    first
    | exact absurd rfl first
    | exact absurd rfl second
    | exact ⟨trivial, fun there => by cases there⟩
    | exact ⟨isRounded_roundWithAccuracy _ _ _ _, side_roundWithAccuracy_ne (by decide) _ _ _⟩

/-! ### The operations on doubles -/

theorem isCanonical_toModel (x : Float) : IsCanonical x.toModel.unpack := isCanonical_unpack _

theorem unpack_zero : (0.0 : Float).toModel.unpack = .zero .positive := rfl

theorem unpack_add (x y : Float) : (x + y).toModel.unpack =
    unpack .binary64 (pack .binary64 (x.toModel.unpack.add .binary64 y.toModel.unpack)) := rfl

theorem unpack_sub (x y : Float) : (x - y).toModel.unpack =
    unpack .binary64 (pack .binary64 (x.toModel.unpack.sub .binary64 y.toModel.unpack)) := rfl

theorem unpack_mul (x y : Float) : (x * y).toModel.unpack =
    unpack .binary64 (pack .binary64 (x.toModel.unpack.mul .binary64 y.toModel.unpack)) := rfl

theorem unpack_div (x y : Float) : (x / y).toModel.unpack =
    unpack .binary64 (pack .binary64 (x.toModel.unpack.div .binary64 y.toModel.unpack)) := rfl

theorem eq_eq (x y : Float) : Arith.eq x y = (x.toModel.unpack.compare y.toModel.unpack == some .eq) := rfl

theorem isNaN_iff {x : Float} : Arith.isNaN x = true ↔ x.toModel.unpack = .notANumber := by
  show x.toModel.unpack.isNaN = true ↔ _
  cases x.toModel.unpack <;> simp [UnpackedFloat.isNaN]

theorem lt_zero_iff {x : Float} : Arith.lt x 0.0 = true ↔ side x.toModel.unpack = some .lt := by
  rw [lt_eq, beq_iff_eq, unpack_zero, side]

theorem not_lt_zero_iff {x : Float} : Arith.lt x 0.0 = false ↔ side x.toModel.unpack ≠ some .lt := by
  rw [← Bool.not_eq_true, lt_zero_iff]

theorem zero_lt_iff {x : Float} : Arith.lt 0.0 x = true ↔ side x.toModel.unpack = some .gt := by
  rw [lt_eq, beq_iff_eq, ← compare_swap, unpack_zero, ← side]
  rcases side x.toModel.unpack with _ | _ | _ | _ <;> simp

theorem isZero_iff {x : Float} : Arith.isZero x = true ↔ side x.toModel.unpack = some .eq := by
  rw [Arith.isZero, eq_eq, beq_iff_eq, unpack_zero, side]

theorem isZero_of_zero_lt {x : Float} (above : Arith.lt 0.0 x = true) : Arith.isZero x = false := by
  rw [zero_lt_iff] at above
  rw [← Bool.not_eq_true, isZero_iff, above]
  exact nofun

/-- The difference of two doubles is above zero if the first is above the second. -/
theorem zero_lt_sub {x y : Float} (h : Arith.lt y x = true) : Arith.lt 0.0 (x - y) = true := by
  have left := isCanonical_toModel x
  have right := isCanonical_toModel y
  rw [lt_eq, beq_iff_eq] at h
  have order : x.toModel.unpack.compare y.toModel.unpack = some .gt := by rw [← compare_swap, h]; rfl
  rw [zero_lt_iff, unpack_sub, side_unpack_pack (isRounded_sub left right)]
  rcases side_sub left right with same | ⟨-, equal⟩
  · rw [same, order]
  · rw [order] at equal
    cases equal

/-- A difference vanishes only between equals. -/
theorem eq_of_isZero_sub {x y : Float} (h : Arith.isZero (x - y) = true) : Arith.eq x y = true := by
  have left := isCanonical_toModel x
  have right := isCanonical_toModel y
  rw [isZero_iff, unpack_sub, side_unpack_pack (isRounded_sub left right)] at h
  rw [eq_eq, beq_iff_eq]
  rcases side_sub left right with same | ⟨-, equal⟩
  · rw [← same, h]
  · exact equal

theorem add_not_lt_zero {x y : Float} (first : Arith.lt x 0.0 = false) (second : Arith.lt y 0.0 = false) :
    Arith.lt (x + y) 0.0 = false := by
  have left := isCanonical_toModel x
  have right := isCanonical_toModel y
  rw [not_lt_zero_iff] at first second ⊢
  rw [unpack_add, side_unpack_pack (isRounded_add left right)]
  exact side_add_ne (r := .negative) left right first second

theorem isZero_add {x y : Float} (first : Arith.lt 0.0 x = true) (second : Arith.lt y 0.0 = false) :
    Arith.isZero (x + y) = false := by
  have left := isCanonical_toModel x
  have right := isCanonical_toModel y
  rw [zero_lt_iff] at first
  rw [not_lt_zero_iff] at second
  rw [← Bool.not_eq_true, isZero_iff, unpack_add, side_unpack_pack (isRounded_add left right)]
  exact side_add_ne_eq left right first second

theorem mul_self_not_lt_zero (x : Float) : Arith.lt (x * x) 0.0 = false := by
  have ⟨rounded, above⟩ := side_mul_self x.toModel.unpack
  rw [not_lt_zero_iff, unpack_mul, side_unpack_pack rounded]
  exact above

theorem div_not_lt_zero {x y : Float} (first : Arith.lt x 0.0 = false)
    (second : signOf y.toModel.unpack ≠ some .negative) : Arith.lt (x / y) 0.0 = false := by
  rw [not_lt_zero_iff] at first
  have ⟨rounded, above⟩ := side_div (r := .negative) first second
  rw [not_lt_zero_iff, unpack_div, side_unpack_pack rounded]
  exact above

theorem div_not_zero_lt {x y : Float} (first : Arith.lt 0.0 x = false)
    (second : signOf y.toModel.unpack ≠ some .negative) : Arith.lt 0.0 (x / y) = false := by
  rw [← Bool.not_eq_true, zero_lt_iff] at first ⊢
  have ⟨rounded, below⟩ := side_div (r := .positive) first second
  rw [unpack_div, side_unpack_pack rounded]
  exact below

theorem notANumber_of_side {x : UnpackedFloat} (h : side x = none) : x = .notANumber := by
  rcases x with (_ | _) | _ | (_ | _) | ⟨_ | _, m, e, pos⟩ <;>
    first
    | rfl
    | cases h

/-- A root of what is above zero does not vanish: the least double has a root far above it. -/
theorem side_sqrt {x : UnpackedFloat} (canonical : IsCanonical x) (above : side x = some .gt) :
    IsRounded (x.sqrt .binary64) ∧ side (x.sqrt .binary64) = some .gt := by
  rcases x with (_ | _) | _ | s | ⟨_ | _, m, e, pos⟩
  · cases above
  · exact ⟨trivial, rfl⟩
  · cases above
  · cases s <;> cases above
  · cases above
  · have least := canonical.2.1
    refine ⟨isRounded_roundWithAccuracy _ _ _ _, side_roundWithAccuracy_of_pos ?_ ?_ _⟩
    · show 0 < (m <<< _).sqrt
      rw [Nat.sqrt_pos, Nat.shiftLeft_eq]
      exact Nat.mul_pos pos (Nat.two_pow_pos _)
    · have half : -1074 ≤ e.ediv 2 := by
        show -1074 ≤ e / 2
        omega
      have target : -1074 ≤ min (e.ediv 2) (max ((totalExponent m e + 1).ediv 2 - 53) (-1074)) := by omega
      exact Int.le_trans target (Int.le_add_of_nonneg_right (Int.natCast_nonneg _))

theorem unpack_sqrt (x : Float) : (Float.sqrt x).toModel.unpack =
    unpack .binary64 (pack .binary64 (x.toModel.unpack.sqrt .binary64)) := rfl

theorem isZero_sqrt {x : Float} (above : Arith.le x 0.0 = false) : Arith.isZero (Arith.sqrt x) = false := by
  obtain ⟨notBelow, notZero⟩ := Bool.or_eq_false_iff.mp above
  rw [not_lt_zero_iff] at notBelow
  rw [← Arith.isZero, ← Bool.not_eq_true, isZero_iff] at notZero
  rw [← Bool.not_eq_true, isZero_iff]
  show side (Float.sqrt x).toModel.unpack ≠ _
  rw [unpack_sqrt]
  have canonical := isCanonical_toModel x
  rcases order : side x.toModel.unpack with _ | _ | _ | _
  · rw [notANumber_of_side order, UnpackedFloat.sqrt, pack, unpack_packedNaN]
    exact nofun
  · exact absurd order notBelow
  · exact absurd order notZero
  · have ⟨rounded, kept⟩ := side_sqrt canonical order
    rw [side_unpack_pack rounded, kept]
    exact nofun

theorem compare_notANumber (x : UnpackedFloat) : x.compare .notANumber = none := by
  cases x <;> rfl

theorem lt_of_isNaN {x y : Float} (h : Arith.isNaN x = true ∨ Arith.isNaN y = true) :
    Arith.lt x y = false := by
  rw [isNaN_iff, isNaN_iff] at h
  rcases h with undefined | undefined
  · rw [lt_eq, undefined]
    rfl
  · rw [lt_eq, undefined, compare_notANumber]
    rfl

theorem compare_trans {x y z : UnpackedFloat} (left : IsCanonical x) (middle : IsCanonical y)
    (right : IsCanonical z) (first : x.compare y = some .lt) (second : y.compare z = some .lt) :
    x.compare z = some .lt := by
  by_cases finite : x.isFinite ∧ y.isFinite ∧ z.isFinite
  · rw [compare_eq_units left middle finite.1 finite.2.1, Option.some_inj, Int.compare_eq_lt] at first
    rw [compare_eq_units middle right finite.2.1 finite.2.2, Option.some_inj, Int.compare_eq_lt] at second
    rw [compare_eq_units left right finite.1 finite.2.2, Option.some_inj, Int.compare_eq_lt]
    exact Int.lt_trans first second
  · rcases x with (_ | _) | _ | s | ⟨_ | _, m, e, pos⟩ <;>
      rcases z with (_ | _) | _ | u | ⟨_ | _, k, g, pos'⟩ <;>
      first
      | rfl
      | (rcases y with (_ | _) | _ | t | ⟨_ | _, n, f, pos''⟩ <;>
          first
          | (cases first; done)
          | cases second
          | exact absurd ⟨rfl, rfl, rfl⟩ finite)

theorem lt_trans {x y z : Float} (first : Arith.lt x y = true) (second : Arith.lt y z = true) :
    Arith.lt x z = true := by
  rw [lt_eq, beq_iff_eq] at first second ⊢
  exact compare_trans (isCanonical_toModel x) (isCanonical_toModel y) (isCanonical_toModel z) first second

theorem signOf_roundWithAccuracy (s : Sign) (m : Nat) (e : Int) (accuracy : Accuracy) :
    signOf (roundWithAccuracy .binary64 s m e accuracy) = some s := by
  unfold roundWithAccuracy
  dsimp only
  split <;> rfl

theorem signOf_mul_cases (x y : UnpackedFloat) : signOf (x.mul .binary64 y) = none ∨
    ∃ s t, signOf x = some s ∧ signOf y = some t ∧ signOf (x.mul .binary64 y) = some (s * t) := by
  rcases x with s | _ | s | ⟨s, m, e, pos⟩ <;> rcases y with t | _ | t | ⟨t, n, f, pos'⟩ <;>
    first
    | exact Or.inl rfl
    | exact Or.inr ⟨s, t, rfl, rfl, rfl⟩
    | exact Or.inr ⟨s, t, rfl, rfl, signOf_roundWithAccuracy _ _ _ _⟩

theorem signOf_mul {x y : UnpackedFloat} (first : signOf x ≠ some .negative)
    (second : signOf y ≠ some .negative) :
    signOf (x.mul .binary64 y) ≠ some .negative := by
  rcases signOf_mul_cases x y with none | ⟨_ | _, _ | _, left, right, product⟩
  · rw [none]
    exact nofun
  · exact absurd left first
  · exact absurd left first
  · exact absurd right second
  · rw [product]
    exact nofun

/-- A square keeps the sign of what it is scaled by. -/
theorem signOf_mul_mul {c : Float} (positive : signOf c.toModel.unpack = some .positive) (x : Float) :
    signOf (c * x * x).toModel.unpack ≠ some .negative := by
  rw [unpack_mul, signOf_unpack_pack]
  rcases signOf_mul_cases (c * x).toModel.unpack x.toModel.unpack with none | ⟨s, t, left, right, product⟩
  · rw [none]
    exact nofun
  rw [unpack_mul, signOf_unpack_pack] at left
  rcases signOf_mul_cases c.toModel.unpack x.toModel.unpack with none | ⟨s', t', left', right', product'⟩
  · rw [none] at left
    cases left
  · obtain rfl := Option.some.inj (positive.symm.trans left')
    obtain rfl := Option.some.inj (right.symm.trans right')
    obtain rfl := Option.some.inj (product'.symm.trans left)
    rw [product]
    cases t <;> exact nofun

theorem signOf_normalize {m : Int} (h : 0 ≤ m) (e : Int) :
    signOf (normalize .binary64 m e .positive) = some .positive := by
  unfold UnpackedFloat.normalize
  rcases Int.lt_or_eq_of_le h with above | rfl
  · rw [Int.compare_eq_gt.mpr above]
    exact signOf_roundWithAccuracy _ _ _ _
  · rfl

theorem ofInt_sign {n : Int} (h : 0 ≤ n) :
    signOf (Arith.ofInt n : Float).toModel.unpack ≠ some .negative := by
  obtain ⟨k, rfl⟩ := Int.eq_ofNat_of_zero_le h
  show signOf (Float.ofScientific k false 0).toModel.unpack ≠ some .negative
  unfold Float.ofScientific
  dsimp only
  split
  · rw [if_neg (by decide), unpack_mul, signOf_unpack_pack]
    refine signOf_mul ?_ (nofun : signOf (Float.ofBits 0x3FF0000000000000).toModel.unpack ≠ some .negative)
    show signOf (unpack .binary64 (pack .binary64 (normalize .binary64 _ 0 .positive))) ≠ _
    rw [signOf_unpack_pack, signOf_normalize (Int.natCast_nonneg _)]
    exact nofun
  · show signOf (unpack .binary64 (pack .binary64 (ofScientific .binary64 k 0))) ≠ _
    rw [signOf_unpack_pack]
    unfold ofScientific
    by_cases zero : k = 0
    · rw [dif_pos zero]
      exact nofun
    · have power : (0 : Int) ≤ 2 ^ Format.binary64.exponentBits := by decide
      rw [dif_neg zero, if_neg (by decide), if_neg (by omega), if_pos (Int.le_refl 0)]
      exact signOf_mul nofun nofun

end ChartOverlay.Double
