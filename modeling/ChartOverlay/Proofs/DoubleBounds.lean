import Mathlib
import ChartOverlay.Proofs.DoubleNearest

/-!
# Bounds on doubles

An operation on finite doubles gives its exact result, rounded once, unless that is too large: `IsResult`. Rounding
never passes a double, so whatever double bounds the exact result bounds the rounded one, without any error term
(`IsResult.le`, `IsResult.isWithin`). Where an error term is wanted, it is a small share of the exact result
(`IsResult.near`).
-/

namespace ChartOverlay.Double

open Float.Model (Format UnpackedFloat totalExponent)
open Float.Model.UnpackedFloat

/-! ### Rounded values -/

/-- A rational number that a finite double has. -/
def IsDouble (c : ℚ) : Prop := ∃ n f : Int, |n| < 2 ^ 53 ∧ -1074 ≤ f ∧ f ≤ 971 ∧ c = n * 2 ^ f

theorem IsDouble.neg {c : ℚ} (h : IsDouble c) : IsDouble (-c) := by
  obtain ⟨n, f, bits, least, top, rfl⟩ := h
  exact ⟨-n, f, by rwa [abs_neg], least, top, by push_cast; ring⟩

/-- Whole numbers of 53 bits times a power of two, far from the ends of the range. -/
theorem isDouble_mul_pow {n k : Nat} (bits : n < 2 ^ 53) (top : k ≤ 971) : IsDouble (n * 2 ^ k) :=
  ⟨n, k, by rw [Nat.abs_cast]; exact_mod_cast bits, by omega, by omega, by push_cast; rfl⟩

theorem isDouble_natCast {n : Nat} (bits : n < 2 ^ 53) : IsDouble n := by
  simpa using isDouble_mul_pow bits (Nat.zero_le 971)

theorem isDouble_zero : IsDouble 0 := isDouble_natCast (n := 0) (by norm_num)

theorem isDouble_one : IsDouble 1 := by simpa using isDouble_natCast (n := 1) (by norm_num)

theorem isDouble_pow {k : Nat} (top : k ≤ 971) : IsDouble (2 ^ k) := by
  simpa using isDouble_mul_pow (n := 1) (by norm_num) top

theorem isDouble_intCast {n : Int} (bits : |n| < 2 ^ 53) : IsDouble n :=
  ⟨n, 0, bits, by norm_num, by norm_num, by rw [zpow_zero, mul_one]⟩

/-- A power above the greatest exponent takes some of the 53 bits. -/
theorem isDouble_zpow {z : Int} (least : -1074 ≤ z) (top : z ≤ 1023) : IsDouble (2 ^ z) := by
  refine ⟨2 ^ (z - 971).toNat, min z 971, ?_, by omega, by omega, ?_⟩
  · rw [abs_of_pos (by positivity)]
    exact pow_lt_pow_right₀ (by norm_num) (by omega)
  · rw [Int.cast_pow, Int.cast_ofNat, ← zpow_natCast, ← zpow_add₀ (by norm_num)]
    congr 1
    omega

theorem IsDouble.lt_top {c : ℚ} (h : IsDouble c) : c < 2 ^ (1024 : ℤ) := by
  obtain ⟨n, f, bits, -, top, rfl⟩ := h
  have upper : (n : ℚ) < 2 ^ (53 : ℤ) := by exact_mod_cast lt_of_abs_lt bits
  calc (n * 2 ^ f : ℚ)
    _ < 2 ^ (53 : ℤ) * 2 ^ f := mul_lt_mul_of_pos_right upper (by positivity)
    _ = 2 ^ (53 + f) := by rw [zpow_add₀ (by norm_num)]
    _ ≤ 2 ^ (1024 : ℤ) := zpow_le_zpow_right₀ (by norm_num) (by omega)

section Rounding
variable {r : ℚ} {u : UnpackedFloat}

theorem Rounds.le {c : ℚ} (h : Rounds r u) (double : IsDouble c) (below : r ≤ c) : value u ≤ c := by
  obtain ⟨n, f, bits, least, -, rfl⟩ := double
  by_contra above
  have nearest := h.abs_le bits least
  rw [abs_of_pos (by linarith), abs_of_nonneg (by linarith)] at nearest
  linarith

theorem Rounds.ge {c : ℚ} (h : Rounds r u) (double : IsDouble c) (above : c ≤ r) : c ≤ value u := by
  obtain ⟨n, f, bits, least, -, rfl⟩ := double
  by_contra below
  have nearest := h.abs_le bits least
  rw [abs_of_neg (by linarith), abs_of_nonpos (by linarith)] at nearest
  linarith

theorem rounds_self (u : UnpackedFloat) : Rounds (value u) u := by
  intro n f _ _
  by_cases same : (n * 2 ^ f : ℚ) = value u
  · exact Or.inr (Or.inl same)
  · left
    rw [sub_self, abs_zero]
    exact abs_pos.mpr (sub_ne_zero.mpr same)

/-- A canonical value below the end of the range is a double. -/
theorem unpack_pack_of_abs_lt (canonical : IsCanonical u) (finite : u.isFinite = true)
    (small : |value u| < 2 ^ (1024 : ℤ)) : unpack .binary64 (pack .binary64 u) = u := by
  rcases u with s | _ | s | ⟨s, m, e, pos⟩
  · cases finite
  · cases finite
  · rw [pack, unpack_packedZero]
  · refine unpack_pack_finite canonical ?_
    by_contra above
    have wide : (2 ^ (52 : ℤ) : ℚ) ≤ m := by exact_mod_cast canonical.2.2.resolve_left (by omega)
    have power : (2 ^ (972 : ℤ) : ℚ) ≤ 2 ^ e := zpow_le_zpow_right₀ (by norm_num) (by omega)
    have sign : |unit s| = 1 := by cases s <;> simp [unit]
    rw [value_finite, abs_mul, abs_mul, sign, one_mul, Nat.abs_cast, abs_of_nonneg (by positivity)] at small
    have large : (2 ^ (1024 : ℤ) : ℚ) ≤ m * 2 ^ e := by
      calc (2 ^ (1024 : ℤ) : ℚ)
        _ = 2 ^ (52 : ℤ) * 2 ^ (972 : ℤ) := by rw [← zpow_add₀ (by norm_num)]; norm_num
        _ ≤ m * 2 ^ e := mul_le_mul wide power (by positivity) (by positivity)
    exact absurd small (not_lt.mpr large)

theorem unpack_pack_of_isFinite (canonical : IsCanonical u) (finite : u.isFinite = true)
    (kept : (unpack .binary64 (pack .binary64 u)).isFinite = true) : unpack .binary64 (pack .binary64 u) = u := by
  rcases u with s | _ | s | ⟨s, m, e, pos⟩
  · cases finite
  · cases finite
  · rw [pack, unpack_packedZero]
  · exact unpack_pack_finite canonical ((isFinite_unpack_pack_finite pos).mp kept)

end Rounding

/-! ### Results -/

/-- A double that is an exact value, rounded once; it is infinite if that is too large. -/
def IsResult (r : ℚ) (x : Float) : Prop :=
  ∃ u, x.toModel.unpack = unpack .binary64 (pack .binary64 u) ∧ IsCanonical u ∧ u.isFinite = true ∧ Rounds r u

/-- A finite double of at most some magnitude. -/
def IsWithin (c : ℚ) (x : Float) : Prop := Arith.isFinite x = true ∧ |ratio x| ≤ c

theorem IsWithin.mono {c d : ℚ} {x : Float} (h : IsWithin c x) (le : c ≤ d) : IsWithin d x := ⟨h.1, h.2.trans le⟩

section Results
variable {r c : ℚ} {x : Float}

theorem isDouble_ratio (finite : Arith.isFinite x = true) : IsDouble (ratio x) := exists_value_eq x finite

theorem isResult_of_isFinite (finite : Arith.isFinite x = true) (h : IsResult r x) : Rounds r x.toModel.unpack := by
  obtain ⟨u, read, canonical, bounded, rounds⟩ := h
  rw [isFinite_toModel, read] at finite
  rwa [read, unpack_pack_of_isFinite canonical bounded finite]

theorem IsResult.le (h : IsResult r x) (finite : Arith.isFinite x = true) (double : IsDouble c) (below : r ≤ c) :
    ratio x ≤ c :=
  ratio_eq x ▸ (isResult_of_isFinite finite h).le double below

theorem IsResult.ge (h : IsResult r x) (finite : Arith.isFinite x = true) (double : IsDouble c) (above : c ≤ r) :
    c ≤ ratio x :=
  ratio_eq x ▸ (isResult_of_isFinite finite h).ge double above

/-- A bound on the exact value bounds the double, if the bound is a double. -/
theorem IsResult.isWithin (h : IsResult r x) (double : IsDouble c) (small : |r| ≤ c) : IsWithin c x := by
  obtain ⟨u, read, canonical, bounded, rounds⟩ := h
  have ⟨lower, upper⟩ := abs_le.mp small
  have inside : |value u| ≤ c := abs_le.mpr ⟨rounds.ge double.neg lower, rounds.le double upper⟩
  rw [unpack_pack_of_abs_lt canonical bounded (inside.trans_lt double.lt_top)] at read
  rw [IsWithin, isFinite_toModel, ratio_eq, read]
  exact ⟨bounded, inside⟩

/-- The error is a small share of a value that is not too small. -/
theorem IsResult.near (h : IsResult r x) (finite : Arith.isFinite x = true) (normal : 2 ^ (-1022 : ℤ) ≤ |r|) :
    |ratio x - r| ≤ |r| / 2 ^ 52 := by
  have rounds := isResult_of_isFinite finite h
  have pos : 0 < |r| := lt_of_lt_of_le (by positivity) normal
  obtain ⟨k, lower, upper⟩ := exists_mem_Ico_zpow pos (by norm_num : (1 : ℚ) < 2)
  have least : -1022 ≤ k := by
    by_contra less
    have power : (2 : ℚ) ^ (k + 1) ≤ 2 ^ (-1022 : ℤ) := zpow_le_zpow_right₀ (by norm_num) (by omega)
    linarith
  have grid : (0 : ℚ) < 2 ^ (k - 52) := by positivity
  have scale : (2 : ℚ) ^ k = 2 ^ (k - 52) * 2 ^ 52 := by
    rw [← zpow_natCast, ← zpow_add₀ (by norm_num)]
    norm_num
  -- the magnitude cut to 53 bits is off by less than one of them
  have cut := Int.floor_le (|r| / 2 ^ (k - 52))
  have cut' := Int.lt_floor_add_one (|r| / 2 ^ (k - 52))
  have quotient : |r| / 2 ^ (k - 52) < 2 ^ 53 := by
    have double : (2 : ℚ) ^ 53 * 2 ^ (k - 52) = 2 ^ (k + 1) := by
      rw [zpow_add_one₀ (by norm_num), scale]
      ring
    rwa [div_lt_iff₀ grid, double]
  have nonneg : 0 ≤ ⌊|r| / 2 ^ (k - 52)⌋ := Int.floor_nonneg.mpr (by positivity)
  have bits : ⌊|r| / 2 ^ (k - 52)⌋ < 2 ^ 53 := by
    exact_mod_cast lt_of_le_of_lt cut quotient
  generalize ⌊|r| / 2 ^ (k - 52)⌋ = n at cut cut' nonneg bits
  rw [le_div_iff₀ grid] at cut
  rw [div_lt_iff₀ grid] at cut'
  have share : (2 : ℚ) ^ (k - 52) ≤ |r| / 2 ^ 52 := by
    rwa [le_div_iff₀ (by positivity), ← scale]
  rw [add_one_mul] at cut'
  rcases abs_cases r with ⟨same, -⟩ | ⟨turned, -⟩
  · have nearest := rounds.abs_le (n := n) (f := k - 52) (by rwa [abs_of_nonneg nonneg]) (by omega)
    have off : |(n * 2 ^ (k - 52) : ℚ) - r| ≤ 2 ^ (k - 52) := abs_le.mpr ⟨by linarith, by linarith⟩
    rw [← ratio_eq] at nearest
    linarith
  · have nearest := rounds.abs_le (n := -n) (f := k - 52) (by rwa [abs_neg, abs_of_nonneg nonneg]) (by omega)
    have off : |((-n : ℤ) * 2 ^ (k - 52) : ℚ) - r| ≤ 2 ^ (k - 52) := by
      rw [Int.cast_neg, neg_mul]
      exact abs_le.mpr ⟨by linarith, by linarith⟩
    rw [← ratio_eq] at nearest
    linarith

/-- The error is a small share of a value above zero. -/
theorem IsResult.share (h : IsResult r x) (finite : Arith.isFinite x = true) (normal : 2 ^ (-1022 : ℤ) ≤ r) :
    99999 / 100000 * r ≤ ratio x ∧ ratio x ≤ 100001 / 100000 * r := by
  have pos : 0 < r := lt_of_lt_of_le (by positivity) normal
  have near := h.near finite (by rwa [abs_of_pos pos])
  rw [abs_of_pos pos, abs_le] at near
  have small : r / 2 ^ 52 ≤ r / 100000 := div_le_div_of_nonneg_left pos.le (by norm_num) (by norm_num)
  constructor <;> linarith

end Results

/-! ### Operations -/

section Unpacked
variable {x y : UnpackedFloat}

/-- What is added up is first scaled to a significand that fills 53 bits, if the least exponent allows it. -/
theorem round_eq (s : Sign) (m : Nat) (e : Int) :
    ∃ k : Nat, UnpackedFloat.round .binary64 s m e = roundWithAccuracy .binary64 s (m * 2 ^ k) (e - k) .exact ∧
      (52 ≤ m.log2 + k ∨ e - k ≤ -1074) := by
  refine ⟨(e - Format.binary64.targetExponent (totalExponent m e)).toNat, ?_, ?_⟩
  · unfold UnpackedFloat.round decreaseExponent
    rw [← Nat.shiftLeft_eq]
  · simp only [Format.targetExponent, totalExponent, Format.mantissaBits, Format.minExponent]
    omega

theorem round_spec (s : Sign) {m : Nat} (e : Int) (pos : 0 < m) :
    IsCanonical (UnpackedFloat.round .binary64 s m e) ∧ (UnpackedFloat.round .binary64 s m e).isFinite = true ∧
      Rounds (unit s * (m * 2 ^ e)) (UnpackedFloat.round .binary64 s m e) := by
  obtain ⟨k, read, width⟩ := round_eq s m e
  have wide : 52 ≤ (m * 2 ^ k).log2 ∨ e - k ≤ -1074 := width.imp_left (le_log2_mul_pow pos)
  have ⟨canonical, bounded, _⟩ := roundWithAccuracy_spec wide s .exact
  have exact : ((m * 2 ^ k : ℕ) : ℚ) * 2 ^ (e - k) = m * 2 ^ e := by
    rw [zpow_sub₀ (by norm_num), zpow_natCast]
    push_cast
    field_simp
  have rounds := rounds_exact wide s
  rw [exact] at rounds
  rw [read]
  exact ⟨canonical, bounded, rounds⟩

theorem normalize_rounds (m e : Int) (s : Sign) :
    IsCanonical (normalize .binary64 m e s) ∧ (normalize .binary64 m e s).isFinite = true ∧
      Rounds (m * 2 ^ e) (normalize .binary64 m e s) := by
  unfold UnpackedFloat.normalize
  rcases Int.lt_trichotomy m 0 with below | rfl | above
  · have exact : unit .negative * (((-m).toNat : ℚ) * 2 ^ e) = m * 2 ^ e := by
      have size : (((-m).toNat : ℤ) : ℚ) = -m := by rw [Int.toNat_of_nonneg (by omega), Int.cast_neg]
      rw [Int.cast_natCast] at size
      rw [size, unit]
      ring
    rw [Int.compare_eq_lt.mpr below]
    exact exact ▸ round_spec .negative e (by omega)
  · rw [Int.cast_zero, zero_mul]
    exact ⟨trivial, rfl, rounds_zero s⟩
  · have exact : unit .positive * ((m.toNat : ℚ) * 2 ^ e) = m * 2 ^ e := by
      have size : ((m.toNat : ℤ) : ℚ) = m := by rw [Int.toNat_of_nonneg (by omega)]
      rw [Int.cast_natCast] at size
      rw [size, unit, one_mul]
    rw [Int.compare_eq_gt.mpr above]
    exact exact ▸ round_spec .positive e (by omega)

theorem value_lowered (s : Sign) {m : Nat} {e l : Int} (pos : 0 < m) (le : l ≤ e) :
    value (.finite s m e pos) = (s.apply (decreaseExponent m e l).1 : ℤ) * 2 ^ l := by
  have exponent : (2 : ℚ) ^ e = 2 ^ (e - l).toNat * 2 ^ l := by
    rw [← zpow_natCast, ← zpow_add₀ (by norm_num)]
    congr 1
    omega
  rw [value, exponent]
  unfold decreaseExponent
  cases s <;> simp only [Sign.apply, Nat.shiftLeft_eq] <;> push_cast <;> ring

theorem add_spec (left : IsCanonical x) (right : IsCanonical y) (finite : x.isFinite) (finite' : y.isFinite) :
    IsCanonical (x.add .binary64 y) ∧ (x.add .binary64 y).isFinite = true ∧
      Rounds (value x + value y) (x.add .binary64 y) := by
  rcases x with s | _ | s | ⟨s, m, e, pos⟩
  · cases finite
  · cases finite
  · rcases y with t | _ | t | ⟨t, n, f, pos'⟩
    · cases finite'
    · cases finite'
    · rw [value_zero, value_zero, add_zero]
      cases s <;> cases t <;> exact ⟨trivial, rfl, rounds_zero _⟩
    · rw [value_zero, zero_add]
      exact ⟨right, rfl, rounds_self _⟩
  · rcases y with t | _ | t | ⟨t, n, f, pos'⟩
    · cases finite'
    · cases finite'
    · rw [value_zero, add_zero]
      exact ⟨left, rfl, rounds_self _⟩
    · rw [value_lowered s pos (min_le_left e f), value_lowered t pos' (min_le_right e f), ← add_mul, ← Int.cast_add]
      exact normalize_rounds _ _ .positive

theorem value_neg (x : UnpackedFloat) : value x.neg = -value x := by
  rcases x with s | _ | s | ⟨_ | _, m, e, pos⟩ <;> simp [value, UnpackedFloat.neg, Sign.apply]

theorem sub_spec (left : IsCanonical x) (right : IsCanonical y) (finite : x.isFinite) (finite' : y.isFinite) :
    IsCanonical (x.sub .binary64 y) ∧ (x.sub .binary64 y).isFinite = true ∧
      Rounds (value x - value y) (x.sub .binary64 y) := by
  have turned : value x - value y = value x + value y.neg := by
    rw [value_neg]
    ring
  rw [sub_eq_add_neg, turned]
  exact add_spec left (isCanonical_neg right) finite ((isFinite_neg y).trans finite')

theorem unit_mul (s t : Sign) : unit (s * t) = unit s * unit t := by
  cases s <;> cases t
  · show (1 : ℚ) = -1 * -1
    norm_num
  · show (-1 : ℚ) = -1 * 1
    norm_num
  · show (-1 : ℚ) = 1 * -1
    norm_num
  · show (1 : ℚ) = 1 * 1
    norm_num

/-- The product of two significands fills 53 bits, if the least exponent allows it. -/
theorem wide_mul {m n : Nat} {e f : Int} (pos : 0 < m) (pos' : 0 < n) (left : e = -1074 ∨ 2 ^ 52 ≤ m)
    (right : f = -1074 ∨ 2 ^ 52 ≤ n) : 52 ≤ (m * n).log2 ∨ e + f ≤ -1074 := by
  have filled : m * n ≠ 0 := Nat.ne_of_gt (Nat.mul_pos pos pos')
  rcases left with low | wide
  · rcases right with low' | wide
    · omega
    · exact Or.inl ((Nat.le_log2 filled).mpr (Nat.le_trans wide (Nat.le_mul_of_pos_left n pos)))
  · exact Or.inl ((Nat.le_log2 filled).mpr (Nat.le_trans wide (Nat.le_mul_of_pos_right m pos')))

theorem mul_spec (left : IsCanonical x) (right : IsCanonical y) (finite : x.isFinite) (finite' : y.isFinite) :
    IsCanonical (x.mul .binary64 y) ∧ (x.mul .binary64 y).isFinite = true ∧
      Rounds (value x * value y) (x.mul .binary64 y) := by
  rcases x with s | _ | s | ⟨s, m, e, pos⟩
  · cases finite
  · cases finite
  · rw [value_zero, zero_mul]
    rcases y with t | _ | t | ⟨t, n, f, pos'⟩
    · cases finite'
    · cases finite'
    · exact ⟨trivial, rfl, rounds_zero _⟩
    · exact ⟨trivial, rfl, rounds_zero _⟩
  · rcases y with t | _ | t | ⟨t, n, f, pos'⟩
    · cases finite'
    · cases finite'
    · rw [value_zero, mul_zero]
      exact ⟨trivial, rfl, rounds_zero _⟩
    · have wide := wide_mul pos pos' left.2.2 right.2.2
      have ⟨canonical, bounded, _⟩ := roundWithAccuracy_spec wide (s * t) .exact
      have exact : unit (s * t) * ((m * n : ℕ) * 2 ^ (e + f)) =
          value (.finite s m e pos) * value (.finite t n f pos') := by
        rw [unit_mul, value_finite, value_finite, zpow_add₀ (by norm_num)]
        push_cast
        ring
      have rounds := rounds_exact wide (s * t)
      rw [exact] at rounds
      exact ⟨canonical, bounded, rounds⟩

theorem div_spec (finite : x.isFinite) (finite' : y.isFinite) (divides : value y ≠ 0) :
    IsCanonical (x.div .binary64 y) ∧ (x.div .binary64 y).isFinite = true ∧
      Rounds (value x / value y) (x.div .binary64 y) := by
  rcases y with t | _ | t | ⟨t, n, f, right⟩
  · cases finite'
  · cases finite'
  · exact absurd rfl divides
  rcases x with s | _ | s | ⟨s, m, e, left⟩
  · cases finite
  · cases finite
  · rw [value_zero, zero_div]
    exact ⟨trivial, rfl, rounds_zero _⟩
  · have wide := (divCore_spec left right e f).2
    have ⟨canonical, bounded, _⟩ := roundWithAccuracy_spec wide (s / t) (divCore .binary64 m e n f).2.2
    exact ⟨canonical, bounded, rounds_quotient s t left right e f⟩

end Unpacked

section Operations
variable {x y : Float}

theorem isResult_add (first : Arith.isFinite x = true) (second : Arith.isFinite y = true) :
    IsResult (ratio x + ratio y) (x + y) := by
  rw [ratio_eq, ratio_eq]
  exact ⟨_, unpack_add x y, add_spec (isCanonical_toModel x) (isCanonical_toModel y) first second⟩

theorem isResult_sub (first : Arith.isFinite x = true) (second : Arith.isFinite y = true) :
    IsResult (ratio x - ratio y) (x - y) := by
  rw [ratio_eq, ratio_eq]
  exact ⟨_, unpack_sub x y, sub_spec (isCanonical_toModel x) (isCanonical_toModel y) first second⟩

theorem isResult_mul (first : Arith.isFinite x = true) (second : Arith.isFinite y = true) :
    IsResult (ratio x * ratio y) (x * y) := by
  rw [ratio_eq, ratio_eq]
  exact ⟨_, unpack_mul x y, mul_spec (isCanonical_toModel x) (isCanonical_toModel y) first second⟩

theorem isResult_div (first : Arith.isFinite x = true) (second : Arith.isFinite y = true) (divides : ratio y ≠ 0) :
    IsResult (ratio x / ratio y) (x / y) := by
  rw [ratio_eq] at divides
  rw [ratio_eq, ratio_eq]
  exact ⟨_, unpack_div x y, div_spec first second divides⟩

/-- A whole number becomes the double nearest to it. -/
theorem isResult_ofNat (k : Nat) : IsResult k (Float.ofNat k) := by
  rcases ofNat_cases k with ⟨short, read⟩ | ⟨pos, read⟩
  · have whole := ratio_toFloat (n := k.toUInt64) (by rwa [toNat_toUInt64 short])
    have one : ratio (Float.ofBits 0x3FF0000000000000) = 1 := ratio_eq_iff.mpr rfl
    have product := isResult_mul (isFinite_toFloat k.toUInt64)
      (rfl : Arith.isFinite (Float.ofBits 0x3FF0000000000000) = true)
    rwa [whole, one, mul_one, toNat_toUInt64 short, ← read] at product
  · have wide : 52 ≤ (k * 2 ^ 53).log2 ∨ (-53 : Int) ≤ -1074 := Or.inl (le_log2_mul_pow pos (by omega))
    have exact : unit .positive * ((k * 2 ^ 53 : ℕ) * 2 ^ (-53 : Int)) = (k : ℚ) := by
      rw [unit, one_mul, zpow_neg]
      push_cast
      exact mul_inv_cancel_right₀ (by norm_num) _
    obtain ⟨canonical, bounded, -⟩ := roundWithAccuracy_spec wide .positive .exact
    exact ⟨_, read, canonical, bounded, exact ▸ rounds_exact wide .positive⟩

theorem isResult_ofInt {n : Int} (nonneg : 0 ≤ n) : IsResult n (Arith.ofInt n : Float) := by
  obtain ⟨k, rfl⟩ := Int.eq_ofNat_of_zero_le nonneg
  rw [Int.cast_natCast]
  exact isResult_ofNat k

/-- A quotient of whole numbers is rounded once. -/
theorem isResult_ofRatio {p q : Int} (left : 0 < p) (right : 0 < q) : IsResult (p / q) (Arith.ofRatio p q : Float) := by
  rcases Int.lt_or_eq_of_le (Int.add_one_le_of_lt right) with wide | rfl
  · have read := unpack_nearest (by omega) (Int.natAbs_pos.mpr left.ne') (Int.natAbs_pos.mpr right.ne')
    have sign : ((p < 0) = (q < 0)) := by
      rw [eq_iff_iff]
      omega
    rw [if_pos sign] at read
    have size (n : Int) (pos : 0 < n) : (n.natAbs : ℚ) = n := by rw [Nat.cast_natAbs, abs_of_pos pos]
    have divides : value (.finite .positive q.natAbs 0 (Int.natAbs_pos.mpr right.ne')) ≠ 0 := by
      rw [value_finite, size q right, unit, one_mul, zpow_zero, mul_one]
      exact_mod_cast right.ne'
    have spec := div_spec (x := .finite .positive p.natAbs 0 (Int.natAbs_pos.mpr left.ne')) rfl rfl divides
    rw [value_finite, value_finite, size p left, size q right, unit, one_mul, one_mul, zpow_zero, mul_one,
      mul_one] at spec
    exact ⟨_, read, spec⟩
  · rw [zero_add, Int.cast_one, div_one]
    exact isResult_ofInt left.le

theorem ratio_one : ratio 1.0 = 1 := ratio_eq_iff (n := 1) |>.mpr rfl

theorem ratio_two : ratio 2.0 = 2 := ratio_eq_iff (n := 2) |>.mpr rfl

theorem ratio_neg (finite : Arith.isFinite x = true) : ratio (Float.neg x) = -ratio x := by
  have read : (Float.neg x).toModel.unpack = unpack .binary64 (pack .binary64 x.toModel.unpack.neg) := rfl
  have kept := (isFinite_neg_iff x).trans finite
  rw [isFinite_toModel, read] at kept
  rw [unpack_pack_of_isFinite (isCanonical_neg (isCanonical_toModel x)) ((isFinite_neg _).trans finite) kept] at read
  rw [ratio_eq, ratio_eq, read, value_neg]

theorem ratio_ofInt_neg {n : Int} (pos : 0 < n) (small : ¬IsTooLarge n) :
    ratio (Arith.ofInt (-n) : Float) = -ratio (Arith.ofInt n : Float) := by
  cases n with
  | negSucc k => exact absurd pos (by omega)
  | ofNat k =>
    obtain ⟨j, rfl⟩ := Nat.exists_eq_succ_of_ne_zero (by rintro rfl; exact absurd pos (by decide) : k ≠ 0)
    have finite : Arith.isFinite (Float.ofNat (j + 1)) = true := (isFinite_ofInt (j + 1 : Nat)).mpr small
    exact ratio_neg finite

/-- A whole number of 53 bits is a double. -/
theorem ofInt_exact {n : Int} (nonneg : 0 ≤ n) (bits : n < 2 ^ 53) :
    Arith.isFinite (Arith.ofInt n : Float) = true ∧ ratio (Arith.ofInt n : Float) = n := by
  have result := isResult_ofInt nonneg
  have double : IsDouble n := by
    obtain ⟨k, rfl⟩ := Int.eq_ofNat_of_zero_le nonneg
    exact isDouble_natCast (by exact_mod_cast bits)
  have sign : (0 : ℚ) ≤ n := by exact_mod_cast nonneg
  have finite := (result.isWithin double (abs_of_nonneg sign).le).1
  exact ⟨finite, le_antisymm (result.le finite double le_rfl) (result.ge finite double le_rfl)⟩

end Operations

/-! ### Bounds of results -/

section Bounds
variable {c d : ℚ} {x y : Float}

theorem isWithin_zero : IsWithin 0 0.0 := ⟨rfl, (abs_eq_zero.mpr (ratio_eq_iff (n := 0) |>.mpr rfl)).le⟩

theorem IsWithin.number (h : IsWithin c x) : Arith.isNaN x = false := isNaN_of_isFinite h.1

theorem IsWithin.add (left : IsWithin c x) (right : IsWithin d y) (double : IsDouble (c + d)) :
    IsWithin (c + d) (x + y) :=
  (isResult_add left.1 right.1).isWithin double ((abs_add_le _ _).trans (add_le_add left.2 right.2))

theorem IsWithin.sub (left : IsWithin c x) (right : IsWithin d y) (double : IsDouble (c + d)) :
    IsWithin (c + d) (x - y) :=
  (isResult_sub left.1 right.1).isWithin double ((abs_sub _ _).trans (add_le_add left.2 right.2))

theorem IsWithin.mul (left : IsWithin c x) (right : IsWithin d y) (double : IsDouble (c * d)) :
    IsWithin (c * d) (x * y) := by
  refine (isResult_mul left.1 right.1).isWithin double ?_
  rw [abs_mul]
  exact mul_le_mul left.2 right.2 (abs_nonneg _) ((abs_nonneg _).trans left.2)

/-- A sum of `n` values over their number is within the bound of the values. -/
theorem IsWithin.div_ofInt {n : Int} (h : IsWithin (n * c) x) (pos : 0 < n) (short : n < 2 ^ 53)
    (double : IsDouble c) : IsWithin c (x / Arith.ofInt n) := by
  obtain ⟨finite, exact⟩ := ofInt_exact pos.le short
  have count : (0 : ℚ) < n := Int.cast_pos.mpr pos
  refine (isResult_div h.1 finite (by rw [exact]; exact count.ne')).isWithin double ?_
  rw [exact, abs_div, abs_of_pos count, div_le_iff₀' count]
  exact h.2

end Bounds

end ChartOverlay.Double
